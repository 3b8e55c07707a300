import Mathlib.Data.String.Basic
import Metralectl.Library.SortedMap
import Metralectl.Platform.Forms

/-!
Forms with parts: one of several that are told apart by what they are called, records with a fixed
set of members, and maps. A record is also read from an array of its members' values in the order
they are declared in.
-/
namespace Metralectl
namespace Platform
open JsonText Canonical SortedMaps

section Variants
variable {α β : Type}

/-- An object with one key and a value under it. -/
def carryShape (t : String) (f : Form α) : Shape α where
  valid | .object [(s, x)] => s = t && f.valid x | _ => false
  settle
    | .object [(s, x)] => .object [(s, if s = t then f.settle x else x)]
    | v => v
  read | .object [(s, x)] => if s = t then f.read x else none | _ => none
  write a := .object [(t, f.write a)]

section Carried
variable {t : String} {f : Form α} {v w : Value}

theorem carryShape_valid :
    (carryShape t f).valid v = true ↔ ∃ x, v = .object [(t, x)] ∧ f.valid x = true := by
  unfold carryShape
  dsimp only
  split
  · next s x =>
      rw [Bool.and_eq_true, decide_eq_true_eq]
      constructor
      · rintro ⟨rfl, valid⟩
        exact ⟨x, rfl, valid⟩
      · rintro ⟨y, same, valid⟩
        cases same
        exact ⟨rfl, valid⟩
  · next other =>
      simp only [Bool.false_eq_true, false_iff, not_exists, not_and]
      rintro x rfl
      exact absurd rfl (other t x)

theorem arrange_single (s : String) (x : Value) :
    arrange (.object [(s, x)]) = .object [(s, arrange x)] := by
  rw [arrange_object]
  rfl

theorem single_of_arrange {s : String} {x : Value}
    (same : arrange (.object [(s, x)]) = arrange w) :
    ∃ y, w = .object [(s, y)] ∧ arrange y = arrange x := by
  rw [arrange_single] at same
  cases w with
  | object ms =>
      rw [arrange_object, Json.object.injEq] at same
      have perm := sortKeys_perm (ms.map arrangeMember)
      rw [← same] at perm
      have one := List.singleton_perm.mp perm
      cases ms with
      | nil => cases one
      | cons m ms =>
          obtain ⟨k, y⟩ := m
          cases ms with
          | nil =>
              have whole := (List.cons.inj one).1
              cases congrArg Prod.fst whole
              exact ⟨y, rfl, (congrArg Prod.snd whole).symm⟩
          | cons n ms => exact absurd (congrArg List.length one) (by simp)
  | array _ =>
      rw [arrange_array] at same
      cases same
  | _ => cases same

theorem distinct_single {s : String} {x : Value} : Distinct (.object [(s, x)]) ↔ Distinct x := by
  rw [Distinct, Json.everywhere_object]
  constructor
  · rintro ⟨_, parts⟩
    exact parts (s, x) List.mem_cons_self
  · intro inner
    refine ⟨?_, fun m there => ?_⟩
    · rintro members same
      cases same
      exact List.nodup_singleton s
    · rw [List.mem_singleton.mp there]
      exact inner

theorem integers_single {s : String} {x : Value} (inner : Integers x) :
    Integers (.object [(s, x)]) := by
  refine Json.everywhere_object.mpr ⟨fun _ h => (by cases h), fun m there => ?_⟩
  rw [List.mem_singleton.mp there]
  exact inner

end Carried

theorem carry_lawful (t : String) (f : Form α) : (carryShape t f).Lawful where
  settle_write a := by
    simp only [carryShape, if_true, f.lawful.settle_write]
  valid_write a := carryShape_valid.mpr ⟨_, rfl, f.lawful.valid_write a⟩
  read_iff {v a} distinct := by
    unfold carryShape
    dsimp only
    split
    · next s x =>
        split
        · next here =>
            subst here
            rw [f.lawful.read_iff (distinct_single.mp distinct)]
            simp
        · next other => simp [other]
    · next none_ =>
        simp only [reduceCtorEq, false_iff]
        rintro rfl
        exact none_ _ _ rfl
  held valid := by
    obtain ⟨x, rfl, inner⟩ := carryShape_valid.mp valid
    obtain ⟨a, settled⟩ := f.lawful.held inner
    exact ⟨a, by simp only [carryShape, if_true, settled]⟩
  sound valid := by
    obtain ⟨x, rfl, inner⟩ := carryShape_valid.mp valid
    have sound := f.lawful.sound inner
    exact ⟨distinct_single.mpr sound.1, integers_single sound.2⟩
  arranged valid := by
    obtain ⟨x, rfl, inner⟩ := carryShape_valid.mp valid
    simp only [carryShape, if_true, arrange_single, f.lawful.arranged inner]
  steady valid same := by
    obtain ⟨x, rfl, inner⟩ := carryShape_valid.mp valid
    obtain ⟨y, rfl, alike⟩ := single_of_arrange same
    obtain ⟨there, settled⟩ := f.lawful.steady inner alike.symm
    exact ⟨carryShape_valid.mpr ⟨y, rfl, there⟩, by simp only [carryShape, if_true, settled]⟩

def carry (t : String) (f : Form α) : Tagged α where
  toShape := carryShape t f
  lawful := carry_lawful t f
  tags := [t]
  keeps v := by
    unfold carryShape
    dsimp only
    split <;> rfl
  mine _ := ⟨t, List.mem_singleton_self t, rfl⟩

def orShape (f : Tagged α) (g : Tagged β) : Shape (α ⊕ β) where
  valid v := if (tagOf v).any (· ∈ f.tags) then f.valid v else g.valid v
  settle v := if (tagOf v).any (· ∈ f.tags) then f.settle v else g.settle v
  read v := if (tagOf v).any (· ∈ f.tags) then (f.read v).map .inl else (g.read v).map .inr
  write := Sum.elim f.write g.write

section Either
variable {f : Tagged α} {g : Tagged β} {v w : Value}

theorem Tagged.called (f : Tagged α) (a : α) : (tagOf (f.write a)).any (· ∈ f.tags) = true := by
  obtain ⟨t, there, called⟩ := f.mine a
  rw [called]
  simpa using there

theorem uncalled (apart : ∀ t ∈ g.tags, t ∉ f.tags) (b : β) :
    (tagOf (g.write b)).any (· ∈ f.tags) = false := by
  obtain ⟨t, there, called⟩ := g.mine b
  rw [called]
  simpa using apart t there

theorem or_lawful (apart : ∀ t ∈ g.tags, t ∉ f.tags) : (orShape f g).Lawful where
  settle_write c := by
    cases c with
    | inl a => simp only [orShape, Sum.elim_inl, f.called, if_true, f.lawful.settle_write]
    | inr b =>
        simp only [orShape, Sum.elim_inr, uncalled apart, Bool.false_eq_true, if_false,
          g.lawful.settle_write]
  valid_write c := by
    cases c with
    | inl a => simp only [orShape, Sum.elim_inl, f.called, if_true, f.lawful.valid_write]
    | inr b =>
        simp only [orShape, Sum.elim_inr, uncalled apart, Bool.false_eq_true, if_false,
          g.lawful.valid_write]
  read_iff {v c} distinct := by
    have mine := f.keeps v
    have other := g.keeps v
    simp only [orShape]
    split
    · next here =>
        cases c with
        | inl a => simpa using f.lawful.read_iff distinct
        | inr b =>
            have never : f.settle v ≠ g.write b := by
              intro settled
              rw [← mine, settled, uncalled apart] at here
              cases here
            simpa using never
    · next there =>
        cases c with
        | inl a =>
            have never : g.settle v ≠ f.write a := by
              intro settled
              rw [← other, settled, f.called] at there
              exact there rfl
            simpa using never
        | inr b => simpa using g.lawful.read_iff distinct
  held {v} valid := by
    simp only [orShape] at valid ⊢
    split at valid
    · next here =>
        obtain ⟨a, settled⟩ := f.lawful.held valid
        exact ⟨.inl a, by rw [if_pos here]; exact settled⟩
    · next there =>
        obtain ⟨b, settled⟩ := g.lawful.held valid
        exact ⟨.inr b, by rw [if_neg there]; exact settled⟩
  sound {v} valid := by
    simp only [orShape] at valid
    split at valid
    · exact f.lawful.sound valid
    · exact g.lawful.sound valid
  arranged {v} valid := by
    simp only [orShape] at valid ⊢
    split at valid
    · next here =>
        rw [if_pos here]
        exact f.lawful.arranged valid
    · next there =>
        rw [if_neg there]
        exact g.lawful.arranged valid
  steady {v w} valid same := by
    have called : tagOf w = tagOf v := by rw [← tagOf_arrange w, ← same, tagOf_arrange]
    simp only [orShape, called] at valid ⊢
    split at valid
    · next here =>
        rw [if_pos here, if_pos here, if_pos here]
        exact f.lawful.steady valid same
    · next there =>
        rw [if_neg there, if_neg there, if_neg there]
        exact g.lawful.steady valid same

end Either

def Tagged.or (f : Tagged α) (g : Tagged β) (apart : ∀ t ∈ g.tags, t ∉ f.tags) :
    Tagged (α ⊕ β) where
  toShape := orShape f g
  lawful := or_lawful apart
  tags := f.tags ++ g.tags
  keeps v := by
    simp only [orShape]
    split
    · exact f.keeps v
    · exact g.keeps v
  mine c := by
    cases c with
    | inl a =>
        obtain ⟨t, there, called⟩ := f.mine a
        exact ⟨t, List.mem_append_left _ there, called⟩
    | inr b =>
        obtain ⟨t, there, called⟩ := g.mine b
        exact ⟨t, List.mem_append_right _ there, called⟩

def Tagged.as (f : Tagged α) (e : α ≃ β) : Tagged β where
  toForm := via f.toForm e
  tags := f.tags
  keeps := f.keeps
  mine b := f.mine (e.symm b)

end Variants

section Collecting
variable {α β : Type} {keys : List String} {ms ns : List (String × α)} {xs ys : List α}

/-- The values under these keys, in this order, if there are no other keys. -/
def collect (keys : List String) (ms : List (String × α)) : Option (List α) :=
  if ms.all (·.1 ∈ keys) then keys.mapM (fun k => ms.lookup k) else none

theorem lookup_iff (once : (ms.map Prod.fst).Nodup) {k : String} {x : α} :
    ms.lookup k = some x ↔ (k, x) ∈ ms := by
  induction ms with
  | nil => simp
  | cons m ms ih =>
      obtain ⟨j, y⟩ := m
      rw [List.map_cons, List.nodup_cons] at once
      rw [List.lookup_cons, List.mem_cons, Prod.mk.injEq, ← ih once.2]
      by_cases same : k = j
      · subst same
        have absent : ms.lookup k = none := by
          rw [List.lookup_eq_none_iff]
          intro e there
          have other : k ≠ e.1 := by
            rintro rfl
            have key : e.1 ∈ ms.map Prod.fst := List.mem_map_of_mem there
            exact once.1 key
          simpa using other
        simp [absent, eq_comm]
      · have other : (k == j) = false := by simpa using same
        simp [other, same]

theorem mapM_lookup_zip (once : (ms.map Prod.fst).Nodup) :
    keys.mapM (fun k => ms.lookup k) = some xs ↔
      xs.length = keys.length ∧ ∀ m ∈ keys.zip xs, m ∈ ms := by
  induction keys generalizing xs with
  | nil => cases xs <;> simp
  | cons k keys ih =>
      rw [List.mapM_cons]
      cases xs with
      | nil => simp [Option.bind_eq_bind, Option.bind_eq_some_iff]
      | cons x xs =>
          rw [List.zip_cons_cons, List.forall_mem_cons, ← lookup_iff once]
          simp [Option.bind_eq_bind, Option.bind_eq_some_iff, ih]
          tauto

/-- What is collected is the members, in another order. -/
theorem collect_iff (fixed : keys.Nodup) (once : (ms.map Prod.fst).Nodup) :
    collect keys ms = some xs ↔ xs.length = keys.length ∧ (keys.zip xs).Perm ms := by
  have firsts (long : xs.length = keys.length) : (keys.zip xs).map Prod.fst = keys :=
    List.map_fst_zip (le_of_eq long.symm)
  have apart (long : xs.length = keys.length) : (keys.zip xs).Nodup :=
    List.Nodup.of_map Prod.fst (by rw [firsts long]; exact fixed)
  unfold collect
  constructor
  · intro found
    split at found
    · next known =>
        rw [List.all_eq_true] at known
        obtain ⟨long, there⟩ := (mapM_lookup_zip once).mp found
        refine ⟨long, (List.perm_ext_iff_of_nodup (apart long) (List.Nodup.of_map _ once)).mpr
          fun m => ⟨there m, fun here => ?_⟩⟩
        have key : m.1 ∈ (keys.zip xs).map Prod.fst := by
          rw [firsts long]
          exact of_decide_eq_true (known m here)
        obtain ⟨n, zipped, same⟩ := List.mem_map.mp key
        rw [List.inj_on_of_nodup_map once here (there n zipped) same.symm]
        exact zipped
    · cases found
  · rintro ⟨long, perm⟩
    have known : ms.all (·.1 ∈ keys) = true := by
      rw [List.all_eq_true]
      intro m here
      have key := List.mem_map_of_mem (f := Prod.fst) (perm.mem_iff.mpr here)
      rw [firsts long] at key
      exact decide_eq_true key
    rw [if_pos known]
    exact (mapM_lookup_zip once).mpr ⟨long, fun m there => perm.mem_iff.mp there⟩

theorem keys_zip (long : xs.length = keys.length) : (keys.zip xs).map Prod.fst = keys :=
  List.map_fst_zip (le_of_eq long.symm)

theorem collect_zip (fixed : keys.Nodup) (long : xs.length = keys.length) :
    collect keys (keys.zip xs) = some xs :=
  (collect_iff fixed (by rw [keys_zip long]; exact fixed)).mpr ⟨long, .refl _⟩

theorem zip_perm (fixed : keys.Nodup) (long : xs.length = keys.length)
    (same : ys.length = keys.length) (perm : (keys.zip xs).Perm (keys.zip ys)) : xs = ys := by
  have first := (collect_iff fixed (by rw [keys_zip same]; exact fixed)).mpr ⟨long, perm⟩
  rw [collect_zip fixed same] at first
  exact (Option.some.inj first).symm

/-- Members with just these keys have a value for each. -/
theorem collect_some (fixed : keys.Nodup) (perm : (ms.map Prod.fst).Perm keys) :
    ∃ xs, collect keys ms = some xs := by
  have once : (ms.map Prod.fst).Nodup := perm.nodup_iff.mpr fixed
  have known : ms.all (·.1 ∈ keys) = true := by
    rw [List.all_eq_true]
    intro m here
    exact decide_eq_true (perm.mem_iff.mp (List.mem_map_of_mem here))
  have each : ∀ k ∈ keys, ∃ x, ms.lookup k = some x := by
    intro k there
    obtain ⟨m, here, rfl⟩ := List.mem_map.mp (perm.mem_iff.mpr there)
    exact ⟨m.2, (lookup_iff once).mpr here⟩
  rw [collect, if_pos known]
  clear perm known fixed
  induction keys with
  | nil => exact ⟨[], rfl⟩
  | cons k keys ih =>
      rw [List.forall_mem_cons] at each
      obtain ⟨x, found⟩ := each.1
      obtain ⟨xs, rest⟩ := ih each.2
      exact ⟨x :: xs, by rw [List.mapM_cons, found, rest]; rfl⟩

end Collecting
section Members
variable {α β : Type}

/-- The members of a record, by position. -/
structure FieldsShape (α : Type) where
  keys : List String
  valid : List Value → Bool
  settle : List Value → List Value
  read : List Value → Option α
  write : α → List Value

structure FieldsShape.Lawful (fs : FieldsShape α) : Prop where
  length_write : ∀ a, (fs.write a).length = fs.keys.length
  length_settle : ∀ vs, (fs.settle vs).length = vs.length
  settle_write : ∀ a, fs.settle (fs.write a) = fs.write a
  valid_write : ∀ a, fs.valid (fs.write a) = true
  read_iff : ∀ {vs a}, (∀ v ∈ vs, Distinct v) → (fs.read vs = some a ↔ fs.settle vs = fs.write a)
  held : ∀ {vs}, fs.valid vs = true → ∃ a, fs.settle vs = fs.write a
  sound : ∀ {vs}, fs.valid vs = true → ∀ v ∈ vs, Distinct v ∧ Integers v
  arranged : ∀ {vs}, fs.valid vs = true → (fs.settle vs).map arrange = vs.map arrange
  steady : ∀ {vs ws}, fs.valid vs = true → vs.map arrange = ws.map arrange →
    fs.valid ws = true ∧ fs.settle ws = fs.settle vs

structure Fields (α : Type) extends FieldsShape α where
  lawful : toFieldsShape.Lawful

def nilShape : FieldsShape Unit where
  keys := []
  valid vs := vs.isEmpty
  settle vs := vs
  read vs := if vs.isEmpty then some () else none
  write _ := []

theorem nil_lawful : nilShape.Lawful where
  length_write _ := rfl
  length_settle _ := rfl
  settle_write _ := rfl
  valid_write _ := rfl
  read_iff {vs a} _ := by cases vs <;> simp [nilShape]
  held {vs} valid := ⟨(), List.isEmpty_iff.mp valid⟩
  sound {vs} valid := by
    rw [List.isEmpty_iff.mp valid]
    exact fun _ there => absurd there List.not_mem_nil
  arranged _ := rfl
  steady {vs ws} valid same := by
    rw [List.isEmpty_iff.mp valid, List.map_nil, eq_comm, List.map_eq_nil_iff] at same
    rw [same, List.isEmpty_iff.mp valid]
    exact ⟨rfl, rfl⟩

def Fields.nil : Fields Unit := ⟨nilShape, nil_lawful⟩

/-- One more member before the others. -/
def consShape (key : String) (f : Form α) (fs : Fields β) : FieldsShape (α × β) where
  keys := key :: fs.keys
  valid | [] => false | v :: vs => f.valid v && fs.valid vs
  settle | [] => [] | v :: vs => f.settle v :: fs.settle vs
  read | [] => none | v :: vs => (f.read v).bind fun a => (fs.read vs).map (a, ·)
  write ab := f.write ab.1 :: fs.write ab.2

theorem consShape_valid {key : String} {f : Form α} {fs : Fields β} {vs : List Value} :
    (consShape key f fs).valid vs = true ↔
      ∃ w ws, vs = w :: ws ∧ f.valid w = true ∧ fs.valid ws = true := by
  cases vs <;> simp [consShape]

theorem cons_lawful (key : String) (f : Form α) (fs : Fields β) :
    (consShape key f fs).Lawful where
  length_write ab := congrArg Nat.succ (fs.lawful.length_write ab.2)
  length_settle vs := by
    cases vs with
    | nil => rfl
    | cons v vs => exact congrArg Nat.succ (fs.lawful.length_settle vs)
  settle_write ab := by
    simp only [consShape, f.lawful.settle_write, fs.lawful.settle_write]
  valid_write ab := consShape_valid.mpr
    ⟨_, _, rfl, f.lawful.valid_write ab.1, fs.lawful.valid_write ab.2⟩
  read_iff {vs ab} distinct := by
    cases vs with
    | nil => simp [consShape]
    | cons v vs =>
        rw [List.forall_mem_cons] at distinct
        simp only [consShape, List.cons.injEq, ← f.lawful.read_iff distinct.1,
          ← fs.lawful.read_iff distinct.2, Option.bind_eq_some_iff, Option.map_eq_some_iff]
        constructor
        · rintro ⟨a, first, b, rest, rfl⟩
          exact ⟨first, rest⟩
        · rintro ⟨first, rest⟩
          exact ⟨_, first, _, rest, rfl⟩
  held valid := by
    obtain ⟨v, vs, rfl, first, rest⟩ := consShape_valid.mp valid
    obtain ⟨a, here⟩ := f.lawful.held first
    obtain ⟨b, others⟩ := fs.lawful.held rest
    exact ⟨(a, b), by simp only [consShape, here, others]⟩
  sound valid := by
    obtain ⟨v, vs, rfl, first, rest⟩ := consShape_valid.mp valid
    exact List.forall_mem_cons.mpr ⟨f.lawful.sound first, fs.lawful.sound rest⟩
  arranged valid := by
    obtain ⟨v, vs, rfl, first, rest⟩ := consShape_valid.mp valid
    simp only [consShape, List.map_cons, f.lawful.arranged first, fs.lawful.arranged rest]
  steady {vs ws} valid same := by
    obtain ⟨v, vs, rfl, first, rest⟩ := consShape_valid.mp valid
    cases ws with
    | nil => cases same
    | cons w ws =>
        rw [List.map_cons, List.map_cons, List.cons.injEq] at same
        obtain ⟨here, settled⟩ := f.lawful.steady first same.1
        obtain ⟨others, settledOthers⟩ := fs.lawful.steady rest same.2
        exact ⟨consShape_valid.mpr ⟨w, ws, rfl, here, others⟩,
          by simp only [consShape, settled, settledOthers]⟩

def Fields.cons (key : String) (f : Form α) (fs : Fields β) : Fields (α × β) :=
  ⟨consShape key f fs, cons_lawful key f fs⟩

/-- A record with these members and no other. -/
def recordShape (fs : Fields α) : Shape α where
  valid
    | .object ms => decide (ms.map Prod.fst).Nodup && (collect fs.keys ms).any fs.valid
    | _ => false
  settle
    | .array vs =>
        if vs.length = fs.keys.length then .object (fs.keys.zip (fs.settle vs)) else .array vs
    | .object ms =>
        (collect fs.keys ms).elim (.object ms) fun vs => .object (fs.keys.zip (fs.settle vs))
    | v => v
  read
    | .array vs => fs.read vs
    | .object ms => (collect fs.keys ms).bind fs.read
    | _ => none
  write a := .object (fs.keys.zip (fs.write a))

section Records
variable {fs : Fields α} {v w : Value} {ms ns : List (String × Value)} {vs ws : List Value}

theorem recordShape_valid : (recordShape fs).valid v = true ↔
    ∃ ms vs, v = .object ms ∧ (ms.map Prod.fst).Nodup ∧ collect fs.keys ms = some vs ∧
      fs.valid vs = true := by
  cases v with
  | object ms => simp [recordShape, Option.any_eq_true]
  | _ => simp [recordShape]

theorem arrange_zip (keys : List String) (vs : List Value) :
    (keys.zip vs).map arrangeMember = keys.zip (vs.map arrange) := by
  induction keys generalizing vs with
  | nil => rfl
  | cons k keys ih =>
      cases vs with
      | nil => rfl
      | cons v vs =>
          rw [List.zip_cons_cons, List.map_cons, List.map_cons, List.zip_cons_cons, ih]
          rfl

theorem zip_inj {keys : List String} (long : vs.length = keys.length)
    (same : ws.length = keys.length) : keys.zip vs = keys.zip ws ↔ vs = ws := by
  constructor
  · intro zipped
    have seconds := congrArg (List.map Prod.snd) zipped
    rwa [List.map_snd_zip (le_of_eq long), List.map_snd_zip (le_of_eq same)] at seconds
  · rintro rfl
    rfl

theorem sound_object (once : (ms.map Prod.fst).Nodup)
    (inner : ∀ m ∈ ms, Distinct m.2 ∧ Integers m.2) :
    Distinct (.object ms) ∧ Integers (.object ms) := by
  constructor
  · refine Json.everywhere_object.mpr ⟨fun members same => ?_, fun m there => (inner m there).1⟩
    cases same
    exact once
  · exact Json.everywhere_object.mpr ⟨fun _ h => (by cases h), fun m there => (inner m there).2⟩

/-- Objects that are arranged alike have the same keys with the same values. -/
theorem perm_of_arrange (once : (ms.map Prod.fst).Nodup)
    (same : arrange (.object ms) = arrange w) :
    ∃ ns, w = .object ns ∧ (ns.map arrangeMember).Perm (ms.map arrangeMember) := by
  rw [arrange_object] at same
  cases w with
  | object ns =>
      rw [arrange_object, Json.object.injEq] at same
      exact ⟨ns, rfl, ((sortKeys_eq_iff (by rwa [keys_arranged])).mp same).symm⟩
  | array _ =>
      rw [arrange_array] at same
      cases same
  | _ => cases same

theorem arrange_perm (once : (ms.map Prod.fst).Nodup)
    (perm : (ns.map arrangeMember).Perm (ms.map arrangeMember)) :
    arrange (.object ns) = arrange (.object ms) := by
  rw [arrange_object, arrange_object, Json.object.injEq, eq_comm]
  exact (sortKeys_eq_iff (by rwa [keys_arranged])).mpr perm.symm

theorem keys_of_arranged (perm : (ns.map arrangeMember).Perm (ms.map arrangeMember)) :
    (ns.map Prod.fst).Perm (ms.map Prod.fst) := by
  have firsts := perm.map Prod.fst
  rwa [keys_arranged, keys_arranged] at firsts

variable (fs) in
theorem record_lawful (fixed : fs.keys.Nodup) : (recordShape fs).Lawful where
  settle_write a := by
    simp only [recordShape, collect_zip fixed (fs.lawful.length_write a), Option.elim_some,
      fs.lawful.settle_write]
  valid_write a := by
    have long := fs.lawful.length_write a
    refine recordShape_valid.mpr ⟨_, _, rfl, ?_, collect_zip fixed long, fs.lawful.valid_write a⟩
    rw [keys_zip long]
    exact fixed
  read_iff {v a} distinct := by
    have long := fs.lawful.length_write a
    cases v with
    | array vs =>
        have inner := (Json.everywhere_array.mp distinct).2
        simp only [recordShape]
        split
        · next fits =>
            rw [Json.object.injEq, zip_inj ((fs.lawful.length_settle vs).trans fits) long]
            exact fs.lawful.read_iff inner
        · next other =>
            refine iff_of_false (fun read => other ?_) (fun h => by cases h)
            rw [← fs.lawful.length_settle vs, (fs.lawful.read_iff inner).mp read, long]
    | object ms =>
        have once := (Json.everywhere_object.mp distinct).1 ms rfl
        cases found : collect fs.keys ms with
        | none =>
            simp only [recordShape, found, Option.bind_none, Option.elim_none, reduceCtorEq,
              Json.object.injEq, false_iff]
            rintro rfl
            rw [collect_zip fixed long] at found
            cases found
        | some vs =>
            obtain ⟨fits, perm⟩ := (collect_iff fixed once).mp found
            have inner : ∀ v ∈ vs, Distinct v := by
              intro v there
              rw [← List.map_snd_zip (le_of_eq fits)] at there
              obtain ⟨m, here, rfl⟩ := List.mem_map.mp there
              exact (Json.everywhere_object.mp distinct).2 m (perm.mem_iff.mp here)
            simp only [recordShape, found, Option.bind_some, Option.elim_some, Json.object.injEq]
            rw [zip_inj ((fs.lawful.length_settle vs).trans fits) long]
            exact fs.lawful.read_iff inner
    | _ => simp [recordShape]
  held valid := by
    obtain ⟨ms, vs, rfl, _, found, inner⟩ := recordShape_valid.mp valid
    obtain ⟨a, settled⟩ := fs.lawful.held inner
    exact ⟨a, by simp only [recordShape, found, Option.elim_some, settled]⟩
  sound valid := by
    obtain ⟨ms, vs, rfl, once, found, inner⟩ := recordShape_valid.mp valid
    obtain ⟨_, perm⟩ := (collect_iff fixed once).mp found
    refine sound_object once fun m there => fs.lawful.sound inner m.2 ?_
    exact (List.of_mem_zip (perm.mem_iff.mpr there)).2
  arranged valid := by
    obtain ⟨ms, vs, rfl, once, found, inner⟩ := recordShape_valid.mp valid
    obtain ⟨_, perm⟩ := (collect_iff fixed once).mp found
    simp only [recordShape, found, Option.elim_some]
    refine arrange_perm once ?_
    rw [arrange_zip, fs.lawful.arranged inner, ← arrange_zip]
    exact perm.map _
  steady {v w} valid same := by
    obtain ⟨ms, vs, rfl, once, found, inner⟩ := recordShape_valid.mp valid
    obtain ⟨fits, perm⟩ := (collect_iff fixed once).mp found
    obtain ⟨ns, rfl, arranged⟩ := perm_of_arrange once same
    have keys : (ms.map Prod.fst).Perm fs.keys := by
      have firsts := (perm.map Prod.fst).symm
      rwa [keys_zip fits] at firsts
    have nodup : (ns.map Prod.fst).Nodup := (keys_of_arranged arranged).nodup_iff.mpr once
    obtain ⟨ws, there⟩ := collect_some fixed ((keys_of_arranged arranged).trans keys)
    obtain ⟨long, other⟩ := (collect_iff fixed nodup).mp there
    have alike : vs.map arrange = ws.map arrange := by
      refine zip_perm fixed (by rw [List.length_map, fits]) (by rw [List.length_map, long]) ?_
      rw [← arrange_zip, ← arrange_zip]
      exact (perm.map _).trans (arranged.symm.trans (other.map _).symm)
    obtain ⟨valid', settled⟩ := fs.lawful.steady inner alike
    refine ⟨recordShape_valid.mpr ⟨ns, ws, rfl, nodup, there, valid'⟩, ?_⟩
    simp only [recordShape, there, found, Option.elim_some, settled]

end Records

def record (fs : Fields α) (fixed : fs.keys.Nodup) : Form α :=
  ⟨recordShape fs, record_lawful fs fixed⟩

/-- An object that is read as a record has its members, and no other. -/
theorem record_closed (fs : Fields α) (fixed : fs.keys.Nodup) {ms : List (String × Value)} {a : α}
    (once : (ms.map Prod.fst).Nodup) (read : (record fs fixed).read (.object ms) = some a) :
    (ms.map Prod.fst).Perm fs.keys := by
  obtain ⟨vs, found, _⟩ := Option.bind_eq_some_iff.mp read
  obtain ⟨long, perm⟩ := (collect_iff fixed once).mp found
  have firsts := (perm.map Prod.fst).symm
  rwa [keys_zip long] at firsts

theorem record_real (fs : Fields α) (fixed : fs.keys.Nodup) : Real (record fs fixed) where
  invalid := rfl
  apart v null := by
    cases v with
    | array vs =>
        simp only [record, recordShape] at null
        split at null <;> cases null
    | object ms =>
        simp only [record, recordShape] at null
        cases found : collect fs.keys ms with
        | none =>
            rw [found] at null
            cases null
        | some vs =>
            rw [found] at null
            cases null
    | _ => exact null

/-- How the members of a record are laid out, and the whole they are the parts of. -/
structure Layout (α : Type) where
  Parts : Type
  fields : Fields Parts
  fixed : fields.keys.Nodup
  whole : Parts ≃ α

def Layout.of {Parts : Type} (fields : Fields Parts) (build : Parts → α) (parts : α → Parts)
    (fixed : fields.keys.Nodup := by decide) (apart : ∀ p, parts (build p) = p := by intro; rfl)
    (whole : ∀ a, build (parts a) = a := by intro; rfl) : Layout α :=
  ⟨Parts, fields, fixed, build, parts, apart, whole⟩

def Layout.form (l : Layout α) : Form α := via (record l.fields l.fixed) l.whole

theorem Layout.closed (l : Layout α) {ms : List (String × Value)} {a : α}
    (once : (ms.map Prod.fst).Nodup) (read : l.form.read (.object ms) = some a) :
    (ms.map Prod.fst).Perm l.fields.keys := by
  obtain ⟨b, read, _⟩ := Option.map_eq_some_iff.mp read
  exact record_closed l.fields l.fixed once read

theorem Layout.real (l : Layout α) : Real l.form := (record_real l.fields l.fixed).via l.whole

end Members
section Maps
variable {α β : Type}

/-- Put into a map one after another, entries with keys of their own are all there in the end. -/
theorem insertEntry_perm {k : String} {x : α} {es : List (String × α)}
    (new : k ∉ es.map Prod.fst) : (insertEntry k x es).Perm ((k, x) :: es) := by
  induction es with
  | nil => exact .refl _
  | cons e es ih =>
      obtain ⟨j, y⟩ := e
      rw [List.map_cons, List.mem_cons, not_or] at new
      rw [insertEntry, if_neg (show ¬k = j from new.1)]
      split
      · exact .refl _
      · exact ((ih new.2).cons _).trans (.swap _ _ _)

theorem extend_perm {m : SortedMap String α} {es : List (String × α)}
    (once : (es.map Prod.fst).Nodup) (apart : ∀ e ∈ es, e.1 ∉ m.entries.map Prod.fst) :
    (m.extend es).entries.Perm (m.entries ++ es) := by
  induction es generalizing m with
  | nil => rw [List.append_nil]; exact .refl _
  | cons e es ih =>
      rw [List.map_cons, List.nodup_cons] at once
      rw [List.forall_mem_cons] at apart
      have first : (m.insert e.1 e.2).entries.Perm (e :: m.entries) := insertEntry_perm apart.1
      have later : ∀ d ∈ es, d.1 ∉ (m.insert e.1 e.2).entries.map Prod.fst := by
        intro d there
        rw [(first.map Prod.fst).mem_iff, List.map_cons, List.mem_cons, not_or]
        refine ⟨fun same => once.1 ?_, apart.2 d there⟩
        rw [← same]
        exact List.mem_map_of_mem there
      refine (ih once.2 later).trans ((first.append_right es).trans ?_)
      exact List.perm_middle.symm

theorem ofList_perm {es : List (String × α)} (once : (es.map Prod.fst).Nodup) :
    (SortedMap.ofList es).entries.Perm es :=
  extend_perm once fun _ _ => List.not_mem_nil

theorem entries_keys (m : SortedMap String α) : (m.entries.map Prod.fst).Nodup := by
  rw [List.nodup_iff_pairwise_ne, List.pairwise_map]
  exact m.ascending.imp fun below => ne_of_lt below

theorem ofList_entries (m : SortedMap String α) : SortedMap.ofList m.entries = m := by
  refine SortedMap.ext (SortedMap.entries_ext (SortedMap.ofList m.entries).ascending m.ascending
    fun e => ?_)
  exact (ofList_perm (entries_keys m)).mem_iff

theorem ofList_map (f : α → β) (es : List (String × α)) :
    SortedMap.ofList (es.map fun e => (e.1, f e.2)) = (SortedMap.ofList es).map f :=
  (SortedMap.map_extend (m := .empty) f es).symm

def valuesOf (g : α → β) (es : List (String × α)) : List (String × β) :=
  es.map fun e => (e.1, g e.2)

theorem keys_valuesOf (g : α → β) (es : List (String × α)) :
    (valuesOf g es).map Prod.fst = es.map Prod.fst := by
  rw [valuesOf, List.map_map]
  rfl

/-- An object with any keys, the values of one form. -/
def entriesShape (f : Form α) : Shape (SortedMap String α) where
  valid | .object ms => decide (ms.map Prod.fst).Nodup && ms.all (f.valid ·.2) | _ => false
  settle | .object ms => .object (SortedMap.ofList (valuesOf f.settle ms)).entries | v => v
  read
    | .object ms => (ms.mapM fun m => (f.read m.2).map (m.1, ·)).map SortedMap.ofList
    | _ => none
  write m := .object (valuesOf f.write m.entries)

variable (f : Form α)

theorem mapM_entries_iff {ms : List (String × Value)} {es : List (String × α)}
    (distinct : ∀ m ∈ ms, Distinct m.2) :
    (ms.mapM fun m => (f.read m.2).map (m.1, ·)) = some es ↔
      valuesOf f.settle ms = valuesOf f.write es := by
  induction ms generalizing es with
  | nil => cases es <;> simp [valuesOf]
  | cons m ms ih =>
      rw [List.forall_mem_cons] at distinct
      rw [List.mapM_cons]
      cases es with
      | nil => simp [valuesOf, Option.bind_eq_bind, Option.bind_eq_some_iff]
      | cons e es =>
          have rest := @ih es distinct.2
          have here := f.lawful.read_iff (a := e.2) distinct.1
          simp only [valuesOf, List.map_cons, List.cons.injEq, Prod.mk.injEq] at rest ⊢
          rw [← rest, ← here]
          simp only [Option.bind_eq_bind, Option.bind_eq_some_iff, Option.map_eq_some_iff,
            Option.pure_def, Option.some.injEq, List.cons.injEq]
          constructor
          · rintro ⟨_, ⟨a, read, rfl⟩, _, others, rfl, rfl⟩
            exact ⟨⟨rfl, read⟩, others⟩
          · rintro ⟨⟨key, read⟩, others⟩
            exact ⟨_, ⟨e.2, read, rfl⟩, es, others, Prod.ext key rfl, rfl⟩

theorem entriesShape_valid {v : Value} : (entriesShape f).valid v = true ↔
    ∃ ms, v = .object ms ∧ (ms.map Prod.fst).Nodup ∧ ∀ m ∈ ms, f.valid m.2 = true := by
  cases v with
  | object ms => simp [entriesShape]
  | _ => simp [entriesShape]

theorem write_ofList (es : List (String × α)) :
    (SortedMap.ofList (valuesOf f.write es)).entries =
      valuesOf f.write (SortedMap.ofList es).entries :=
  congrArg SortedMap.entries (ofList_map f.write es)

theorem valuesOf_injective : Function.Injective (valuesOf f.write) := by
  refine List.map_injective_iff.mpr fun d e same => ?_
  have parts := Prod.mk.inj same
  exact Prod.ext parts.1 (f.write_injective parts.2)

theorem values_written {ms : List (String × Value)}
    (each : ∀ e ∈ valuesOf f.settle ms, ∃ a, e.2 = f.write a) :
    ∃ es : List (String × α), valuesOf f.settle ms = valuesOf f.write es := by
  induction ms with
  | nil => exact ⟨[], rfl⟩
  | cons m ms ih =>
      rw [valuesOf, List.map_cons, List.forall_mem_cons] at each
      obtain ⟨a, settled⟩ := each.1
      obtain ⟨es, rest⟩ := ih each.2
      refine ⟨(m.1, a) :: es, ?_⟩
      simp only [valuesOf, List.map_cons, List.cons.injEq, Prod.mk.injEq] at rest settled ⊢
      exact ⟨⟨trivial, settled⟩, rest⟩

theorem entries_held {ms : List (String × Value)} (valid : ∀ m ∈ ms, f.valid m.2 = true) :
    ∃ es : List (String × α), valuesOf f.settle ms = valuesOf f.write es := by
  refine values_written f fun e there => ?_
  obtain ⟨m, here, rfl⟩ := List.mem_map.mp there
  exact f.lawful.held (valid m here)

/-- The same entries in another order are the same map. -/
theorem ofList_of_perm {es ds : List (String × α)} (once : (es.map Prod.fst).Nodup)
    (perm : ds.Perm es) : SortedMap.ofList ds = SortedMap.ofList es := by
  have other : (ds.map Prod.fst).Nodup := (perm.map Prod.fst).nodup_iff.mpr once
  refine SortedMap.ext (SortedMap.entries_ext (SortedMap.ofList ds).ascending
    (SortedMap.ofList es).ascending fun e => ?_)
  rw [(ofList_perm other).mem_iff, (ofList_perm once).mem_iff, perm.mem_iff]

theorem entries_lawful : (entriesShape f).Lawful where
  settle_write m := by
    have once : SortedMap.ofList (valuesOf f.settle (valuesOf f.write m.entries)) =
        SortedMap.ofList (valuesOf f.write m.entries) := by
      rw [valuesOf, valuesOf, List.map_map]
      congr 1
      exact List.map_congr_left fun e _ => Prod.ext rfl (f.lawful.settle_write e.2)
    simp only [entriesShape, once, write_ofList, ofList_entries]
  valid_write m := by
    refine (entriesShape_valid f).mpr ⟨_, rfl, ?_, fun e there => ?_⟩
    · rw [keys_valuesOf]
      exact entries_keys m
    · obtain ⟨d, _, rfl⟩ := List.mem_map.mp there
      exact f.lawful.valid_write d.2
  read_iff {v m} distinct := by
    cases v with
    | object ms =>
        obtain ⟨once, inner⟩ := Json.everywhere_object.mp distinct
        have keys : ((valuesOf f.settle ms).map Prod.fst).Nodup := by
          rw [keys_valuesOf]
          exact once ms rfl
        simp only [entriesShape, Option.map_eq_some_iff, Json.object.injEq]
        constructor
        · rintro ⟨es, read, rfl⟩
          rw [(mapM_entries_iff f inner).mp read, write_ofList]
        · intro settled
          -- Each value that is kept is one that is written, so each is read.
          have each : ∀ e ∈ valuesOf f.settle ms, ∃ a, e.2 = f.write a := by
            intro e there
            rw [← (ofList_perm keys).mem_iff, settled] at there
            obtain ⟨d, _, rfl⟩ := List.mem_map.mp there
            exact ⟨d.2, rfl⟩
          obtain ⟨es, same⟩ := values_written f each
          refine ⟨es, (mapM_entries_iff f inner).mpr same, ?_⟩
          rw [same, write_ofList] at settled
          exact SortedMap.ext (valuesOf_injective f settled)
    | _ => simp [entriesShape]
  held valid := by
    obtain ⟨ms, rfl, _, inner⟩ := (entriesShape_valid f).mp valid
    obtain ⟨es, settled⟩ := entries_held f inner
    exact ⟨SortedMap.ofList es, by simp only [entriesShape, settled, write_ofList]⟩
  sound valid := by
    obtain ⟨ms, rfl, once, inner⟩ := (entriesShape_valid f).mp valid
    exact sound_object once fun m there => f.lawful.sound (inner m there)
  arranged valid := by
    obtain ⟨ms, rfl, once, inner⟩ := (entriesShape_valid f).mp valid
    refine arrange_perm once ?_
    have alike : (valuesOf f.settle ms).map arrangeMember = ms.map arrangeMember := by
      rw [valuesOf, List.map_map]
      exact List.map_congr_left fun m there => Prod.ext rfl (f.lawful.arranged (inner m there))
    rw [← alike]
    exact (ofList_perm (by rwa [keys_valuesOf])).map _
  steady {v w} valid same := by
    obtain ⟨ms, rfl, once, inner⟩ := (entriesShape_valid f).mp valid
    obtain ⟨ns, rfl, arranged⟩ := perm_of_arrange once same
    have nodup : (ns.map Prod.fst).Nodup := (keys_of_arranged arranged).nodup_iff.mpr once
    have alike : ∀ n ∈ ns, ∃ m ∈ ms,
        m.1 = n.1 ∧ f.valid n.2 = true ∧ f.settle n.2 = f.settle m.2 := by
      intro n there
      obtain ⟨m, here, same⟩ := List.mem_map.mp (arranged.mem_iff.mp (List.mem_map_of_mem there))
      have parts := Prod.mk.inj same
      obtain ⟨valid', settled⟩ := f.lawful.steady (inner m here) parts.2
      exact ⟨m, here, parts.1, valid', settled⟩
    have there : ∀ e ∈ valuesOf f.settle ns, e ∈ valuesOf f.settle ms := by
      intro e inside
      obtain ⟨n, here, rfl⟩ := List.mem_map.mp inside
      obtain ⟨m, found, key, _, settled⟩ := alike n here
      exact List.mem_map.mpr ⟨m, found, Prod.ext key settled.symm⟩
    have keys : ((valuesOf f.settle ns).map Prod.fst).Nodup := by rwa [keys_valuesOf]
    have others : ((valuesOf f.settle ms).map Prod.fst).Nodup := by rwa [keys_valuesOf]
    have perm : (valuesOf f.settle ns).Perm (valuesOf f.settle ms) := by
      refine ((List.subperm_of_subset (List.Nodup.of_map _ keys) there).perm_of_length_le ?_)
      have long := arranged.length_eq
      simp only [List.length_map] at long
      simp only [valuesOf, List.length_map, long, le_refl]
    refine ⟨(entriesShape_valid f).mpr ⟨ns, rfl, nodup, fun n there => ?_⟩, ?_⟩
    · obtain ⟨_, _, _, valid', _⟩ := alike n there
      exact valid'
    · simp only [entriesShape, ofList_of_perm others perm]

def entries : Form (SortedMap String α) := ⟨entriesShape f, entries_lawful f⟩

end Maps
end Platform
end Metralectl
