import Metralectl.Platform.Canonical

/-!
The forms platform documents are made of: what is valid for one, how it is written, and what a
reader takes for it. A reader takes more than what writers write: a record as an array of its
members, a word as an object with nothing in it, an identifier in upper case. What such a value
would have been written as is part of its form.
-/
namespace Metralectl
namespace Platform
open JsonText Canonical

abbrev Value := Json F64

structure Shape (α : Type) where
  /-- Whether a value is one that a writer writes, its members in any order. -/
  valid : Value → Bool
  /-- A value as it would have been written. -/
  settle : Value → Value
  read : Value → Option α
  write : α → Value

/-- Nothing is lost between a value and what is held of it. -/
structure Shape.Lawful {α : Type} (f : Shape α) : Prop where
  settle_write : ∀ a, f.settle (f.write a) = f.write a
  valid_write : ∀ a, f.valid (f.write a) = true
  read_iff : ∀ {v a}, Distinct v → (f.read v = some a ↔ f.settle v = f.write a)
  held : ∀ {v}, f.valid v = true → ∃ a, f.settle v = f.write a
  sound : ∀ {v}, f.valid v = true → Distinct v ∧ Integers v
  arranged : ∀ {v}, f.valid v = true → arrange (f.settle v) = arrange v
  steady : ∀ {v w}, f.valid v = true → arrange v = arrange w →
    f.valid w = true ∧ f.settle w = f.settle v

structure Form (α : Type) extends Shape α where
  lawful : toShape.Lawful

namespace Form
variable {α β : Type} (f : Form α)

theorem distinct_write (a : α) : Distinct (f.write a) := (f.lawful.sound (f.lawful.valid_write a)).1

theorem integers_write (a : α) : Integers (f.write a) := (f.lawful.sound (f.lawful.valid_write a)).2

theorem read_write (a : α) : f.read (f.write a) = some a :=
  (f.lawful.read_iff (f.distinct_write a)).mpr (f.lawful.settle_write a)

theorem write_injective : Function.Injective f.write := by
  intro a b same
  have first := f.read_write a
  rw [same, f.read_write b] at first
  exact (Option.some.inj first).symm

theorem read_valid {v : Value} (valid : f.valid v = true) :
    ∃ a, f.read v = some a ∧ f.settle v = f.write a := by
  obtain ⟨a, settled⟩ := f.lawful.held valid
  exact ⟨a, (f.lawful.read_iff (f.lawful.sound valid).1).mpr settled, settled⟩

end Form

section Leaves
variable {α : Type}

/-- A value with nothing nested in it. -/
inductive Flat : Value → Prop
  | null : Flat .null
  | bool (b : Bool) : Flat (.bool b)
  | int {i : Int} : Admitted i → Flat (.number (.int i))
  | string (s : String) : Flat (.string s)

theorem Flat.arranged {v : Value} (flat : Flat v) : arrange v = v := by
  cases flat <;> rfl

theorem Flat.only {v w : Value} (flat : Flat v) (same : arrange v = arrange w) : w = v := by
  rw [flat.arranged] at same
  cases w with
  | array _ =>
      rw [arrange_array] at same
      subst same
      cases flat
  | object _ =>
      rw [arrange_object] at same
      subst same
      cases flat
  | null | bool _ | number _ | string _ => exact same.symm

theorem Flat.sound {v : Value} (flat : Flat v) : Distinct v ∧ Integers v := by
  have alone : v.parts = [v] := by cases flat <;> rfl
  constructor
  · intro w there members object
    rw [alone, List.mem_singleton] at there
    subst there
    subst object
    cases flat
  · intro w there n number
    rw [alone, List.mem_singleton] at there
    subst there
    subst number
    cases flat with
    | int fits => exact ⟨_, rfl, fits⟩

/-- A form whose values are flat is lawful once it is read as it is written. -/
theorem Shape.Lawful.of_flat {f : Shape α} (settle_write : ∀ a, f.settle (f.write a) = f.write a)
    (valid_iff : ∀ v, f.valid v = true ↔ ∃ a, v = f.write a)
    (read_iff : ∀ v a, f.read v = some a ↔ f.settle v = f.write a)
    (flat : ∀ a, Flat (f.write a)) : f.Lawful where
  settle_write := settle_write
  valid_write a := (valid_iff _).mpr ⟨a, rfl⟩
  read_iff _ := read_iff _ _
  held valid := by
    obtain ⟨a, rfl⟩ := (valid_iff _).mp valid
    exact ⟨a, settle_write a⟩
  sound valid := by
    obtain ⟨a, rfl⟩ := (valid_iff _).mp valid
    exact (flat a).sound
  arranged valid := by
    obtain ⟨a, rfl⟩ := (valid_iff _).mp valid
    rw [settle_write]
  steady valid same := by
    obtain ⟨a, rfl⟩ := (valid_iff _).mp valid
    obtain rfl := (flat a).only same
    exact ⟨valid, rfl⟩

def stringShape : Shape String where
  valid | .string _ => true | _ => false
  settle v := v
  read | .string s => some s | _ => none
  write := .string

theorem string_lawful : stringShape.Lawful := by
  refine .of_flat (fun _ => rfl) (fun v => ?_) (fun v s => ?_) .string
  · cases v <;> simp [stringShape]
  · cases v <;> simp [stringShape]

def string : Form String := ⟨stringShape, string_lawful⟩

def flagShape : Shape Bool where
  valid | .bool _ => true | _ => false
  settle v := v
  read | .bool b => some b | _ => none
  write := .bool

theorem flag_lawful : flagShape.Lawful := by
  refine .of_flat (fun _ => rfl) (fun v => ?_) (fun v b => ?_) .bool
  · cases v <;> simp [flagShape]
  · cases v <;> simp [flagShape]

def flag : Form Bool := ⟨flagShape, flag_lawful⟩

def u64Shape : Shape UInt64 where
  valid | .number (.int i) => 0 ≤ i && i < 2 ^ 64 | _ => false
  settle v := v
  read
    | .number (.int i) => if 0 ≤ i ∧ i < 2 ^ 64 then some (.ofNat i.toNat) else none
    | _ => none
  write n := .number (.int n.toNat)

theorem ofNat_toNat_iff {i : Int} {n : UInt64} :
    (if 0 ≤ i ∧ i < 2 ^ 64 then some (UInt64.ofNat i.toNat) else none) = some n ↔
      i = (n.toNat : Int) := by
  have bound : n.toNat < 2 ^ 64 := n.toNat_lt
  split
  · next fits =>
      rw [Option.some.injEq, ← UInt64.toNat_inj, UInt64.toNat_ofNat', Nat.mod_eq_of_lt (by omega)]
      omega
  · next outside =>
      simp only [reduceCtorEq, false_iff]
      omega

theorem u64_lawful : u64Shape.Lawful := by
  refine .of_flat (fun _ => rfl) (fun v => ?_) (fun v n => ?_) fun n => .int ?_
  · cases v with
    | number m =>
        cases m with
        | int i =>
            simp only [u64Shape, Bool.and_eq_true, decide_eq_true_eq, Json.number.injEq,
              Number.int.injEq]
            constructor
            · intro fits
              exact ⟨_, ofNat_toNat_iff.mp (if_pos fits)⟩
            · rintro ⟨n, rfl⟩
              have bound : n.toNat < 2 ^ 64 := n.toNat_lt
              omega
        | fraction _ => simp [u64Shape]
    | _ => simp [u64Shape]
  · cases v with
    | number m =>
        cases m with
        | int i =>
            simp only [u64Shape, Json.number.injEq, Number.int.injEq]
            exact ofNat_toNat_iff
        | fraction _ => simp [u64Shape]
    | _ => simp [u64Shape]
  · have bound : n.toNat < 2 ^ 64 := n.toNat_lt
    exact ⟨by omega, by omega⟩

def u64 : Form UInt64 := ⟨u64Shape, u64_lawful⟩

end Leaves
section Wrapping
variable {α β : Type} (f : Form α)

/-- Values of another type that say the same. -/
def viaShape (e : α ≃ β) : Shape β where
  valid := f.valid
  settle := f.settle
  read v := (f.read v).map e
  write b := f.write (e.symm b)

theorem via_lawful (e : α ≃ β) : (viaShape f e).Lawful where
  settle_write b := f.lawful.settle_write _
  valid_write b := f.lawful.valid_write _
  read_iff {v b} distinct := by
    have same := f.lawful.read_iff (a := e.symm b) distinct
    simp only [viaShape, ← same, Option.map_eq_some_iff]
    constructor
    · rintro ⟨a, read, rfl⟩
      rw [e.symm_apply_apply, read]
    · intro read
      exact ⟨_, read, e.apply_symm_apply b⟩
  held valid := by
    obtain ⟨a, settled⟩ := f.lawful.held valid
    refine ⟨e a, ?_⟩
    simp only [viaShape, e.symm_apply_apply]
    exact settled
  sound := f.lawful.sound
  arranged := f.lawful.arranged
  steady := f.lawful.steady

def via (e : α ≃ β) : Form β := ⟨viaShape f e, via_lawful f e⟩

/-- The values that pass a check. -/
def suchShape (p : α → Bool) : Shape {a : α // p a = true} where
  valid v := f.valid v && (f.read v).any p
  settle := f.settle
  read v := (f.read v).bind fun a => if ok : p a = true then some ⟨a, ok⟩ else none
  write a := f.write a.1

theorem suchShape_valid {p : α → Bool} {v : Value} :
    (suchShape f p).valid v = true ↔ f.valid v = true ∧ ∃ a, f.read v = some a ∧ p a = true := by
  simp only [suchShape, Bool.and_eq_true, Option.any_eq_true]

theorem such_lawful (p : α → Bool) : (suchShape f p).Lawful where
  settle_write a := f.lawful.settle_write _
  valid_write a := (suchShape_valid f).mpr ⟨f.lawful.valid_write _, a.1, f.read_write _, a.2⟩
  read_iff {v a} distinct := by
    have same := f.lawful.read_iff (a := a.1) distinct
    simp only [suchShape, ← same, Option.bind_eq_some_iff]
    constructor
    · rintro ⟨b, read, checked⟩
      split at checked
      · cases checked
        exact read
      · cases checked
    · intro read
      exact ⟨a.1, read, dif_pos a.2⟩
  held {v} valid := by
    obtain ⟨valid, a, read, ok⟩ := (suchShape_valid f).mp valid
    exact ⟨⟨a, ok⟩, (f.lawful.read_iff (f.lawful.sound valid).1).mp read⟩
  sound valid := f.lawful.sound ((suchShape_valid f).mp valid).1
  arranged valid := f.lawful.arranged ((suchShape_valid f).mp valid).1
  steady {v w} valid same := by
    obtain ⟨valid, a, read, ok⟩ := (suchShape_valid f).mp valid
    obtain ⟨there, settled⟩ := f.lawful.steady valid same
    have held := (f.lawful.read_iff (f.lawful.sound valid).1).mp read
    rw [← settled] at held
    have again := (f.lawful.read_iff (f.lawful.sound there).1).mpr held
    exact ⟨(suchShape_valid f).mpr ⟨there, a, again, ok⟩, settled⟩

def such (p : α → Bool) : Form {a : α // p a = true} := ⟨suchShape f p, such_lawful f p⟩

def listShape : Shape (List α) where
  valid | .array xs => xs.all f.valid | _ => false
  settle | .array xs => .array (xs.map f.settle) | v => v
  read | .array xs => xs.mapM f.read | _ => none
  write as := .array (as.map f.write)

theorem mapM_read_iff {xs : List Value} {as : List α} (distinct : ∀ x ∈ xs, Distinct x) :
    xs.mapM f.read = some as ↔ xs.map f.settle = as.map f.write := by
  induction xs generalizing as with
  | nil => cases as <;> simp
  | cons x xs ih =>
      rw [List.forall_mem_cons] at distinct
      rw [List.mapM_cons, List.map_cons]
      cases as with
      | nil => simp [Option.bind_eq_bind, Option.bind_eq_some_iff]
      | cons a as =>
          rw [List.map_cons, List.cons.injEq, ← ih distinct.2, ← f.lawful.read_iff distinct.1]
          simp [Option.bind_eq_bind, Option.bind_eq_some_iff]

theorem map_held {xs : List Value} (valid : ∀ x ∈ xs, f.valid x = true) :
    ∃ as : List α, xs.map f.settle = as.map f.write := by
  induction xs with
  | nil => exact ⟨[], rfl⟩
  | cons x xs ih =>
      rw [List.forall_mem_cons] at valid
      obtain ⟨a, settled⟩ := f.lawful.held valid.1
      obtain ⟨as, rest⟩ := ih valid.2
      exact ⟨a :: as, by rw [List.map_cons, List.map_cons, settled, rest]⟩

/-- Items that are the same item by item are valid and written alike. -/
theorem map_steady {xs ys : List Value} (valid : ∀ x ∈ xs, f.valid x = true)
    (same : xs.map arrange = ys.map arrange) :
    (∀ y ∈ ys, f.valid y = true) ∧ ys.map f.settle = xs.map f.settle := by
  induction xs generalizing ys with
  | nil =>
      rw [List.map_nil, eq_comm, List.map_eq_nil_iff] at same
      subst same
      exact ⟨valid, rfl⟩
  | cons x xs ih =>
      cases ys with
      | nil => cases same
      | cons y ys =>
          rw [List.map_cons, List.map_cons, List.cons.injEq] at same
          rw [List.forall_mem_cons] at valid
          obtain ⟨here, settled⟩ := f.lawful.steady valid.1 same.1
          obtain ⟨rest, others⟩ := ih valid.2 same.2
          rw [List.forall_mem_cons, List.map_cons, List.map_cons, settled, others]
          exact ⟨⟨here, rest⟩, rfl⟩

theorem listShape_valid {v : Value} :
    (listShape f).valid v = true ↔ ∃ xs, v = .array xs ∧ ∀ x ∈ xs, f.valid x = true := by
  cases v <;> simp [listShape]

theorem list_lawful : (listShape f).Lawful where
  settle_write as := by
    simp only [listShape, List.map_map]
    congr 1
    exact List.map_congr_left fun a _ => f.lawful.settle_write a
  valid_write as := by
    refine (listShape_valid f).mpr ⟨_, rfl, fun x there => ?_⟩
    obtain ⟨a, _, rfl⟩ := List.mem_map.mp there
    exact f.lawful.valid_write a
  read_iff {v as} distinct := by
    cases v with
    | array xs =>
        simp only [listShape, Json.array.injEq]
        exact mapM_read_iff f (Json.everywhere_array.mp distinct).2
    | _ => simp [listShape]
  held valid := by
    obtain ⟨xs, rfl, each⟩ := (listShape_valid f).mp valid
    obtain ⟨as, settled⟩ := map_held f each
    exact ⟨as, congrArg Json.array settled⟩
  sound valid := by
    obtain ⟨xs, rfl, each⟩ := (listShape_valid f).mp valid
    refine ⟨Json.everywhere_array.mpr ⟨fun _ h => (by cases h), fun x there => ?_⟩,
      Json.everywhere_array.mpr ⟨fun _ h => (by cases h), fun x there => ?_⟩⟩
    · exact (f.lawful.sound (each x there)).1
    · exact (f.lawful.sound (each x there)).2
  arranged valid := by
    obtain ⟨xs, rfl, each⟩ := (listShape_valid f).mp valid
    simp only [listShape, arrange_array, List.map_map]
    congr 1
    exact List.map_congr_left fun x there => f.lawful.arranged (each x there)
  steady {v w} valid same := by
    obtain ⟨xs, rfl, each⟩ := (listShape_valid f).mp valid
    rw [arrange_array] at same
    cases w with
    | array ys =>
        rw [arrange_array, Json.array.injEq] at same
        obtain ⟨there, settled⟩ := map_steady f each same
        exact ⟨(listShape_valid f).mpr ⟨ys, rfl, there⟩, congrArg Json.array settled⟩
    | object _ =>
        rw [arrange_object] at same
        cases same
    | _ => cases same

def list : Form (List α) := ⟨listShape f, list_lawful f⟩

/-- A list of one item at least. -/
def nonEmpty : Form {as : List α // (!as.isEmpty) = true} := such (list f) fun as => !as.isEmpty

/-- `null` where there is none; no other value may pass for it. -/
structure Real : Prop where
  invalid : f.valid .null = false
  apart : ∀ v, f.settle v = .null → v = .null

variable {f} in
theorem Real.via (real : Real f) (e : α ≃ β) : Real (via f e) := ⟨real.invalid, real.apart⟩

variable {f} in
theorem Real.such (real : Real f) (p : α → Bool) : Real (such f p) where
  invalid := by
    have invalid := real.invalid
    simp only [Platform.such, suchShape, invalid, Bool.false_and]
  apart := real.apart

theorem u64_real : Real u64 := ⟨rfl, fun _ null => null⟩

def orNullShape : Shape (Option α) where
  valid | .null => true | v => f.valid v
  settle | .null => .null | v => f.settle v
  read | .null => some none | v => (f.read v).map some
  write a := a.elim .null f.write

variable {f} in
theorem Real.write_ne (real : Real f) (a : α) : f.write a ≠ .null := by
  intro null
  have valid := f.lawful.valid_write a
  rw [null, real.invalid] at valid
  cases valid

section Others
variable {f} {v : Value}

theorem orNullShape_valid (other : v ≠ .null) : (orNullShape f).valid v = f.valid v := by
  cases v with
  | null => exact absurd rfl other
  | _ => rfl

theorem orNullShape_settle (other : v ≠ .null) : (orNullShape f).settle v = f.settle v := by
  cases v with
  | null => exact absurd rfl other
  | _ => rfl

theorem orNullShape_read (other : v ≠ .null) : (orNullShape f).read v = (f.read v).map some := by
  cases v with
  | null => exact absurd rfl other
  | _ => rfl

theorem null_of_arrange (same : Json.null = arrange v) : v = .null := Flat.null.only same

end Others

theorem orNull_lawful (real : Real f) : (orNullShape f).Lawful where
  settle_write a := by
    cases a with
    | none => rfl
    | some a => exact (orNullShape_settle (real.write_ne a)).trans (f.lawful.settle_write a)
  valid_write a := by
    cases a with
    | none => rfl
    | some a => exact (orNullShape_valid (real.write_ne a)).trans (f.lawful.valid_write a)
  read_iff {v a} distinct := by
    by_cases null : v = .null
    · subst null
      cases a with
      | none => simp [orNullShape]
      | some a => simp [orNullShape, (real.write_ne a).symm]
    · rw [orNullShape_read null, orNullShape_settle null]
      cases a with
      | none =>
          have never := fun settled => null (real.apart v settled)
          simpa [orNullShape] using never
      | some a =>
          simpa [orNullShape] using f.lawful.read_iff distinct
  held {v} valid := by
    by_cases null : v = .null
    · subst null
      exact ⟨none, rfl⟩
    · rw [orNullShape_valid null] at valid
      obtain ⟨a, settled⟩ := f.lawful.held valid
      exact ⟨some a, (orNullShape_settle null).trans settled⟩
  sound {v} valid := by
    by_cases null : v = .null
    · subst null
      exact Flat.null.sound
    · rw [orNullShape_valid null] at valid
      exact f.lawful.sound valid
  arranged {v} valid := by
    by_cases null : v = .null
    · subst null
      rfl
    · rw [orNullShape_valid null] at valid
      rw [orNullShape_settle null]
      exact f.lawful.arranged valid
  steady {v w} valid same := by
    by_cases null : v = .null
    · subst null
      obtain rfl := null_of_arrange same
      exact ⟨rfl, rfl⟩
    · have other : w ≠ .null := by
        rintro rfl
        exact null (null_of_arrange same.symm)
      rw [orNullShape_valid null] at valid
      rw [orNullShape_valid other, orNullShape_settle other, orNullShape_settle null]
      exact f.lawful.steady valid same

def orNull (real : Real f) : Form (Option α) := ⟨orNullShape f, orNull_lawful f real⟩

end Wrapping

section Choosing
variable {α β : Type}

/-- What a value is called when it is one of several: itself if a word, its one key if an object. -/
def tagOf : Value → Option String
  | .string s => some s
  | .object [(t, _)] => some t
  | _ => none

theorem tagOf_arrange (v : Value) : tagOf (arrange v) = tagOf v := by
  cases v with
  | object ms =>
      rw [arrange_object]
      cases ms with
      | nil => rfl
      | cons m ms =>
          cases ms with
          | nil => rfl
          | cons n ms =>
              have long := (sortKeys_perm ((m :: n :: ms).map arrangeMember)).length_eq
              cases sorted : sortKeys ((m :: n :: ms).map arrangeMember) with
              | nil =>
                  rw [sorted] at long
                  cases long
              | cons a rest =>
                  cases rest with
                  | nil =>
                      rw [sorted] at long
                      cases long
                  | cons b rest => rfl
  | array xs =>
      rw [arrange_array]
      rfl
  | _ => rfl

/-- A form that knows its values by what they are called. -/
structure Tagged (α : Type) extends Form α where
  tags : List String
  keeps : ∀ v, tagOf (settle v) = tagOf v
  mine : ∀ a, ∃ t ∈ tags, tagOf (write a) = some t

/-- A word out of a closed list; an object with that key and nothing under it is read as well. -/
def wordsShape (all : List α) (name : α → String) : Shape α where
  valid | .string s => all.any (name · = s) | _ => false
  settle | .object [(s, .null)] => .string s | v => v
  read
    | .string s => all.find? (name · = s)
    | .object [(s, .null)] => all.find? (name · = s)
    | _ => none
  write a := .string (name a)

section Words
variable {all : List α} {name : α → String}

theorem find_name (complete : ∀ a, a ∈ all) (apart : Function.Injective name) {s : String} {a : α} :
    all.find? (name · = s) = some a ↔ s = name a := by
  constructor
  · intro found
    have called := List.find?_some found
    exact (of_decide_eq_true called).symm
  · rintro rfl
    cases found : all.find? (name · = name a) with
    | none => exact absurd (List.find?_eq_none.mp found a (complete a)) (by simp)
    | some b =>
        have called := List.find?_some found
        rw [apart (of_decide_eq_true called)]

/-- How a value is read as a word. -/
theorem words_cases (all : List α) (name : α → String) (v : Value) :
    (∃ s, (v = .string s ∨ v = .object [(s, .null)]) ∧
      (wordsShape all name).settle v = .string s ∧
      (wordsShape all name).read v = all.find? (name · = s)) ∨
    (∀ s, v ≠ .string s) ∧ (wordsShape all name).settle v = v ∧
      (wordsShape all name).read v = none := by
  cases v with
  | string s => exact .inl ⟨s, .inl rfl, rfl, rfl⟩
  | object ms =>
      cases ms with
      | nil => exact .inr ⟨fun _ h => (by cases h), rfl, rfl⟩
      | cons m ms =>
          obtain ⟨s, x⟩ := m
          cases ms with
          | cons n ms =>
              exact .inr ⟨fun _ h => (by cases h), by cases x <;> rfl, by cases x <;> rfl⟩
          | nil =>
              cases x with
              | null => exact .inl ⟨s, .inr rfl, rfl, rfl⟩
              | _ => exact .inr ⟨fun _ h => (by cases h), rfl, rfl⟩
  | _ => exact .inr ⟨fun _ h => (by cases h), rfl, rfl⟩

theorem words_lawful (complete : ∀ a, a ∈ all) (apart : Function.Injective name) :
    (wordsShape all name).Lawful := by
  refine .of_flat (fun _ => rfl) (fun v => ?_) (fun v a => ?_) fun a => .string _
  · cases v with
    | string s =>
        simp only [wordsShape, List.any_eq_true, decide_eq_true_eq, Json.string.injEq]
        constructor
        · rintro ⟨a, _, rfl⟩
          exact ⟨a, rfl⟩
        · rintro ⟨a, rfl⟩
          exact ⟨a, complete a, rfl⟩
    | _ => simp [wordsShape]
  · cases words_cases all name v with
    | inl word =>
        obtain ⟨s, _, settled, read⟩ := word
        rw [settled, read, find_name complete apart]
        exact Json.string.injEq s (name a) ▸ Iff.rfl
    | inr other =>
        obtain ⟨none_, settled, read⟩ := other
        rw [settled, read]
        exact iff_of_false (fun h => by cases h) (none_ (name a))

end Words

def words (all : List α) (name : α → String) (complete : ∀ a, a ∈ all)
    (apart : Function.Injective name) : Tagged α where
  toShape := wordsShape all name
  lawful := words_lawful complete apart
  tags := all.map name
  keeps v := by
    cases words_cases all name v with
    | inl word =>
        obtain ⟨s, here, settled, _⟩ := word
        rw [settled]
        obtain rfl | rfl := here <;> rfl
    | inr other => rw [other.2.1]
  mine a := ⟨name a, List.mem_map_of_mem (complete a), rfl⟩

end Choosing
end Platform
end Metralectl
