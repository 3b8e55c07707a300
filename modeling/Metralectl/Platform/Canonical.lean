import Mathlib.Data.List.Lex
import Metralectl.Library.Json
import Metralectl.Protocol.Messages

/-!
The canonical JSON of a document, which is what is hashed and signed: no blank,
integers in decimal, the members of an object by the UTF-16 code units of their
keys. A number that is no integer is refused.
-/
namespace Metralectl
namespace Canonical
open JsonText

/-- The UTF-16 code units of a character. -/
def encodeUtf16 (c : Char) : List Nat :=
  if c.toNat < 0x10000 then [c.toNat]
  else [0xD800 + (c.toNat - 0x10000) / 0x400, 0xDC00 + (c.toNat - 0x10000) % 0x400]

def utf16 (key : String) : List Nat := key.toList.flatMap encodeUtf16

def sortKeys {α : Type} (members : List (String × α)) : List (String × α) :=
  members.insertionSort fun a b => utf16 a.1 ≤ utf16 b.1

section Writer
variable (display : F64 → List Char)

mutual
def write : Json F64 → Except String (List Char)
  | .null => .ok "null".toList
  | .bool b => .ok (if b then "true" else "false").toList
  | .number (.int n) => .ok (toString n).toList
  | .number (.fraction f) => .error (String.ofList (display f) ++ " is not an integer")
  | .string s => .ok (quoted s)
  | .array items => do
      let texts ← (writeItems items).mapM id
      .ok ('[' :: (commaSeparated texts ++ [']']))
  | .object members => do
      let texts ← (sortKeys (writeMembers members)).mapM fun m =>
        m.2.map fun text => writeMember (m.1, text)
      .ok ('{' :: (commaSeparated texts ++ ['}']))
def writeItems : List (Json F64) → List (Except String (List Char))
  | [] => []
  | x :: rest => write x :: writeItems rest
def writeMembers : List (String × Json F64) → List (String × Except String (List Char))
  | [] => []
  | (key, v) :: rest => (key, write v) :: writeMembers rest
end

def canonical (value : Json F64) : Except String String :=
  (write display value).map String.ofList

end Writer

mutual
/-- Equal as JSON values: arrays item by item, objects member by member wherever it
stands in the other. -/
inductive Same : Json F64 → Json F64 → Prop where
  | null : Same .null .null
  | bool (b : Bool) : Same (.bool b) (.bool b)
  | number (n : Number F64) : Same (.number n) (.number n)
  | string (s : String) : Same (.string s) (.string s)
  | array {xs ys : List (Json F64)} (items : SameItems xs ys) : Same (.array xs) (.array ys)
  | object {ms ns : List (String × Json F64)} (members : SameMembers ms ns) :
      Same (.object ms) (.object ns)
inductive SameItems : List (Json F64) → List (Json F64) → Prop where
  | nil : SameItems [] []
  | cons {x y : Json F64} {xs ys : List (Json F64)} (first : Same x y) (rest : SameItems xs ys) :
      SameItems (x :: xs) (y :: ys)
inductive SameMembers : List (String × Json F64) → List (String × Json F64) → Prop where
  | nil : SameMembers [] []
  | cons {key : String} {v w : Json F64} {ms front back : List (String × Json F64)}
      (first : Same v w) (rest : SameMembers ms (front ++ back)) :
      SameMembers ((key, v) :: ms) (front ++ (key, w) :: back)
end

/-- An object has one member for a key. -/
def Distinct (v : Json F64) : Prop :=
  v.Everywhere fun w => ∀ members, w = .object members → (members.map Prod.fst).Nodup

/-- Every number is an integer that is kept exactly. -/
def Integers (v : Json F64) : Prop :=
  v.Everywhere fun w => ∀ n, w = .number n → ∃ i, n = .int i ∧ Admitted i

/-- Every object has its members in the order of their keys' UTF-16 code units. -/
def Ordered (v : Json F64) : Prop :=
  v.Everywhere fun w => ∀ members, w = .object members →
    members.Pairwise fun a b => utf16 a.1 < utf16 b.1

/-- A JSON value all of whose numbers the writer admits. -/
structure Document where
  value : Json F64
  distinct : Distinct value
  integers : Integers value

section Utf16
variable {c d : Char} {x y : List Nat} {a b : String}

theorem encodeUtf16_append_inj (h : encodeUtf16 c ++ x = encodeUtf16 d ++ y) : c = d ∧ x = y := by
  have scalar (c : Char) : c.toNat < 0xD800 ∨ 0xDFFF < c.toNat ∧ c.toNat < 0x110000 := c.valid
  have same (h : c.toNat = d.toNat) : c = d := Char.toNat_inj.mp h
  have hc := scalar c
  have hd := scalar d
  unfold encodeUtf16 at h
  -- A unit below the surrogates or above them stands alone; a high surrogate never does.
  split at h <;> split at h <;>
    simp only [List.cons_append, List.nil_append, List.cons.injEq] at h
  · exact ⟨same h.1, h.2⟩
  · omega
  · omega
  · obtain ⟨high, low, rest⟩ := h
    exact ⟨same (by omega), rest⟩

theorem utf16_inj (h : utf16 a = utf16 b) : a = b := by
  suffices chars : ∀ cs ds : List Char,
      cs.flatMap encodeUtf16 = ds.flatMap encodeUtf16 → cs = ds from
    String.toList_inj.mp (chars _ _ h)
  have some_units (c : Char) (x : List Nat) : encodeUtf16 c ++ x ≠ [] := by
    unfold encodeUtf16
    split <;> exact List.cons_ne_nil _ _
  intro cs
  induction cs with
  | nil =>
      intro ds h
      cases ds with
      | nil => rfl
      | cons d ds => exact absurd h.symm (some_units d _)
  | cons c cs ih =>
      intro ds h
      cases ds with
      | nil => exact absurd h (some_units c _)
      | cons d ds =>
          obtain ⟨rfl, rest⟩ := encodeUtf16_append_inj h
          rw [ih ds rest]

end Utf16

section Sorting
variable {α β : Type} {ms ns : List (String × α)}

theorem sortKeys_perm (ms : List (String × α)) : (sortKeys ms).Perm ms :=
  List.perm_insertionSort _ _

theorem sortKeys_pairwise (ms : List (String × α)) :
    (sortKeys ms).Pairwise fun a b => utf16 a.1 ≤ utf16 b.1 := by
  have total : Std.Total fun a b : String × α => utf16 a.1 ≤ utf16 b.1 :=
    ⟨fun a b => le_total (utf16 a.1) (utf16 b.1)⟩
  have trans : IsTrans (String × α) fun a b => utf16 a.1 ≤ utf16 b.1 :=
    ⟨fun a b c hab hbc => le_trans hab hbc⟩
  exact List.pairwise_insertionSort _ ms

theorem sortKeys_map (f : α → β) (ms : List (String × α)) :
    sortKeys (ms.map fun m => (m.1, f m.2)) = (sortKeys ms).map fun m => (m.1, f m.2) := by
  have commute := List.map_insertionSort (fun a b : String × α => utf16 a.1 ≤ utf16 b.1)
    (fun a b : String × β => utf16 a.1 ≤ utf16 b.1) (fun m : String × α => (m.1, f m.2)) ms
    fun _ _ _ _ => Iff.rfl
  exact commute.symm

theorem sortKeys_sorted (ms : List (String × α)) : sortKeys (sortKeys ms) = sortKeys ms :=
  (sortKeys_pairwise ms).insertionSort_eq

theorem same_of_key (h : (ms.map Prod.fst).Nodup) {a b : String × α} (ha : a ∈ ms) (hb : b ∈ ms)
    (key : a.1 = b.1) : a = b :=
  List.inj_on_of_nodup_map h ha hb key

/-- Sorting leaves of a list with distinct keys what it holds and nothing else. -/
theorem sortKeys_eq_iff (h : (ms.map Prod.fst).Nodup) :
    sortKeys ms = sortKeys ns ↔ ms.Perm ns := by
  refine ⟨fun same => ?_, fun perm => ?_⟩
  · exact (sortKeys_perm ms).symm.trans (same ▸ sortKeys_perm ns)
  · refine List.Perm.eq_of_pairwise (fun a b ha hb hab hba => ?_) (sortKeys_pairwise ms)
      (sortKeys_pairwise ns) ((sortKeys_perm ms).trans (perm.trans (sortKeys_perm ns).symm))
    exact same_of_key h ((sortKeys_perm ms).mem_iff.mp ha)
      (perm.mem_iff.mpr ((sortKeys_perm ns).mem_iff.mp hb)) (utf16_inj (le_antisymm hab hba))

theorem sortKeys_strict (h : (ms.map Prod.fst).Nodup) :
    (sortKeys ms).Pairwise fun a b => utf16 a.1 < utf16 b.1 := by
  have nodup : ((sortKeys ms).map Prod.fst).Nodup :=
    (List.Perm.map _ (sortKeys_perm ms)).nodup_iff.mpr h
  refine ((sortKeys_pairwise ms).and (List.pairwise_map.mp nodup)).imp fun {a b} both => ?_
  exact lt_of_le_of_ne both.1 fun same => both.2 (utf16_inj same)

-- The higher code point sorts first: its surrogates are below U+FF61.
example : (sortKeys [("\uFF61", 2), ("😀", 1)]).map Prod.snd = [1, 2] := by decide

end Sorting

section Arrange

mutual
/-- The value with the members of every object in their order. -/
def arrange : Json F64 → Json F64
  | .array items => .array (arrangeItems items)
  | .object members => .object (sortKeys (arrangeMembers members))
  | v => v
def arrangeItems : List (Json F64) → List (Json F64)
  | [] => []
  | x :: rest => arrange x :: arrangeItems rest
def arrangeMembers : List (String × Json F64) → List (String × Json F64)
  | [] => []
  | (key, v) :: rest => (key, arrange v) :: arrangeMembers rest
end

def arrangeMember (m : String × Json F64) : String × Json F64 := (m.1, arrange m.2)

variable {P Q : Json F64 → Prop} {v w : Json F64} {ms ns : List (String × Json F64)}

theorem arrange_array (items : List (Json F64)) :
    arrange (.array items) = .array (items.map arrange) := by
  rw [arrange]
  congr 1
  induction items with
  | nil => rfl
  | cons x rest ih => rw [arrangeItems, ih, List.map_cons]

theorem arrangeMembers_eq (ms : List (String × Json F64)) :
    arrangeMembers ms = ms.map arrangeMember := by
  induction ms with
  | nil => rfl
  | cons m rest ih => rw [arrangeMembers, ih, List.map_cons, arrangeMember]

theorem arrange_object (ms : List (String × Json F64)) :
    arrange (.object ms) = .object (sortKeys (ms.map arrangeMember)) := by
  rw [arrange, arrangeMembers_eq]

theorem keys_arranged (ms : List (String × Json F64)) :
    (ms.map arrangeMember).map Prod.fst = ms.map Prod.fst := by
  rw [List.map_map]
  rfl

theorem mem_arranged {m : String × Json F64} (h : m ∈ sortKeys (ms.map arrangeMember)) :
    ∃ n ∈ ms, m = arrangeMember n := by
  obtain ⟨n, hn, rfl⟩ := List.mem_map.mp ((sortKeys_perm _).mem_iff.mp h)
  exact ⟨n, hn, rfl⟩

/-- What arranging one value establishes holds everywhere in the arranged one. -/
theorem everywhere_arrange (h : ∀ w, P w → Q (arrange w)) (hv : v.Everywhere P) :
    (arrange v).Everywhere Q := by
  induction v with
  | null | bool _ | number _ | string _ =>
      intro w hw
      rw [List.mem_singleton.mp hw]
      exact h _ (hv _ (List.mem_singleton.mpr rfl))
  | array items ih =>
      obtain ⟨here, inside⟩ := Json.everywhere_array.mp hv
      have arranged := h _ here
      rw [arrange_array] at arranged ⊢
      refine Json.everywhere_array.mpr ⟨arranged, fun y hy => ?_⟩
      obtain ⟨x, hx, rfl⟩ := List.mem_map.mp hy
      exact ih x hx (inside x hx)
  | object members ih =>
      obtain ⟨here, inside⟩ := Json.everywhere_object.mp hv
      have arranged := h _ here
      rw [arrange_object] at arranged ⊢
      refine Json.everywhere_object.mpr ⟨arranged, fun m hm => ?_⟩
      obtain ⟨n, hn, rfl⟩ := mem_arranged hm
      exact ih n hn (inside n hn)

theorem integers_arrange (h : Integers v) : Integers (arrange v) := by
  refine everywhere_arrange (fun w hw n number => ?_) h
  cases w with
  | number k => exact hw n number
  | null | bool _ | string _ | array _ | object _ => cases number

theorem ordered_arrange (h : Distinct v) : Ordered (arrange v) := by
  refine everywhere_arrange (fun w hw members object => ?_) h
  cases w with
  | object ms =>
      rw [arrange_object] at object
      obtain rfl := Json.object.inj object
      refine sortKeys_strict ?_
      rw [keys_arranged]
      exact hw ms rfl
  | null | bool _ | number _ | string _ | array _ => cases object

theorem Ordered.distinct (h : Ordered v) : Distinct v := by
  intro w hw members object
  refine List.pairwise_map.mpr ((h w hw members object).imp fun {a b} lower same => ?_)
  rw [same] at lower
  exact lt_irrefl _ lower

theorem within_arrange {limit : Nat} (h : v.Within limit) : (arrange v).Within limit := by
  induction v generalizing limit with
  | null | bool _ | number _ | string _ => exact h
  | array items ih =>
      rw [arrange_array]
      cases limit with
      | zero => exact h.elim
      | succ limit =>
          intro y hy
          obtain ⟨x, hx, rfl⟩ := List.mem_map.mp hy
          exact ih x hx (h x hx)
  | object members ih =>
      rw [arrange_object]
      cases limit with
      | zero => exact h.elim
      | succ limit =>
          intro m hm
          obtain ⟨n, hn, rfl⟩ := mem_arranged hm
          exact ih n hn (h n hn)

theorem arrange_arrange (v : Json F64) : arrange (arrange v) = arrange v := by
  induction v with
  | null | bool _ | number _ | string _ => rfl
  | array items ih =>
      rw [arrange_array, arrange_array, List.map_map]
      exact congrArg Json.array (List.map_congr_left ih)
  | object members ih =>
      have again : (members.map arrangeMember).map arrangeMember = members.map arrangeMember := by
        rw [List.map_map]
        exact List.map_congr_left fun m hm => Prod.ext rfl (ih m hm)
      have commute := sortKeys_map arrange (members.map arrangeMember)
      rw [arrange_object, arrange_object]
      refine congrArg Json.object ((congrArg sortKeys commute.symm).trans ?_)
      rw [sortKeys_sorted]
      exact congrArg sortKeys again

end Arrange

section SameValue
variable {v w : Json F64} {xs ys : List (Json F64)} {ms ns : List (String × Json F64)}

theorem sameItems_iff (hx : ∀ x ∈ xs, ∀ y ∈ ys, Same x y ↔ arrange x = arrange y) :
    SameItems xs ys ↔ xs.map arrange = ys.map arrange := by
  induction xs generalizing ys with
  | nil =>
      refine ⟨fun h => by cases h; rfl, fun h => ?_⟩
      rw [List.map_eq_nil_iff.mp h.symm]
      exact .nil
  | cons x xs ih =>
      cases ys with
      | nil => exact ⟨(nomatch ·), (nomatch ·)⟩
      | cons y ys =>
          have first := hx x List.mem_cons_self y List.mem_cons_self
          have rest := ih fun x hx' y hy =>
            hx x (List.mem_cons_of_mem _ hx') y (List.mem_cons_of_mem _ hy)
          rw [List.map_cons, List.map_cons, List.cons.injEq, ← first, ← rest]
          exact ⟨fun h => by cases h with | cons f r => exact ⟨f, r⟩, fun h => .cons h.1 h.2⟩

theorem sameMembers_iff (hm : ∀ m ∈ ms, ∀ n ∈ ns, Same m.2 n.2 ↔ arrange m.2 = arrange n.2) :
    SameMembers ms ns ↔ (ms.map arrangeMember).Perm (ns.map arrangeMember) := by
  induction ms generalizing ns with
  | nil =>
      refine ⟨fun h => by cases h; exact List.Perm.nil, fun h => ?_⟩
      rw [List.map_eq_nil_iff.mp (List.nil_perm.mp h)]
      exact .nil
  | cons m ms ih =>
      have split {front back : List (String × Json F64)} {n : String × Json F64}
          (whole : ns = front ++ n :: back) :
          SameMembers ms (front ++ back) ↔
            (ms.map arrangeMember).Perm ((front ++ back).map arrangeMember) := by
        subst whole
        refine ih fun m hm' n hn => hm m (List.mem_cons_of_mem _ hm') n ?_
        exact (List.mem_append.mp hn).elim (List.mem_append_left _)
          fun h => List.mem_append_right _ (List.mem_cons_of_mem _ h)
      constructor
      · intro h
        cases h with
        | @cons key v w _ front back first rest =>
            have here := (hm (key, v) List.mem_cons_self (key, w) (by simp)).mp first
            have perm := (split rfl).mp rest
            rw [List.map_append] at perm
            rw [List.map_cons, List.map_append, List.map_cons, arrangeMember, here]
            exact List.perm_cons_append_cons _ perm
      · intro perm
        obtain ⟨n, hn, named⟩ := List.mem_map.mp
          (perm.mem_iff.mp List.mem_cons_self)
        obtain ⟨front, back, rfl⟩ := List.append_of_mem hn
        have key : n.1 = m.1 := (Prod.ext_iff.mp named).1
        have value : arrange n.2 = arrange m.2 := (Prod.ext_iff.mp named).2
        have first : Same m.2 n.2 := (hm m List.mem_cons_self n hn).mpr value.symm
        have rest : (ms.map arrangeMember).Perm ((front ++ back).map arrangeMember) := by
          rw [List.map_append, List.map_cons, List.map_cons, named] at perm
          rw [List.map_append]
          exact (perm.trans List.perm_middle).cons_inv
        obtain ⟨_, v⟩ := m
        obtain ⟨_, w⟩ := n
        subst key
        exact .cons first ((split rfl).mpr rest)

theorem same_iff (hv : Distinct v) (hw : Distinct w) : Same v w ↔ arrange v = arrange w := by
  induction v generalizing w with
  | null | bool _ | number _ | string _ =>
      refine ⟨fun h => by cases h; rfl, fun h => ?_⟩
      cases w with
      | array ys => rw [arrange_array] at h; exact nomatch h
      | object ns => rw [arrange_object] at h; exact nomatch h
      | null | bool _ | number _ | string _ => cases h <;> constructor
  | array items ih =>
      rw [arrange_array]
      cases w with
      | array ys =>
          have items_iff := sameItems_iff fun x hx y hy =>
            ih x hx ((Json.everywhere_array.mp hv).2 x hx) ((Json.everywhere_array.mp hw).2 y hy)
          rw [arrange_array, Json.array.injEq, ← items_iff]
          exact ⟨fun h => by cases h with | array items => exact items, .array⟩
      | object ns => rw [arrange_object]; exact ⟨(nomatch ·), (nomatch ·)⟩
      | null | bool _ | number _ | string _ => exact ⟨(nomatch ·), (nomatch ·)⟩
  | object members ih =>
      rw [arrange_object]
      cases w with
      | object ns =>
          have members_iff := sameMembers_iff fun m hm n hn =>
            ih m hm ((Json.everywhere_object.mp hv).2 m hm) ((Json.everywhere_object.mp hw).2 n hn)
          have keys := (Json.everywhere_object.mp hv).1 members rfl
          rw [← keys_arranged] at keys
          rw [arrange_object, Json.object.injEq, sortKeys_eq_iff keys, ← members_iff]
          exact ⟨fun h => by cases h with | object members => exact members, .object⟩
      | array ys => rw [arrange_array]; exact ⟨(nomatch ·), (nomatch ·)⟩
      | null | bool _ | number _ | string _ => exact ⟨(nomatch ·), (nomatch ·)⟩

end SameValue

section Writing
variable (display : F64 → List Char) {v w : Json F64}

theorem mapM_ok {α β : Type} (f : α → β) (xs : List α) :
    xs.mapM (fun x => (Except.ok (f x) : Except String β)) = .ok (xs.map f) :=
  List.mapM_pure

/-- The canonical text of a value of integers is the plain text of the arranged one. -/
theorem write_eq (h : Integers v) : write display v = .ok (render display (arrange v)) := by
  induction v with
  | null | bool _ | string _ => rfl
  | number n =>
      obtain ⟨i, rfl, _⟩ := h (.number n) (List.mem_singleton.mpr rfl) n rfl
      rfl
  | array items ih =>
      have each : writeItems display items =
          items.map fun x => .ok (render display (arrange x)) := by
        have inside := (Json.everywhere_array.mp h).2
        clear h
        induction items with
        | nil => rfl
        | cons x rest later =>
            rw [writeItems, List.map_cons, ih x List.mem_cons_self (inside x List.mem_cons_self),
              later (fun y hy => ih y (List.mem_cons_of_mem _ hy))
                fun y hy => inside y (List.mem_cons_of_mem _ hy)]
      have all := mapM_ok (fun x => render display (arrange x)) items
      rw [write, each, List.mapM_map, arrange_array, render, renderItems_eq, List.map_map]
      exact congrArg (fun r : Except String (List (List Char)) =>
        r.bind fun texts => .ok ('[' :: (commaSeparated texts ++ [']']))) all
  | object members ih =>
      have each : writeMembers display members = members.map fun m =>
          (m.1, .ok (render display (arrange m.2))) := by
        have inside := (Json.everywhere_object.mp h).2
        clear h
        induction members with
        | nil => rfl
        | cons m rest later =>
            rw [writeMembers, List.map_cons, ih m List.mem_cons_self (inside m List.mem_cons_self),
              later (fun n hn => ih n (List.mem_cons_of_mem _ hn))
                fun n hn => inside n (List.mem_cons_of_mem _ hn)]
      have sorted := sortKeys_map (fun v => (Except.ok (render display v) : Except String _))
        (members.map arrangeMember)
      have all := mapM_ok (fun m : String × Json F64 => writeMember (m.1, render display m.2))
        (sortKeys (members.map arrangeMember))
      rw [List.map_map] at sorted
      have same : sortKeys (writeMembers display members) =
          (sortKeys (members.map arrangeMember)).map fun m => (m.1, .ok (render display m.2)) :=
        each ▸ sorted
      rw [write, same, List.mapM_map, arrange_object, render, renderMembers_eq, List.map_map]
      exact congrArg (fun r : Except String (List (List Char)) =>
        r.bind fun texts => .ok ('{' :: (commaSeparated texts ++ ['}']))) all

/-- A document has a canonical text. -/
theorem canonical_eq (h : Integers v) :
    canonical display v = .ok (String.ofList (render display (arrange v))) := by
  rw [canonical, write_eq display h]
  rfl

theorem Integers.readable (readFraction : List Char → Option F64) (h : Integers v) :
    Readable display readFraction v := by
  intro w hw n number
  obtain ⟨i, rfl, admitted⟩ := h w hw n number
  exact admitted.reads display

end Writing

/-- The canonical text of a document is read back as that document, its objects in the
order of their keys; two documents share it exactly if they are the same. -/
theorem canonical_binds (display : F64 → List Char) (readFraction : List Char → Option F64) :
    (∀ d : Document, ∃ text written, canonical display d.value = .ok text ∧
      parse readFraction text.toList = some written ∧
      (∀ limit, d.value.Within limit →
        parseWithin readFraction limit text.toList = some written) ∧
      Same d.value written ∧ Ordered written) ∧
    ∀ d e : Document, ∀ s t : String, canonical display d.value = .ok s →
      canonical display e.value = .ok t → (s.toUTF8 = t.toUTF8 ↔ Same d.value e.value) := by
  have back (d : Document) : Readable display readFraction (arrange d.value) :=
    (integers_arrange d.integers).readable display readFraction
  constructor
  · intro d
    refine ⟨_, arrange d.value, canonical_eq display d.integers, ?_, fun limit within => ?_, ?_,
      ordered_arrange d.distinct⟩
    · rw [String.toList_ofList]
      exact parse_render (back d)
    · rw [String.toList_ofList]
      exact parseWithin_render (back d) (within_arrange within)
    · exact (same_iff d.distinct (ordered_arrange d.distinct).distinct).mpr
        (arrange_arrange d.value).symm
  · intro d e s t hs ht
    rw [canonical_eq display d.integers] at hs
    rw [canonical_eq display e.integers] at ht
    obtain rfl := Except.ok.inj hs
    obtain rfl := Except.ok.inj ht
    rw [same_iff d.distinct e.distinct]
    refine ⟨fun same => ?_, fun same => by rw [same]⟩
    have texts := congrArg String.toList (String.toByteArray_inj.mp same)
    rw [String.toList_ofList, String.toList_ofList] at texts
    have readings := congrArg (parse readFraction) texts
    rw [parse_render (back d), parse_render (back e)] at readings
    exact Option.some.inj readings

end Canonical
end Metralectl
