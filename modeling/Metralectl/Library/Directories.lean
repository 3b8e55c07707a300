import Mathlib.Logic.Function.Basic

/-!
A directory as concurrent programs and a power cut see it. What a file holds and where the names
lead reach stable storage apart from each other: a cut brings back any listing there was since
the directory was last flushed, and spoils every file that was not.
-/
namespace Directories
open Function (update)
universe u
variable {N : Type u}

abbrev Bytes := List UInt8

abbrev Listing (N : Type u) := N → Option Nat

/-- Only files that were made have a name, and none has two. -/
structure Plain (next : Nat) (m : Listing N) : Prop where
  made : ∀ {n i}, m n = some i → i < next
  single : ∀ {a b i}, m a = some i → m b = some i → a = b

structure Disk (N : Type u) where
  data : Nat → Bytes
  flushed : Nat → Bool
  names : Listing N
  /-- The earlier listings that a cut may bring back. -/
  past : List (Listing N)
  next : Nat
  plain : ∀ m ∈ names :: past, Plain next m

namespace Plain
variable {next i : Nat} {m : Listing N} {a : N}

theorem mono {later : Nat} (h : Plain next m) (le : next ≤ later) : Plain later m :=
  ⟨fun there => Nat.lt_of_lt_of_le (h.made there) le, h.single⟩

section Names
variable [DecidableEq N]

theorem clear (h : Plain next m) (a : N) : Plain next (update m a none) := by
  have old {n : N} {i : Nat} (there : update m a none n = some i) : m n = some i := by
    by_cases here : n = a
    · simp [here] at there
    · rwa [Function.update_of_ne here] at there
  exact ⟨fun there => h.made (old there), fun first second => h.single (old first) (old second)⟩

/-- A name is given to a file that has none. -/
theorem give (h : Plain next m) (made : i < next) (none_ : ∀ n, m n ≠ some i) (a : N) :
    Plain next (update m a (some i)) := by
  refine ⟨fun {n j} there => ?_, fun {b c j} first second => ?_⟩
  · by_cases here : n = a
    · subst here
      rw [Function.update_self] at there
      cases there
      exact made
    · rw [Function.update_of_ne here] at there
      exact h.made there
  · by_cases one : b = a <;> by_cases two : c = a
    · rw [one, two]
    · subst one
      rw [Function.update_self] at first
      rw [Function.update_of_ne two] at second
      cases first
      exact absurd second (none_ c)
    · subst two
      rw [Function.update_self] at second
      rw [Function.update_of_ne one] at first
      cases second
      exact absurd first (none_ b)
    · rw [Function.update_of_ne one] at first
      rw [Function.update_of_ne two] at second
      exact h.single first second

theorem move (h : Plain next m) (there : m a = some i) (b : N) :
    Plain next (update (update m a none) b (some i)) := by
  refine (h.clear a).give (h.made there) (fun n same => ?_) b
  by_cases here : n = a
  · simp [here] at same
  · rw [Function.update_of_ne here] at same
    exact here (h.single same there)

end Names
end Plain

namespace Disk

/-- `piece` written at an offset, over what was there; a gap reads as zeros. -/
def splice (held : Bytes) (offset : Nat) (piece : Bytes) : Bytes :=
  held.take offset ++ List.replicate (offset - held.length) 0 ++ piece ++
    held.drop (offset + piece.length)

def store (d : Disk N) (i : Nat) (bytes : Bytes) : Disk N :=
  { d with data := update d.data i bytes, flushed := update d.flushed i false }

def write (d : Disk N) (i offset : Nat) (piece : Bytes) : Disk N :=
  d.store i (splice (d.data i) offset piece)

def sync (d : Disk N) (i : Nat) : Disk N := { d with flushed := update d.flushed i true }

theorem now (d : Disk N) : Plain d.next d.names := d.plain _ List.mem_cons_self

def relist (d : Disk N) (m : Listing N) (h : Plain d.next m) : Disk N :=
  { d with
    names := m
    past := d.names :: d.past
    plain := List.forall_mem_cons.mpr ⟨h, d.plain⟩ }

section Names
variable [DecidableEq N]

/-- A new file, empty, under a name. -/
def make (d : Disk N) (n : N) : Disk N :=
  let grown : Disk N :=
    { d with next := d.next + 1, plain := fun m h => (d.plain m h).mono (Nat.le_succ _) }
  (grown.relist (update d.names n (some d.next)) (grown.now.give (Nat.lt_succ_self _)
    (fun _ there => Nat.lt_irrefl _ (d.now.made there)) n)).store d.next []

/-- Open for writing from the start: a file of that name is emptied, else there is a new one. -/
def create (d : Disk N) (n : N) : Disk N × Nat :=
  match d.names n with
  | some i => (d.store i [], i)
  | none => (d.make n, d.next)

def rename (d : Disk N) (a b : N) : Option (Disk N) :=
  match h : d.names a with
  | some i => some (d.relist (update (update d.names a none) b (some i)) (d.now.move h b))
  | none => none

def remove (d : Disk N) (a : N) : Disk N := d.relist (update d.names a none) (d.now.clear a)

end Names

def syncDir (d : Disk N) : Disk N :=
  { d with
    past := []
    plain := fun m h => by cases List.mem_singleton.mp h; exact d.now }

/-- Everything on stable storage. -/
def rest (d : Disk N) : Disk N := { d.syncDir with flushed := fun _ => true }

/-- The power goes, and one of the listings is found; `junk` is what the spoiled files hold. -/
def cut (d : Disk N) (k : Nat) (junk : Nat → Bytes) : Option (Disk N) :=
  match h : (d.names :: d.past)[k]? with
  | some m =>
      some
        { d with
          data := fun i => if d.flushed i then d.data i else junk i
          flushed := fun _ => true
          names := m
          past := []
          plain := fun l here => by
            cases List.mem_singleton.mp here
            exact d.plain m (List.mem_of_getElem? h) }
  | none => none

def content (d : Disk N) (n : N) : Option Bytes := (d.names n).map d.data

/-- What a name leads to, now or after a cut. -/
def May (d : Disk N) (n : N) (e : Option Nat) : Prop := ∃ m ∈ d.names :: d.past, m n = e

variable {d d' : Disk N} {n a b : N} {i : Nat} {e : Option Nat}

theorem May.made (h : d.May n (some i)) : i < d.next := by
  obtain ⟨m, here, leads⟩ := h
  exact (d.plain m here).made leads

/-- Once the listing is another, it and those there were. -/
theorem May.listed (may : d'.May n e) (past : d'.past = d.names :: d.past) :
    d'.names n = e ∨ d.May n e := by
  obtain ⟨l, here, leads⟩ := may
  rw [past] at here
  rcases List.mem_cons.mp here with rfl | old
  · exact Or.inl leads
  · exact Or.inr ⟨l, old, leads⟩

theorem May.of_syncDir (may : d.syncDir.May n e) : d.May n e := by
  obtain ⟨l, here, leads⟩ := may
  cases List.mem_singleton.mp here
  exact ⟨_, List.mem_cons_self, leads⟩

theorem splice_end (held : Bytes) {offset : Nat} (end_ : held.length = offset) (piece : Bytes) :
    splice held offset piece = held ++ piece := by
  subst end_
  simp [splice]

section Names
variable [DecidableEq N]

theorem create_cases (d : Disk N) (n : N) :
    (∃ i, d.names n = some i ∧ d.create n = (d.store i [], i)) ∨
      d.names n = none ∧ d.create n = (d.make n, d.next) := by
  unfold create
  cases d.names n with
  | some i => exact Or.inl ⟨i, rfl, rfl⟩
  | none => exact Or.inr ⟨rfl, rfl⟩

theorem create_names (d : Disk N) (n : N) : (d.create n).1.names n = some (d.create n).2 := by
  obtain ⟨i, there, made⟩ | ⟨_, made⟩ := d.create_cases n
  · rw [made]
    exact there
  · rw [made]
    exact Function.update_self ..

theorem create_data (d : Disk N) (n : N) : (d.create n).1.data (d.create n).2 = [] := by
  obtain ⟨i, _, made⟩ | ⟨_, made⟩ := d.create_cases n
  · rw [made]
    exact Function.update_self ..
  · rw [made]
    exact Function.update_self ..

/-- Making a file under another name. -/
theorem May.of_create (may : (d.create a).1.May n e) (other : n ≠ a) : d.May n e := by
  obtain ⟨i, _, made⟩ | ⟨_, made⟩ := d.create_cases a
  · rwa [made] at may
  · rw [made] at may
    rcases may.listed rfl with here | old
    · exact ⟨_, List.mem_cons_self, (Function.update_of_ne other ..).symm.trans here⟩
    · exact old

theorem May.of_remove (may : (d.remove a).May n e) (other : n ≠ a) : d.May n e := by
  rcases may.listed rfl with here | old
  · exact ⟨_, List.mem_cons_self, (Function.update_of_ne other ..).symm.trans here⟩
  · exact old

theorem rename_named (there : d.names a = some i) : d.rename a b ≠ none := by
  unfold rename
  split
  · nofun
  · next absent => cases absent.symm.trans there

theorem rename_some (h : d.rename a b = some d') : ∃ i, d.names a = some i ∧
    d'.names = update (update d.names a none) b (some i) ∧ d'.past = d.names :: d.past ∧
    d'.data = d.data ∧ d'.flushed = d.flushed ∧ d'.next = d.next := by
  unfold rename at h
  split at h
  · next i there =>
      cases h
      exact ⟨i, there, rfl, rfl, rfl, rfl, rfl⟩
  · cases h

end Names

theorem cut_some {k : Nat} {junk : Nat → Bytes} (h : d.cut k junk = some d') :
    d'.names ∈ d.names :: d.past ∧ d'.past = [] ∧ d'.next = d.next ∧
      d'.data = (fun i => if d.flushed i then d.data i else junk i) ∧
      d'.flushed = fun _ => true := by
  unfold cut at h
  split at h
  · next m there =>
      cases h
      exact ⟨List.mem_of_getElem? there, rfl, rfl, rfl, rfl⟩
  · cases h

/-- What whoever is at work on one file `i`, named `t`, does to the rest: it touches no other file
and no other name but `path`. -/
structure Own (path t : N) (i : Nat) (d d' : Disk N) : Prop where
  data : ∀ j, j ≠ i → d'.data j = d.data j
  flushed : ∀ j, j ≠ i → d.flushed j = true → d'.flushed j = true
  others : ∀ n, n ≠ t → n ≠ path → d'.names n = d.names n
  named : d'.names t = d.names t ∨ d'.names t = some i ∨ d'.names t = none
  next : d.next ≤ d'.next

namespace Own
variable {path t : N}

theorem refl (d : Disk N) (i : Nat) : Own path t i d d :=
  ⟨fun _ _ => rfl, fun _ _ h => h, fun _ _ _ => rfl, Or.inl rfl, Nat.le_refl _⟩

theorem store (d : Disk N) (i : Nat) (bytes : Bytes) : Own path t i d (d.store i bytes) :=
  { refl d i with
    data := fun _ other => Function.update_of_ne other ..
    flushed := fun _ other h => (Function.update_of_ne other ..).trans h }

theorem sync (d : Disk N) (i : Nat) : Own path t i d (d.sync i) :=
  { refl d i with flushed := fun _ other h => (Function.update_of_ne other ..).trans h }

theorem syncDir (d : Disk N) (i : Nat) : Own path t i d d.syncDir := { refl d i with }

section Names
variable [DecidableEq N]

theorem make (d : Disk N) : Own path t d.next d (d.make t) where
  data _ other := Function.update_of_ne other ..
  flushed _ other h := (Function.update_of_ne other ..).trans h
  others _ one _ := Function.update_of_ne one ..
  named := Or.inr (Or.inl (Function.update_self ..))
  next := Nat.le_succ _

theorem create (d : Disk N) : Own path t (d.create t).2 d (d.create t).1 := by
  obtain ⟨i, _, made⟩ | ⟨_, made⟩ := d.create_cases t
  · rw [made]
    exact store d i []
  · rw [made]
    exact make d

theorem rename (there : d.names t = some i) (h : d.rename t path = some d') :
    Own path t i d d' := by
  obtain ⟨j, named, names, _, data, flushed, next⟩ := rename_some h
  cases named.symm.trans there
  refine ⟨fun _ _ => by rw [data], fun _ _ done => by rwa [flushed], fun n one two => ?_, ?_, Nat.le_of_eq next.symm⟩
  · rw [names, Function.update_of_ne two, Function.update_of_ne one]
  · rw [names]
    by_cases same : t = path
    · subst same
      exact Or.inr (Or.inl (Function.update_self ..))
    · exact Or.inr (Or.inr (by rw [Function.update_of_ne same, Function.update_self]))

theorem remove (d : Disk N) (i : Nat) : Own path t i d (d.remove t) where
  data _ _ := rfl
  flushed _ _ h := h
  others _ one _ := Function.update_of_ne one ..
  named := Or.inr (Or.inr (Function.update_self ..))
  next := Nat.le_refl _

end Names
end Own

end Disk
end Directories
