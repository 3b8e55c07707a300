import Mathlib.Data.List.Nodup

/-!
Finite tables: at most one value for a key, in an order nothing depends on but
whoever walks through them. What a table says is its lookups, and every operation
is known by what it does to them.
-/
namespace Tables
universe u v w
variable {κ : Type u} {α : Type v} {β : Type w}

structure Table (κ : Type u) (α : Type v) where
  entries : List (κ × α)
  nodup : (entries.map (·.1)).Nodup

namespace Table

def empty : Table κ α := ⟨[], List.nodup_nil⟩

def keys (t : Table κ α) : List κ := t.entries.map (·.1)

/-- The entries a test passes. -/
def keep (t : Table κ α) (p : κ → α → Bool) : Table κ α :=
  ⟨t.entries.filter fun e => p e.1 e.2, t.nodup.sublist (List.filter_sublist.map _)⟩

/-- The same keys, each with what becomes of its value. -/
def map (f : α → β) (t : Table κ α) : Table κ β :=
  ⟨t.entries.map fun e => (e.1, f e.2), by
    rw [List.map_map]
    exact t.nodup⟩

variable [DecidableEq κ]

def get? (t : Table κ α) (k : κ) : Option α := t.entries.lookup k

def erase (t : Table κ α) (k : κ) : Table κ α := t.keep fun j _ => j ≠ k

/-- A value for a key, in place of any other. -/
def insert (t : Table κ α) (k : κ) (v : α) : Table κ α :=
  ⟨(k, v) :: (t.erase k).entries, by
    rw [List.map_cons, List.nodup_cons]
    refine ⟨?_, (t.erase k).nodup⟩
    simp [erase, keep]⟩

theorem mem_entries {t : Table κ α} {k : κ} {v : α} : (k, v) ∈ t.entries ↔ t.get? k = some v := by
  obtain ⟨entries, nodup⟩ := t
  induction entries with
  | nil => simp [get?]
  | cons e rest ih =>
      obtain ⟨j, u⟩ := e
      rw [List.map_cons, List.nodup_cons] at nodup
      by_cases same : k = j
      · subst same
        have absent : (k, v) ∉ rest := fun member =>
          nodup.1 (List.mem_map.mpr ⟨(k, v), member, rfl⟩)
        simp [get?, absent, eq_comm]
      · have first : (k == j) = false := by simpa using same
        have later := ih nodup.2
        simp only [get?] at later
        simp [get?, same, first, List.lookup_cons, later]

theorem mem_keys {t : Table κ α} {k : κ} : k ∈ t.keys ↔ (t.get? k).isSome := by
  rw [keys, List.mem_map, Option.isSome_iff_exists]
  constructor
  · rintro ⟨⟨j, v⟩, member, rfl⟩
    exact ⟨v, mem_entries.mp member⟩
  · rintro ⟨v, there⟩
    exact ⟨(k, v), mem_entries.mpr there, rfl⟩

@[simp] theorem get?_empty (k : κ) : (empty : Table κ α).get? k = none := rfl

@[simp] theorem get?_keep (t : Table κ α) (p : κ → α → Bool) (k : κ) :
    (t.keep p).get? k = (t.get? k).filter (p k) := by
  apply Option.ext
  intro v
  rw [← mem_entries, Option.filter_eq_some_iff, ← mem_entries]
  simp [keep]

@[simp] theorem get?_map (f : α → β) (t : Table κ α) (k : κ) :
    (t.map f).get? k = (t.get? k).map f := by
  apply Option.ext
  intro v
  rw [← mem_entries, Option.map_eq_some_iff]
  constructor
  · intro member
    obtain ⟨⟨j, u⟩, there, same⟩ := List.mem_map.mp member
    cases same
    exact ⟨u, mem_entries.mp there, rfl⟩
  · rintro ⟨u, there, rfl⟩
    exact List.mem_map.mpr ⟨(k, u), mem_entries.mpr there, rfl⟩

theorem of_get?_keep {t : Table κ α} {p : κ → α → Bool} {k : κ} {v : α}
    (h : (t.keep p).get? k = some v) : t.get? k = some v ∧ p k v = true := by
  rwa [get?_keep, Option.filter_eq_some_iff] at h

@[simp] theorem get?_erase (t : Table κ α) (j k : κ) :
    (t.erase j).get? k = if k = j then none else t.get? k := by
  rw [erase, get?_keep]
  by_cases same : k = j
  · cases t.get? k <;> simp [same]
  · cases t.get? k <;> simp [same]

@[simp] theorem get?_insert (t : Table κ α) (j k : κ) (v : α) :
    (t.insert j v).get? k = if k = j then some v else t.get? k := by
  by_cases same : k = j
  · simp [get?, insert, same]
  · have first : (k == j) = false := by simpa using same
    have rest := get?_erase t j k
    simp only [get?] at rest
    simp [get?, insert, same, first, List.lookup_cons, rest]

theorem length_keys_insert (t : Table κ α) (k : κ) (v : α) :
    (t.insert k v).keys.length ≤ t.keys.length + 1 := by
  simp only [keys, insert, erase, keep, List.length_map, List.length_cons]
  exact Nat.succ_le_succ (List.length_filter_le _ _)

end Table
end Tables
