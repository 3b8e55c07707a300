import Mathlib.Data.List.Basic
import Mathlib.Order.Lattice

/-!
Maps kept in the order of their keys, one entry for a key. Walking through one
gives the entries in order, so two maps with the same lookups are the same map
and are walked through alike.
-/
namespace SortedMaps
universe u v w
variable {κ : Type u} {α : Type v} {β : Type w} [LinearOrder κ]

/-- In the order of the keys, each once. -/
def Ascending (entries : List (κ × α)) : Prop := entries.Pairwise fun a b => a.1 < b.1

theorem Ascending.above {e : κ × α} {rest : List (κ × α)} (h : Ascending (e :: rest)) :
    ∀ b ∈ rest, e.1 < b.1 := fun _ hb => List.rel_of_pairwise_cons h hb

@[ext] structure SortedMap (κ : Type u) (α : Type v) [LinearOrder κ] where
  entries : List (κ × α)
  ascending : Ascending entries
deriving DecidableEq

def insertEntry (k : κ) (v : α) : List (κ × α) → List (κ × α)
  | [] => [(k, v)]
  | (j, u) :: rest =>
      if k < j then (k, v) :: (j, u) :: rest
      else if k = j then (k, v) :: rest
      else (j, u) :: insertEntry k v rest

theorem mem_insertEntry {k j : κ} {v u : α} {entries : List (κ × α)}
    (h : (j, u) ∈ insertEntry k v entries) : (j, u) = (k, v) ∨ (j, u) ∈ entries := by
  induction entries with
  | nil => exact .inl (List.mem_singleton.mp h)
  | cons e rest ih =>
      simp only [insertEntry] at h
      split at h
      · exact (List.mem_cons.mp h).imp id id
      · split at h
        · exact (List.mem_cons.mp h).imp id (List.mem_cons_of_mem _)
        · cases List.mem_cons.mp h with
          | inl first => exact .inr (first ▸ List.mem_cons_self)
          | inr later => exact (ih later).imp id (List.mem_cons_of_mem _)

theorem ascending_insertEntry {k : κ} {v : α} {entries : List (κ × α)}
    (h : Ascending entries) : Ascending (insertEntry k v entries) := by
  induction entries with
  | nil => exact List.pairwise_singleton _ _
  | cons e rest ih =>
      have above := h.above
      have tail : Ascending rest := h.of_cons
      simp only [insertEntry]
      split
      · next lower =>
          refine List.Pairwise.cons ?_ h
          intro b hb
          cases List.mem_cons.mp hb with
          | inl first => exact first ▸ lower
          | inr later => exact lt_trans lower (above b later)
      · next notLower =>
          split
          · next same =>
              refine List.Pairwise.cons ?_ tail
              intro b hb
              rw [same]
              exact above b hb
          · next other =>
              refine List.Pairwise.cons ?_ (ih tail)
              intro b hb
              cases mem_insertEntry hb with
              | inl new =>
                  have key : b.1 = k := congrArg Prod.fst new
                  rw [key]
                  exact lt_of_le_of_ne (not_lt.mp notLower) (Ne.symm other)
              | inr old => exact above b old

namespace SortedMap

def empty : SortedMap κ α := ⟨[], List.Pairwise.nil⟩

def get? (m : SortedMap κ α) (k : κ) : Option α := m.entries.lookup k

/-- A value for a key, in place of any other. -/
def insert (m : SortedMap κ α) (k : κ) (v : α) : SortedMap κ α :=
  ⟨insertEntry k v m.entries, ascending_insertEntry m.ascending⟩

/-- Entries put in one after another, a later one in place of an earlier. -/
def extend (m : SortedMap κ α) (entries : List (κ × α)) : SortedMap κ α :=
  entries.foldl (fun m e => m.insert e.1 e.2) m

def ofList (entries : List (κ × α)) : SortedMap κ α := empty.extend entries

/-- The entries a test passes. -/
def keep (m : SortedMap κ α) (p : κ → Bool) : SortedMap κ α :=
  ⟨m.entries.filter fun e => p e.1, m.ascending.sublist List.filter_sublist⟩

def remove (m : SortedMap κ α) (k : κ) : SortedMap κ α := m.keep (· ≠ k)

def map (f : α → β) (m : SortedMap κ α) : SortedMap κ β :=
  ⟨m.entries.map fun e => (e.1, f e.2), by
    simp only [Ascending, List.pairwise_map]
    exact m.ascending⟩

section Lookups
variable {m n : SortedMap κ α} {k j : κ} {v : α}

theorem mem_entries : (k, v) ∈ m.entries ↔ m.get? k = some v := by
  obtain ⟨entries, ascending⟩ := m
  simp only [get?]
  induction entries with
  | nil => simp
  | cons e rest ih =>
      obtain ⟨i, u⟩ := e
      have above := ascending.above
      by_cases same : k = i
      · subst same
        have absent : (k, v) ∉ rest := fun later => lt_irrefl k (above (k, v) later)
        simp [absent, eq_comm]
      · have other : (k == i) = false := by simpa using same
        simp [same, List.lookup_cons, other, ih ascending.of_cons]

/-- What a map is extended to holds was put in, or was there. -/
theorem mem_extend {entries : List (κ × α)} {e : κ × α} (h : e ∈ (m.extend entries).entries) :
    e ∈ entries ∨ e ∈ m.entries := by
  induction entries generalizing m with
  | nil => exact .inr h
  | cons first rest ih =>
      cases ih h with
      | inl later => exact .inl (List.mem_cons_of_mem _ later)
      | inr before =>
          cases mem_insertEntry before with
          | inl new =>
              have same : e = first := new
              exact .inl (same ▸ List.mem_cons_self)
          | inr old => exact .inr old

@[simp] theorem get?_empty : (empty : SortedMap κ α).get? k = none := rfl

theorem lookup_insertEntry {entries : List (κ × α)} :
    (insertEntry j v entries).lookup k = if k = j then some v else entries.lookup k := by
  have cons (i : κ) (u : α) (rest : List (κ × α)) :
      ((i, u) :: rest).lookup k = if k = i then some u else rest.lookup k := by
    by_cases same : k = i
    · simp [same]
    · have other : (k == i) = false := by simpa using same
      simp [List.lookup_cons, other, same]
  induction entries with
  | nil => exact cons j v []
  | cons e rest ih =>
      obtain ⟨i, u⟩ := e
      simp only [insertEntry]
      split
      · rw [cons]
      · split
        · next here =>
            rw [cons, cons, here]
            split <;> rfl
        · next other =>
            rw [cons, cons, ih]
            by_cases here : k = i
            · rw [if_pos here, if_pos here, if_neg (here ▸ Ne.symm other)]
            · rw [if_neg here, if_neg here]

@[simp] theorem get?_insert : (m.insert j v).get? k = if k = j then some v else m.get? k :=
  lookup_insertEntry

theorem get?_keep (p : κ → Bool) : (m.keep p).get? k = if p k then m.get? k else none := by
  apply Option.ext
  intro u
  rw [← mem_entries]
  simp only [keep, List.mem_filter, mem_entries]
  by_cases passes : p k <;> simp [passes]

theorem get?_remove : (m.remove j).get? k = if k = j then none else m.get? k := by
  rw [remove, get?_keep]
  by_cases same : k = j <;> simp [same]

@[simp] theorem get?_map (f : α → β) : (m.map f).get? k = (m.get? k).map f := by
  apply Option.ext
  intro u
  rw [← mem_entries]
  simp only [map, List.mem_map, Option.map_eq_some_iff, Prod.mk.injEq]
  constructor
  · intro h
    obtain ⟨⟨i, x⟩, mem, rfl, rfl⟩ := h
    exact ⟨x, mem_entries.mp mem, rfl⟩
  · intro h
    obtain ⟨x, there, rfl⟩ := h
    exact ⟨(k, x), mem_entries.mpr there, rfl, rfl⟩

/-- Two ascending lists with the same members are the same list. -/
theorem entries_ext {xs ys : List (κ × α)} (hx : Ascending xs) (hy : Ascending ys)
    (same : ∀ e, e ∈ xs ↔ e ∈ ys) : xs = ys := by
  have nodup {zs : List (κ × α)} (hz : Ascending zs) : zs.Nodup :=
    hz.imp fun below same => absurd (congrArg Prod.fst same) (ne_of_lt below)
  have perm : xs.Perm ys := (List.perm_ext_iff_of_nodup (nodup hx) (nodup hy)).mpr same
  exact perm.eq_of_pairwise (fun a b _ _ below above => absurd below (lt_asymm above)) hx hy

/-- What a map says is its lookups. -/
theorem ext_get? (same : ∀ k, m.get? k = n.get? k) : m = n := by
  apply SortedMap.ext
  apply entries_ext m.ascending n.ascending
  intro e
  obtain ⟨k, v⟩ := e
  rw [mem_entries, mem_entries, same]

theorem map_insert (f : α → β) : (m.insert k v).map f = (m.map f).insert k (f v) := by
  apply ext_get?
  intro j
  rw [get?_map, get?_insert, get?_insert, get?_map]
  split <;> rfl

theorem map_remove (f : α → β) : (m.remove k).map f = (m.map f).remove k := by
  apply ext_get?
  intro j
  rw [get?_map, get?_remove, get?_remove, get?_map]
  split <;> rfl

theorem map_extend (f : α → β) (entries : List (κ × α)) :
    (m.extend entries).map f = (m.map f).extend (entries.map fun e => (e.1, f e.2)) := by
  induction entries generalizing m with
  | nil => rfl
  | cons e rest ih =>
      simp only [extend, List.foldl_cons, List.map_cons] at ih ⊢
      rw [ih, map_insert]

/-- Two maps that a function takes to one have the same keys, and values it takes to
the same. -/
theorem get?_of_map_eq {f : α → β} (h : m.map f = n.map f) (k : κ) :
    (m.get? k = none ∧ n.get? k = none) ∨
      ∃ v w, m.get? k = some v ∧ n.get? k = some w ∧ f v = f w := by
  have found : (m.get? k).map f = (n.get? k).map f := by
    rw [← get?_map, ← get?_map, h]
  cases hv : m.get? k with
  | none =>
      rw [hv] at found
      exact .inl ⟨rfl, Option.map_eq_none_iff.mp found.symm⟩
  | some v =>
      rw [hv] at found
      obtain ⟨w, hw, same⟩ := Option.map_eq_some_iff.mp found.symm
      exact .inr ⟨v, w, rfl, hw, same.symm⟩

/-- What a function of the values decides, it decides of whole maps. -/
theorem map_eq_of_map_eq {γ : Type*} {f : α → β} {g : α → γ} (h : m.map f = n.map f)
    (decides : ∀ v w, f v = f w → g v = g w) : m.map g = n.map g := by
  apply ext_get?
  intro k
  rw [get?_map, get?_map]
  cases get?_of_map_eq h k with
  | inl absent => rw [absent.1, absent.2]
  | inr there =>
      obtain ⟨v, w, hv, hw, same⟩ := there
      rw [hv, hw, Option.map_some, Option.map_some, decides v w same]

/-- Another map's entries come in place of a map's own. -/
@[simp] theorem get?_extend : (m.extend n.entries).get? k = (n.get? k).or (m.get? k) := by
  have one (entries : List (κ × α)) (ascending : Ascending entries) (m : SortedMap κ α) :
      (m.extend entries).get? k = (entries.lookup k).or (m.get? k) := by
    induction entries generalizing m with
    | nil => rfl
    | cons e rest ih =>
        obtain ⟨i, u⟩ := e
        have later : (m.extend ((i, u) :: rest)).get? k =
            (rest.lookup k).or ((m.insert i u).get? k) := ih ascending.of_cons (m.insert i u)
        rw [later, get?_insert]
        by_cases same : k = i
        · subst same
          have absent : rest.lookup k = none := by
            rw [List.lookup_eq_none_iff]
            intro e he
            simpa using (ne_of_lt (ascending.above e he))
          simp [absent]
        · have other : (k == i) = false := by simpa using same
          simp [List.lookup_cons, other, same]
  exact one n.entries n.ascending m

end Lookups
end SortedMap
end SortedMaps
