import Mathlib.Data.List.Forall2

/-!
# Walks over a list with a function that may fail

Such a walk stops at the first failure. What it comes to is told by the relation of the list to
what came of its elements, one by one.
-/
namespace Metralectl
namespace Traversal

section Related
variable {α β : Type} {R : α → β → Prop} {l : List α} {out : List β} {a : α} {b : β}

theorem mem_left (related : List.Forall₂ R l out) (ha : a ∈ l) : ∃ b ∈ out, R a b := by
  induction related with
  | nil => cases ha
  | cons first _ ih =>
      cases List.mem_cons.mp ha with
      | inl here => exact ⟨_, List.mem_cons_self, here ▸ first⟩
      | inr there =>
          obtain ⟨b, hb, holds⟩ := ih there
          exact ⟨b, List.mem_cons_of_mem _ hb, holds⟩

theorem mem_right (related : List.Forall₂ R l out) (hb : b ∈ out) : ∃ a ∈ l, R a b :=
  mem_left (R := flip R) related.flip hb

end Related

section Walk
variable {α β ε : Type} {f : α → Except ε β} {l : List α} {out : List β} {a : α} {b : β}

/-- A walk succeeds with what each element comes to, and only so. -/
theorem mapM_ok_iff : l.mapM f = .ok out ↔ List.Forall₂ (fun a b => f a = .ok b) l out := by
  induction l generalizing out with
  | nil =>
      rw [List.forall₂_nil_left_iff]
      constructor
      · intro h
        exact (Except.ok.inj h).symm
      · rintro rfl
        rfl
  | cons a l ih =>
      rw [List.mapM_cons, List.forall₂_cons_left_iff]
      constructor
      · intro h
        cases first : f a with
        | error e =>
            rw [first] at h
            cases h
        | ok b =>
            cases rest : l.mapM f with
            | error e =>
                rw [first, rest] at h
                cases h
            | ok bs =>
                rw [first, rest] at h
                cases h
                exact ⟨b, bs, rfl, ih.mp rest, rfl⟩
      · rintro ⟨b, bs, first, rest, rfl⟩
        rw [first, ih.mpr rest]
        rfl

theorem mem_of_mapM (h : l.mapM f = .ok out) (hb : b ∈ out) : ∃ a ∈ l, f a = .ok b :=
  mem_right (R := fun a b => f a = .ok b) (mapM_ok_iff.mp h) hb

theorem mapM_all {g : α → β} (each : ∀ a ∈ l, f a = .ok (g a)) : l.mapM f = .ok (l.map g) :=
  mapM_ok_iff.mpr (List.forall₂_map_right_iff.mpr (List.forall₂_same.mpr each))

/-- Some walk is related to its list exactly if each element comes to something related. -/
theorem mapM_forall₂ {R : α → β → Prop} :
    (∃ out, l.mapM f = .ok out ∧ List.Forall₂ R l out) ↔ ∀ a ∈ l, ∃ b, f a = .ok b ∧ R a b := by
  induction l with
  | nil => exact ⟨fun _ => nofun, fun _ => ⟨[], rfl, .nil⟩⟩
  | cons a l ih =>
      rw [List.forall_mem_cons, ← ih]
      constructor
      · rintro ⟨out, ok, related⟩
        cases mapM_ok_iff.mp ok with
        | cons first rest =>
            cases related with
            | cons head tail => exact ⟨⟨_, first, head⟩, _, mapM_ok_iff.mpr rest, tail⟩
      · rintro ⟨⟨b, first, head⟩, bs, rest, tail⟩
        exact ⟨b :: bs, mapM_ok_iff.mpr (.cons first (mapM_ok_iff.mp rest)), .cons head tail⟩

end Walk

end Traversal
end Metralectl
