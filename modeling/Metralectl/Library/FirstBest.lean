import Mathlib.Data.List.Basic

/-!
Walking through a list with the best so far in hand: what comes later takes its place if it beats
it. Which of equals is left is the list's own order.
-/
namespace FirstBest
universe u
variable {α : Type u}

/-- The best so far, and then what is left at the end. -/
def walk (beats : α → α → Bool) (best : α) (rest : List α) : α :=
  rest.foldl (fun best a => if beats a best then a else best) best

/-- Nothing in the list is above what is left. What comes later is not above what it does not beat,
and what it beats is not above it. -/
theorem walk_best {beats : α → α → Bool} {before below : α → α → Prop} (refl : ∀ a, below a a)
    (trans : ∀ {a b c}, below a b → below b c → below a c)
    (keeps : ∀ {a b}, before a b → beats b a = false → below b a)
    (takes : ∀ {a b}, beats b a = true → below a b) {best : α} {rest : List α}
    (ordered : (best :: rest).Pairwise before) :
    walk beats best rest ∈ best :: rest ∧ ∀ a ∈ best :: rest, below a (walk beats best rest) := by
  induction rest generalizing best with
  | nil => exact ⟨List.mem_cons_self, fun a member => List.mem_singleton.mp member ▸ refl _⟩
  | cons b rest ih =>
      obtain ⟨first, later⟩ := List.pairwise_cons.mp ordered
      unfold walk at ih ⊢
      rw [List.foldl_cons]
      cases better : beats b best with
      | true =>
          rw [if_pos rfl]
          obtain ⟨there, above⟩ := ih later
          refine ⟨List.mem_cons_of_mem _ there, fun a member => ?_⟩
          obtain rfl | member := List.mem_cons.mp member
          · exact trans (takes better) (above b List.mem_cons_self)
          · exact above a member
      | false =>
          rw [if_neg nofun]
          have shorter : (best :: rest).Pairwise before :=
            List.pairwise_cons.mpr ⟨fun a member => first a (List.mem_cons_of_mem _ member),
              (List.pairwise_cons.mp later).2⟩
          obtain ⟨there, above⟩ := ih shorter
          constructor
          · obtain same | there := List.mem_cons.mp there
            · rw [same]
              exact List.mem_cons_self
            · exact List.mem_cons_of_mem _ (List.mem_cons_of_mem _ there)
          · intro a member
            obtain rfl | member := List.mem_cons.mp member
            · exact above _ List.mem_cons_self
            · obtain rfl | member := List.mem_cons.mp member
              · exact trans (keeps (first _ List.mem_cons_self) better)
                  (above best List.mem_cons_self)
              · exact above a (List.mem_cons_of_mem _ member)

/-- Where which of equals is left does not matter. -/
theorem walk_any {beats : α → α → Bool} {below : α → α → Prop} (refl : ∀ a, below a a)
    (trans : ∀ {a b c}, below a b → below b c → below a c)
    (keeps : ∀ {a b}, beats b a = false → below b a)
    (takes : ∀ {a b}, beats b a = true → below a b) (best : α) (rest : List α) :
    walk beats best rest ∈ best :: rest ∧ ∀ a ∈ best :: rest, below a (walk beats best rest) :=
  @walk_best α beats (fun _ _ => True) below refl trans (fun _ => keeps) takes best rest
    (List.pairwise_of_forall fun _ _ => trivial)

end FirstBest
