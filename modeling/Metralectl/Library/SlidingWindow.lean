import Mathlib.Data.List.TakeWhile

/-!
A limiter that keeps the times it admitted: of any stretch of its width, edges included, it
admits no more than its limit, and it admits whoever was silent for longer than that.
-/
namespace SlidingWindow
universe u
variable {α : Type u} (width limit : Nat) (clock : α → Nat)

/-- The times that still count. -/
def recent (log : List Nat) (now : Nat) : List Nat := log.dropWhile fun t => width < now - t

/-- What is kept at a reading of the clock, and whether it is admitted. -/
def enter (log : List Nat) (now : Nat) : List Nat × Bool :=
  if limit ≤ (recent width log now).length then (recent width log now, false)
  else (recent width log now ++ [now], true)

def logAfter : List Nat → List α → List Nat
  | log, [] => log
  | log, x :: rest => logAfter (enter width limit log (clock x)).1 rest

/-- What is admitted of what comes, one after another. -/
def admitted : List Nat → List α → List α
  | _, [] => []
  | log, x :: rest =>
      (if (enter width limit log (clock x)).2 then [x] else []) ++
        admitted (enter width limit log (clock x)).1 rest

/-- Those of a stretch of the width. -/
def within (start : Nat) (times : List Nat) : List Nat :=
  times.filter fun t => start ≤ t ∧ t ≤ start + width

variable {width limit clock} {log done : List Nat} {coming : List α} {now prev : Nat}

theorem within_append (start : Nat) (first second : List Nat) :
    within width start (first ++ second) = within width start first ++ within width start second :=
  List.filter_append ..

/-- What is no longer kept is out of every stretch that reaches up to now. -/
theorem recent_split : ∃ gone, log = gone ++ recent width log now ∧ ∀ t ∈ gone, t + width < now := by
  refine ⟨log.takeWhile fun t => width < now - t, (List.takeWhile_append_dropWhile ..).symm, ?_⟩
  intro t ht
  have old := List.mem_takeWhile_imp ht
  simp only [decide_eq_true_eq] at old
  omega

/-- No stretch of the width holds more of what was admitted than the limit: by induction on what
comes, with what is kept as all that can still be in a stretch with something later. -/
theorem window_bound_from {gone : List Nat} (split : done = gone ++ log)
    (old : ∀ t ∈ gone, t + width < prev) (later : ∀ x ∈ coming, prev ≤ clock x)
    (ordered : coming.Pairwise (clock · ≤ clock ·))
    (bounded : ∀ start, (within width start done).length ≤ limit) (start : Nat) :
    (within width start (done ++ (admitted width limit clock log coming).map clock)).length ≤ limit := by
  induction coming generalizing log done prev gone with
  | nil =>
      rw [admitted, List.map_nil, List.append_nil]
      exact bounded start
  | cons x rest ih =>
      obtain ⟨after_, ordered⟩ := List.pairwise_cons.mp ordered
      obtain ⟨here, later⟩ := List.forall_mem_cons.mp later
      generalize reading : clock x = now at after_ here
      obtain ⟨dropped, kept, away⟩ := @recent_split width log now
      have out : ∀ t ∈ gone ++ dropped, t + width < now := by
        intro t ht
        cases List.mem_append.mp ht with
        | inl ht => exact Nat.lt_of_lt_of_le (old t ht) here
        | inr ht => exact away t ht
      have whole : done = (gone ++ dropped) ++ recent width log now := by
        rw [split, List.append_assoc, ← kept]
      simp only [admitted, enter, reading]
      split
      · exact ih whole out after_ ordered bounded
      · next room =>
          simp only [if_true, List.map_append, List.map_cons, List.map_nil, reading]
          rw [← List.append_assoc]
          refine @ih _ (done ++ [now]) _ _ (by rw [whole, List.append_assoc]) out after_ ordered ?_
          intro start
          by_cases inside : start ≤ now ∧ now ≤ start + width
          · -- A stretch with the new reading in it holds only what is kept beside it.
            have none_ : within width start (gone ++ dropped) = [] := by
              refine List.filter_eq_nil_iff.mpr fun t ht => ?_
              have far := out t ht
              simp only [decide_eq_true_eq]
              omega
            rw [whole, within_append, within_append, none_, List.nil_append, List.length_append]
            have few := List.length_filter_le (fun t => decide (start ≤ t ∧ t ≤ start + width))
              (recent width log now)
            have one := List.length_filter_le (fun t => decide (start ≤ t ∧ t ≤ start + width)) [now]
            simp only [List.length_singleton] at one
            unfold within
            omega
          · have none_ : within width start [now] = [] := by simp [within, inside]
            rw [within_append, none_, List.append_nil]
            exact bounded start

theorem window_bound (ordered : coming.Pairwise (clock · ≤ clock ·)) (start : Nat) :
    (within width start ((admitted width limit clock [] coming).map clock)).length ≤ limit :=
  @window_bound_from _ width limit clock _ [] coming 0 [] rfl nofun (fun _ _ => Nat.zero_le _) ordered
    (fun _ => Nat.zero_le _) start

/-- What is kept was kept before or is a reading since. -/
theorem mem_logAfter {t : Nat} (h : t ∈ logAfter width limit clock log coming) :
    t ∈ log ∨ ∃ x ∈ coming, clock x = t := by
  induction coming generalizing log with
  | nil => exact .inl h
  | cons x rest ih =>
      cases ih h with
      | inr later =>
          obtain ⟨y, hy, reading⟩ := later
          exact .inr ⟨y, List.mem_cons_of_mem _ hy, reading⟩
      | inl kept =>
          have fewer : ∀ t ∈ recent width log (clock x), t ∈ log :=
            fun t ht => (List.dropWhile_sublist _).mem ht
          unfold enter at kept
          split at kept
          · exact .inl (fewer t kept)
          · cases List.mem_append.mp kept with
            | inl kept => exact .inl (fewer t kept)
            | inr new => exact .inr ⟨x, List.mem_cons_self, (List.mem_singleton.mp new).symm⟩

/-- Who was silent for longer than the width is admitted. -/
theorem enter_of_silent (positive : 0 < limit) (silent : ∀ t ∈ log, t + width < now) :
    (enter width limit log now).2 = true := by
  have none_ : recent width log now = [] := by
    refine List.dropWhile_eq_nil_iff.mpr fun t ht => ?_
    have old := silent t ht
    simp only [decide_eq_true_eq]
    omega
  rw [enter, none_, if_neg (by simpa using Nat.ne_of_gt positive)]

end SlidingWindow
