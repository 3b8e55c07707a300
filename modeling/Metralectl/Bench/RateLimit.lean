import Metralectl.Bench.Settled
import Metralectl.Library.SlidingWindow

/-!
How many submissions of a peer a host lets past its limiter, over every run of the host: the
limiter is a sliding window over the calls of one peer alone.
-/
namespace Metralectl
namespace Bench
open SlidingWindow Runs

/-- A submission and when it came. -/
abbrev Arrival := Submission × Nat

/-- Of how long the submissions count, in nanoseconds. -/
def minute : Nat := 60 * 10 ^ 9

def Call.isRateLimited : Call → Bool
  | .submitted _ (.refused _ (.rateLimited _)) => true
  | _ => false

def Host.letsPast (n : Node) (h : Host) (a : Arrival) : Bool :=
  !(h.submit n a.1 a.2).2.isRateLimited

/-- What a move submits. -/
def Move.arrival : Move → Option Arrival
  | .submit sub now => some (sub, now)
  | _ => none

/-- The submissions of a peer, in the order they come. -/
def arrivals (sender : NodeId) (ms : List Move) : List Arrival :=
  (ms.filterMap Move.arrival).filter (·.1.sender = sender)

/-- Those the limiter lets past. -/
def World.past (n : Node) : World → List Move → List Arrival
  | _, [] => []
  | w, m :: ms =>
      (m.arrival.filter (w.host.letsPast n)).toList ++ ((w.step n m).elim [] (World.past n · ms))

def World.pastOf (n : Node) (w : World) (sender : NodeId) (ms : List Move) : List Arrival :=
  (w.past n ms).filter (·.1.sender = sender)

section Limiter
variable {n : Node} {h : Host} {s t : World} {ms : List Move} {sender : NodeId}

theorem rateLimited_eq (h : Host) (sender : NodeId) (now : Nat) :
    h.rateLimited sender now =
      ({ h with submits := fun p =>
          if p = sender then (enter minute Host.submitsPerMinute (h.submits sender) now).1
          else h.submits p },
        !(enter minute Host.submitsPerMinute (h.submits sender) now).2) := by
  unfold Host.rateLimited enter recent minute
  generalize (h.submits sender).dropWhile (fun t => 60 * 10 ^ 9 < now - t) = kept
  by_cases full : Host.submitsPerMinute ≤ kept.length
  · simp only [full, decide_true, if_true, Bool.not_false]
  · simp only [full, decide_false, if_false, Bool.not_true, Bool.false_eq_true]

theorem inspect_not_rateLimited {cfg : HostConfig} {q : Quoting} {sub : Submission} {retry : UInt32} :
    cfg.inspect q sub ≠ some (.rateLimited retry) := by
  intro inspected
  unfold HostConfig.inspect at inspected
  repeat' split at inspected
  all_goals cases inspected

theorem letsPast_eq (a : Arrival) :
    h.letsPast n a = (enter minute Host.submitsPerMinute (h.submits a.1.sender) a.2).2 := by
  unfold Host.letsPast Host.submit
  rw [rateLimited_eq]
  cases (enter minute Host.submitsPerMinute (h.submits a.1.sender) a.2).2 with
  | false => rfl
  | true =>
      simp only [Bool.not_true]
      cases inspected : n.inspect n.quoting a.1 with
      | none => rfl
      | some refusal =>
          cases refusal with
          | rateLimited retry => exact absurd inspected inspect_not_rateLimited
          | _ => rfl

/-- A submission adds to what is kept of its sender, and of nobody else. -/
theorem submit_submits (sub : Submission) (now : Nat) :
    (h.submit n sub now).1.submits sender =
      if sender = sub.sender then (enter minute Host.submitsPerMinute (h.submits sender) now).1
      else h.submits sender := by
  have counted : (h.submit n sub now).1 = (h.rateLimited sub.sender now).1 := by
    unfold Host.submit
    split
    · next limited => rw [limited]
    · next free =>
        rw [free]
        split <;> rfl
  rw [counted, rateLimited_eq]
  by_cases own : sender = sub.sender
  · simp only [own, if_true]
  · simp only [own, if_false]

theorem advance_submits {o : Outside} {c d : Call} {g : Host}
    (go : h.advance n o c = some (g, d)) : g.submits = h.submits := by
  cases goes_of_advance go with
  | queued | ended | recorded | signalled => split <;> rfl
  | _ => rfl

theorem after_submits (id : JobId) (q : Ask) (a : Answer q) :
    (h.after id q a).submits = h.submits := by
  unfold Host.after
  split <;> rfl

/-- No other move touches what the limiter keeps. -/
theorem step_submits {m : Move} (other : m.arrival = none) (step : s.step n m = some t) :
    t.host.submits = s.host.submits := by
  cases m with
  | submit sub now => cases other
  | cancel id clock | status id =>
      cases step
      rfl
  | resume i o =>
      simp only [World.step] at step
      split at step
      · next c there =>
          obtain ⟨⟨g, d⟩, go, made⟩ := Option.map_eq_some_iff.mp step
          subst made
          exact advance_submits go
      · cases step
  | pick =>
      simp only [World.step] at step
      split at step
      · obtain ⟨job, _, made⟩ := Option.map_eq_some_iff.mp step
        subst made
        rfl
      · cases step
  | probe busy opened =>
      simp only [World.step] at step
      repeat' split at step
      all_goals cases step
      all_goals rfl
  | work oracle =>
      simp only [World.step] at step
      split at step
      · cases step
        exact after_submits _ _ _
      · cases step
  | rest =>
      simp only [World.step] at step
      split at step <;> cases step <;> rfl

theorem arrival_eq {m : Move} {a : Arrival} (h : m.arrival = some a) : m = .submit a.1 a.2 := by
  cases m with
  | submit sub now =>
      cases h
      rfl
  | _ => cases h

/-- What is let past of a peer, and what is kept of it at the end: the window over its own
calls, whatever else is done. -/
theorem run_limits (run : Run (World.step n) Free s ms t) :
    s.pastOf n sender ms =
        admitted minute Host.submitsPerMinute Prod.snd (s.host.submits sender) (arrivals sender ms) ∧
      t.host.submits sender =
        logAfter minute Host.submitsPerMinute Prod.snd (s.host.submits sender) (arrivals sender ms) := by
  induction run with
  | nil s => exact ⟨rfl, rfl⟩
  | @cons s u t m ms one _ ih =>
      cases arrived : m.arrival with
      | none =>
          have here : s.pastOf n sender (m :: ms) = u.pastOf n sender ms := by
            simp [World.pastOf, World.past, arrived, one.2]
          have coming : arrivals sender (m :: ms) = arrivals sender ms := by
            simp [arrivals, arrived]
          rw [here, coming, ← step_submits arrived one.2]
          exact ih
      | some a =>
          have kept := @submit_submits n s.host sender a.1 a.2
          have there : u.host = (s.host.submit n a.1 a.2).1 := by
            have step := one.2
            rw [arrival_eq arrived] at step
            cases step
            rfl
          rw [← there] at kept
          have here : s.pastOf n sender (m :: ms) =
              (((some a).filter (s.host.letsPast n)).toList.filter (·.1.sender = sender)) ++
                u.pastOf n sender ms := by
            simp only [World.pastOf, World.past, arrived, one.2, Option.elim_some, List.filter_append]
          rw [here]
          by_cases own : a.1.sender = sender
          · have coming : arrivals sender (m :: ms) = a :: arrivals sender ms := by
              simp [arrivals, arrived, own]
            have let_ := @letsPast_eq n s.host a
            rw [if_pos own.symm] at kept
            rw [own] at let_
            rw [coming, admitted, logAfter, ih.1, ih.2, kept]
            refine ⟨congrArg (· ++ _) ?_, rfl⟩
            rw [← let_]
            cases passes : s.host.letsPast n a <;> simp [Option.filter, passes, own]
          · have coming : arrivals sender (m :: ms) = arrivals sender ms := by
              simp [arrivals, arrived, own]
            rw [if_neg (Ne.symm own)] at kept
            have none_ : ((some a).filter (s.host.letsPast n)).toList.filter (·.1.sender = sender) = [] := by
              cases passes : s.host.letsPast n a <;> simp [Option.filter, passes, own]
            rw [coming, none_, List.nil_append, ← kept]
            exact ih

/-- In every run of the host: of any minute, edges included, no more than the limit of a peer's
submissions are let past; which of them depends on that peer's submissions alone; and a peer that
was silent for the last minute is let past. -/
theorem submissions_limited (fresh : ∀ p, s.host.submits p = []) (run : Run (World.step n) Free s ms t)
    (ordered : (ms.filterMap Move.arrival).Pairwise (·.2 ≤ ·.2)) :
    (∀ start, ((s.pastOf n sender ms).filter fun a => start ≤ a.2 ∧ a.2 ≤ start + minute).length ≤
      Host.submitsPerMinute) ∧
      (∀ s' ms' t', (∀ p, s'.host.submits p = []) → Run (World.step n) Free s' ms' t' →
        arrivals sender ms' = arrivals sender ms → s'.pastOf n sender ms' = s.pastOf n sender ms) ∧
      ∀ a : Arrival, a.1.sender = sender → (∀ b ∈ ms.filterMap Move.arrival, b.2 ≤ a.2) →
        (∀ b ∈ arrivals sender ms, ¬(a.2 ≤ b.2 + minute ∧ b.2 ≤ a.2)) → t.host.letsPast n a = true := by
  obtain ⟨past, kept⟩ := @run_limits n s t ms sender run
  rw [fresh] at past kept
  refine ⟨fun start => ?_, ?_, ?_⟩
  · have own : (arrivals sender ms).Pairwise (·.2 ≤ ·.2) := ordered.filter _
    have bound := @window_bound _ minute Host.submitsPerMinute _ _ own start
    rw [← past, within, List.filter_map, List.length_map] at bound
    exact bound
  · intro s' ms' t' fresh' run' same
    obtain ⟨past', -⟩ := @run_limits n s' t' ms' sender run'
    rw [past', past, fresh', same]
  · intro a own late silent
    rw [letsPast_eq, own, kept]
    refine enter_of_silent (by decide) fun time logged => ?_
    cases mem_logAfter logged with
    | inl old => cases old
    | inr came =>
        obtain ⟨b, hb, rfl⟩ := came
        have before := late b (List.mem_of_mem_filter hb)
        have outside := silent b hb
        omega

end Limiter

/-- A submission of a peer at a time. -/
def arriving (sender : NodeId) (now : Nat) : Arrival where
  fst := {
    sender := sender
    key := (queuedUnder ⟨"k", k_accepted⟩).key
    sha := (queuedUnder ⟨"k", k_accepted⟩).spec.sha
    gate := (queuedUnder ⟨"k", k_accepted⟩).spec.gate
    params := .empty
    checkpoint := none
    hardware := none
    maxRunS := none
    note := none }
  snd := now

/-- Two peers submit; one of them again after more than a minute. -/
theorem submissions_limited_two : ∃ t,
    Run (World.step plainNode) Free queuedWorld
      [.submit (arriving 1 5).1 5, .submit (arriving 2 9).1 9] t ∧
      t.host.letsPast plainNode (arriving 1 (6 + minute)) = true := by
  have run : Run (World.step plainNode) Free queuedWorld
      [.submit (arriving 1 5).1 5, .submit (arriving 2 9).1 9] _ := .of_replay rfl
  refine ⟨_, run, (submissions_limited (fun _ => rfl) run (by decide)).2.2 _ rfl ?_ ?_⟩
  · decide
  · decide

end Bench
end Metralectl
