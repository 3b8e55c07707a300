import Metralectl.Protocol.Messages

/-!
Bounded retry of one control request toward another machine. The decisions are
pure: a run says what to send next, given what the last send produced. Only a
lost send is retried; a refusal ends the run. Before a launch is repeated the
target's status is read, and a recipe found running there ends the retry.
-/
namespace Metralectl

/-- How hard one control request is tried. At least one send is allowed, and
the count is a 32-bit one. -/
structure RetryBudget where
  attempts : Nat
  pause : Nat
  nonzero : 0 < attempts
  fits : attempts < 2 ^ 32

inductive Attempt where
  | answered (rep : ControlRep) (via : Option NodeId)
  | lost (error : AgentError)
deriving DecidableEq

structure LostSend where
  by_ : Option NodeId
  error : AgentError
  via : Option NodeId
deriving DecidableEq

inductive Outcome where
  | answered (rep : ControlRep) (via : Option NodeId) (attempts : Nat)
  | refused (by_ : NodeId) (error : AgentError) (via : Option NodeId) (attempts : Nat)
  | alreadyRunning (recipe : RecipeId) (launch : RunningLaunch) (via : Option NodeId)
      (attempts : Nat)
  | exhausted (attempts : Nat) (lastResponder : Option NodeId) (lost : LostSend)
deriving DecidableEq

namespace Retry

inductive Step where
  | send (req : ControlReq) (pause : Nat)
  | done (outcome : Outcome)
deriving DecidableEq

end Retry
open Retry

structure ControlRun where
  target : NodeId
  req : ControlReq
  budget : RetryBudget
  sent : Nat
  probing : Bool
  lastResponder : Option NodeId
  lastLost : Option LostSend

namespace ControlRun

/-- The recipe of a launch run; none for every other verb. -/
def launchedRecipe (run : ControlRun) : Option RecipeId :=
  match run.req with
  | .launch recipe _ => some recipe
  | _ => none

def send (run : ControlRun) (req : ControlReq) : ControlRun × Step :=
  let pause := if run.sent = 0 then 0 else run.budget.pause
  ({ run with
      probing := decide (req = .status) && run.launchedRecipe.isSome
      sent := run.sent + 1 },
    .send req pause)

def exhausted (run : ControlRun) (lost : LostSend) : Step :=
  .done (.exhausted run.sent run.lastResponder lost)

/-- A send went unanswered: retry within the budget, reading the status first
when the request was a launch. -/
def lost (run : ControlRun) (lost : LostSend) : ControlRun × Step :=
  if run.budget.attempts ≤ run.sent then (run, run.exhausted lost)
  else
    let run := { run with lastLost := some lost }
    if run.launchedRecipe.isSome then run.send .status else run.send run.req

/-- The status read before a repeated launch came back. -/
def probed (run : ControlRun) (recipe : RecipeId) (running : List RunningLaunch)
    (via : Option NodeId) : ControlRun × Step :=
  match running.find? (fun l => l.recipe = some recipe) with
  | some launch => (run, .done (.alreadyRunning recipe launch via run.sent))
  | none =>
      let taken := { run with lastLost := none }
      match run.lastLost with
      | some lost =>
          if run.budget.attempts ≤ run.sent then (taken, taken.exhausted lost)
          else taken.send taken.req
      | none => taken.send taken.req

/-- Somebody answered, and did not refuse. -/
def answered (run : ControlRun) (rep : ControlRep) (via : Option NodeId) : ControlRun × Step :=
  match rep, run.launchedRecipe, run.probing with
  | .status running, some recipe, true => run.probed recipe running via
  | rep, _, _ => (run, .done (.answered rep via run.sent))

/-- Record what the last send produced and decide the next step. -/
def record (run : ControlRun) : Attempt → ControlRun × Step
  | .lost error => run.lost ⟨none, error, none⟩
  | .answered (.refused by_ (.relayRefused node relay detail true)) via =>
      { run with lastResponder := some by_ }.lost
        ⟨some by_, .relayRefused node relay detail true, via⟩
  | .answered (.refused by_ error) via =>
      (run, .done (.refused by_ error via run.sent))
  | .answered rep via => { run with lastResponder := some run.target }.answered rep via

/-- Begin a run, with its first step. -/
def start (target : NodeId) (req : ControlReq) (budget : RetryBudget) : ControlRun × Step :=
  send ⟨target, req, budget, 0, false, none, none⟩ req

end ControlRun

/-- The error with the attempt count and the last responder written into its
operator-facing text. -/
def noted (error : AgentError) (attempts : Nat) (lastResponder : Option NodeId) : AgentError :=
  let note := match lastResponder with
    | some n => s!" (gave up after {attempts} attempts; last answer from {n.short})"
    | none => s!" (gave up after {attempts} attempts; no machine answered)"
  match error with
  | .notRoutable node reason => .notRoutable node (reason ++ note)
  | .relayRefused node via detail transient => .relayRefused node via (detail ++ note) transient
  | other => other

/-- The shape the session's relay port answers in. -/
def Outcome.intoRelay : Outcome → Except AgentError (ControlRep × Option NodeId)
  | .answered rep via _ => .ok (rep, via)
  | .refused by_ error via _ => .ok (.refused by_ error, via)
  | .alreadyRunning recipe _ _ _ => .error (.alreadyRunning recipe)
  | .exhausted attempts lastResponder lost =>
      match lost.by_ with
      | some by_ => .ok (.refused by_ (noted lost.error attempts lastResponder), lost.via)
      | none => .error (noted lost.error attempts lastResponder)

/-- One send of a run with what came of it; nothing yet for a send still out. -/
abbrev Exchange := ControlReq × Option Attempt

namespace ControlRun

/-- Feed attempts to a run one after another until it ends or they are used
up: every send made, in order, and the step it stands at. -/
def follow (run : ControlRun) : Step → List Attempt → List Exchange × Step
  | .done o, _ => ([], .done o)
  | .send req pause, [] => ([(req, none)], .send req pause)
  | .send req _, a :: as =>
      let next := run.record a
      let rest := next.1.follow next.2 as
      ((req, some a) :: rest.1, rest.2)

/-- A whole run of one request against the attempts it meets. -/
def runAll (target : NodeId) (req : ControlReq) (budget : RetryBudget)
    (attempts : List Attempt) : List Exchange × Step :=
  (start target req budget).1.follow (start target req budget).2 attempts

/-- The driver: one send after another through `attempt`, whose own error is a
local refusal and ends the run at once. The number names the send. -/
def drive (attempt : Nat → ControlReq → Except AgentError Attempt) :
    Nat → ControlRun → Step → Option (Except AgentError Outcome)
  | _, _, .done outcome => some (.ok outcome)
  | 0, _, .send _ _ => none
  | fuel + 1, run, .send req _ =>
      match attempt run.sent req with
      | .error e => some (.error e)
      | .ok a => drive attempt fuel (run.record a).1 (run.record a).2

/-- What holds of a run while the answer to `q` is awaited. -/
structure Live (run : ControlRun) (q : ControlReq) : Prop where
  within : run.sent ≤ run.budget.attempts
  probe : run.probing = true → q = .status ∧ run.lastLost.isSome ∧ run.launchedRecipe.isSome
  plain : run.probing = false → q = run.req

/-- What one more send changes, and what it leaves alone. The last part is why a
launch is repeated: only a probe that answered without the recipe leads to one. -/
structure Continues (run : ControlRun) (a : Attempt) (next : ControlRun) (q : ControlReq) :
    Prop where
  room : run.sent < run.budget.attempts
  sent : next.sent = run.sent + 1
  req : next.req = run.req
  budget : next.budget = run.budget
  live : next.Live q
  cleared : ∀ recipe, run.launchedRecipe = some recipe → next.probing = true ∨
    run.probing = true ∧ ∃ running via, a = .answered (.status running) via ∧
      ∀ l ∈ running, l.recipe ≠ some recipe

@[simp] theorem launchedRecipe_lastLost (run : ControlRun) (l : Option LostSend) :
    { run with lastLost := l }.launchedRecipe = run.launchedRecipe := rfl

@[simp] theorem launchedRecipe_lastResponder (run : ControlRun) (n : Option NodeId) :
    { run with lastResponder := n }.launchedRecipe = run.launchedRecipe := rfl

theorem req_of_launchedRecipe {run : ControlRun} {recipe : RecipeId}
    (h : run.launchedRecipe = some recipe) : ∃ settings, run.req = .launch recipe settings := by
  unfold launchedRecipe at h
  split at h
  · next r settings hreq =>
      cases h
      exact ⟨settings, hreq⟩
  · cases h

/-- Sending the run's own request again never looks like a probe. -/
theorem send_req (run : ControlRun) : (run.send run.req).1.probing = false := by
  simp only [send, Bool.and_eq_false_iff, decide_eq_false_iff_not]
  by_cases h : run.req = .status
  · exact Or.inr (by simp [launchedRecipe, h])
  · exact Or.inl h

theorem lost_send {run : ControlRun} {l : LostSend} {q : ControlReq} {pause : Nat}
    (a : Attempt) (h : (run.lost l).2 = .send q pause) :
    run.Continues a (run.lost l).1 q := by
  by_cases room : run.budget.attempts ≤ run.sent
  · simp [lost, room, exhausted] at h
  · have spare : run.sent < run.budget.attempts := Nat.lt_of_not_le room
    cases hr : run.launchedRecipe with
    | none =>
        have hstep : run.lost l = { run with lastLost := some l }.send run.req := by
          simp [lost, room, hr]
        have quiet : (run.lost l).1.probing = false := by
          rw [hstep]
          exact send_req { run with lastLost := some l }
        have hq : q = run.req := by
          rw [hstep] at h
          simp only [send, Step.send.injEq] at h
          exact h.1.symm
        refine ⟨spare, by rw [hstep]; rfl, by rw [hstep]; rfl, by rw [hstep]; rfl, ?_, ?_⟩
        · refine ⟨by rw [hstep]; exact spare, fun hp => ?_, fun _ => by rw [hstep]; exact hq⟩
          rw [quiet] at hp
          cases hp
        · intro recipe hsome
          rw [hr] at hsome
          cases hsome
    | some recipe =>
        have hstep : run.lost l = { run with lastLost := some l }.send .status := by
          simp [lost, room, hr]
        have probes : (run.lost l).1.probing = true := by
          rw [hstep]
          simp [send, hr]
        have hq : q = .status := by
          rw [hstep] at h
          simp only [send, Step.send.injEq] at h
          exact h.1.symm
        refine ⟨spare, by rw [hstep]; rfl, by rw [hstep]; rfl, by rw [hstep]; rfl, ?_,
          fun _ _ => Or.inl probes⟩
        refine ⟨by rw [hstep]; exact spare, fun _ => ?_, fun hp => ?_⟩
        · refine ⟨hq, by rw [hstep]; rfl, ?_⟩
          rw [hstep]
          change run.launchedRecipe.isSome
          rw [hr]
          rfl
        · rw [probes] at hp
          cases hp

theorem probed_send {run : ControlRun} {recipe : RecipeId} {running : List RunningLaunch}
    {via : Option NodeId} {q : ControlReq} {pause : Nat}
    (probing : run.probing = true) (lost : run.lastLost.isSome)
    (asked : run.launchedRecipe = some recipe)
    (h : (run.probed recipe running via).2 = .send q pause) :
    run.Continues (.answered (.status running) via) (run.probed recipe running via).1 q := by
  cases found : running.find? (fun l => l.recipe = some recipe) with
  | some launch => simp [probed, found] at h
  | none =>
      obtain ⟨l, hl⟩ := Option.isSome_iff_exists.mp lost
      by_cases room : run.budget.attempts ≤ run.sent
      · simp [probed, found, hl, room, exhausted] at h
      · have hstep : run.probed recipe running via =
            { run with lastLost := none }.send run.req := by
          simp [probed, found, hl, room]
        have quiet : (run.probed recipe running via).1.probing = false := by
          rw [hstep]
          exact send_req { run with lastLost := none }
        have hq : q = run.req := by
          rw [hstep] at h
          simp only [send, Step.send.injEq] at h
          exact h.1.symm
        have absent : ∀ l ∈ running, l.recipe ≠ some recipe := by
          intro l hmem
          simpa using List.find?_eq_none.mp found l hmem
        refine ⟨Nat.lt_of_not_le room, by rw [hstep]; rfl, by rw [hstep]; rfl,
          by rw [hstep]; rfl, ?_, ?_⟩
        · refine ⟨by rw [hstep]; exact Nat.lt_of_not_le room, fun hp => ?_,
            fun _ => by rw [hstep]; exact hq⟩
          rw [quiet] at hp
          cases hp
        · intro other hsome
          obtain rfl : recipe = other := by simpa [asked] using hsome
          exact Or.inr ⟨probing, running, via, rfl, absent⟩

theorem probed_listed (run : ControlRun) {recipe : RecipeId} {running : List RunningLaunch}
    (via : Option NodeId) (listed : ∃ l ∈ running, l.recipe = some recipe) :
    ∃ launch ∈ running, launch.recipe = some recipe ∧
      run.probed recipe running via =
        (run, .done (.alreadyRunning recipe launch via run.sent)) := by
  obtain ⟨launch, found⟩ : ∃ launch,
      running.find? (fun l => l.recipe = some recipe) = some launch := by
    obtain ⟨l, hl, hr⟩ := listed
    exact Option.isSome_iff_exists.mp (List.find?_isSome.mpr ⟨l, hl, by simpa using hr⟩)
  refine ⟨launch, List.mem_of_find?_eq_some found, ?_, ?_⟩
  · simpa using List.find?_some found
  · simp [probed, found]

theorem answered_probe {run : ControlRun} {recipe : RecipeId} (running : List RunningLaunch)
    (via : Option NodeId) (asked : run.launchedRecipe = some recipe)
    (probing : run.probing = true) :
    run.answered (.status running) via = run.probed recipe running via := by
  unfold answered
  rw [asked, probing]

theorem answered_send {run : ControlRun} {asked q : ControlReq} {rep : ControlRep}
    {via : Option NodeId} {pause : Nat} (live : run.Live asked)
    (h : (run.answered rep via).2 = .send q pause) :
    run.Continues (.answered rep via) (run.answered rep via).1 q := by
  unfold answered at h ⊢
  split at h
  · next running recipe hrecipe hprobing =>
      obtain ⟨-, lost, -⟩ := live.probe hprobing
      exact probed_send hprobing lost hrecipe h
  · cases h

theorem record_send {run : ControlRun} {asked q : ControlReq} {a : Attempt} {pause : Nat}
    (live : run.Live asked) (h : (run.record a).2 = .send q pause) :
    run.Continues a (run.record a).1 q := by
  unfold record at h ⊢
  split at h
  · exact lost_send _ h
  · next by_ node relay detail via =>
      have c := lost_send (.answered (.refused by_ (.relayRefused node relay detail true)) via) h
      exact ⟨c.room, c.sent, c.req, c.budget, c.live, c.cleared⟩
  · cases h
  · next rep via _ _ =>
      have live' : { run with lastResponder := some run.target }.Live asked :=
        ⟨live.within, live.probe, live.plain⟩
      have c := answered_send live' h
      exact ⟨c.room, c.sent, c.req, c.budget, c.live, c.cleared⟩

theorem start_send (target : NodeId) (req : ControlReq) (budget : RetryBudget) :
    ∃ run pause, start target req budget = (run, .send req pause) ∧ run.Live req ∧
      run.sent = 1 ∧ run.req = req ∧ run.budget = budget ∧ run.probing = false := by
  have quiet := send_req ⟨target, req, budget, 0, false, none, none⟩
  refine ⟨(start target req budget).1, 0, rfl, ⟨budget.nonzero, fun hp => ?_, fun _ => rfl⟩,
    rfl, rfl, rfl, quiet⟩
  rw [show (start target req budget).1.probing = false from quiet] at hp
  cases hp

@[simp] theorem follow_done (run : ControlRun) (o : Outcome) (as : List Attempt) :
    run.follow (.done o) as = ([], .done o) := by
  cases as <;> rfl

@[simp] theorem follow_waiting (run : ControlRun) (req : ControlReq) (pause : Nat) :
    run.follow (.send req pause) [] = ([(req, none)], .send req pause) := rfl

theorem follow_answered (run : ControlRun) (req : ControlReq) (pause : Nat) (a : Attempt)
    (as : List Attempt) :
    run.follow (.send req pause) (a :: as) =
      ((req, some a) :: ((run.record a).1.follow (run.record a).2 as).1,
        ((run.record a).1.follow (run.record a).2 as).2) := rfl

/-- A run awaiting an answer makes no more sends than its budget has left. -/
theorem follow_length {run : ControlRun} {q : ControlReq} (live : run.Live q) (pause : Nat)
    (as : List Attempt) :
    (run.follow (.send q pause) as).1.length ≤ run.budget.attempts + 1 - run.sent := by
  induction as generalizing run q pause with
  | nil =>
      have := live.within
      simp only [follow_waiting, List.length_singleton]
      omega
  | cons a as ih =>
      have := live.within
      rw [follow_answered]
      cases hstep : (run.record a).2 with
      | done o =>
          simp only [follow_done, List.length_cons, List.length_nil]
          omega
      | send next wait =>
          have c := record_send live hstep
          have tail := ih c.live wait
          have := c.room
          rw [c.sent, c.budget] at tail
          simp only [List.length_cons]
          omega

/-- As many attempts as sends are left end the run. -/
theorem follow_ends {run : ControlRun} {q : ControlReq} (live : run.Live q) (pause : Nat)
    (as : List Attempt) (enough : run.budget.attempts + 1 - run.sent ≤ as.length) :
    ∃ o, (run.follow (.send q pause) as).2 = .done o := by
  induction as generalizing run q pause with
  | nil =>
      have := live.within
      simp only [List.length_nil] at enough
      omega
  | cons a as ih =>
      rw [follow_answered]
      cases hstep : (run.record a).2 with
      | done o => exact ⟨o, by simp⟩
      | send next wait =>
          have c := record_send live hstep
          apply ih c.live
          rw [c.sent, c.budget]
          simp only [List.length_cons] at enough
          omega

/-- A relay's report that its own leg was lost; every other refusal is an answer. -/
def Transient : AgentError → Prop
  | .relayRefused _ _ _ true => True
  | _ => False

theorem record_refused (run : ControlRun) (by_ : NodeId) (error : AgentError)
    (via : Option NodeId) (final : ¬ Transient error) :
    run.record (.answered (.refused by_ error) via) =
      (run, .done (.refused by_ error via run.sent)) := by
  unfold record
  split
  · next h => cases h
  · next h =>
      cases h
      exact absurd trivial final
  · next h =>
      cases h
      rfl
  · next _ via' _ answer h =>
      cases h
      exact (answer by_ error rfl).elim

/-- Wherever in a run a final refusal is met, it is the last thing the run sees. -/
theorem follow_refused {run : ControlRun} {q asked : ControlReq} {pause : Nat}
    {as : List Attempt} {pre post : List Exchange} {by_ : NodeId} {error : AgentError}
    {via : Option NodeId} (live : run.Live q) (final : ¬ Transient error)
    (h : (run.follow (.send q pause) as).1 =
      pre ++ (asked, some (.answered (.refused by_ error) via)) :: post) :
    post = [] ∧ (run.follow (.send q pause) as).2 =
      .done (.refused by_ error via (run.sent + pre.length)) := by
  induction as generalizing run q pause pre with
  | nil =>
      cases pre with
      | nil => simp at h
      | cons e pre => simp at h
  | cons a as ih =>
      rw [follow_answered] at h ⊢
      cases pre with
      | nil =>
          simp only [List.nil_append, List.cons.injEq, Prod.mk.injEq, Option.some.injEq] at h
          obtain ⟨⟨-, rfl⟩, htail⟩ := h
          rw [record_refused run by_ error via final] at htail ⊢
          simp only [follow_done] at htail ⊢
          exact ⟨htail.symm, rfl⟩
      | cons e pre =>
          simp only [List.cons_append, List.cons.injEq] at h
          obtain ⟨-, htail⟩ := h
          cases hstep : (run.record a).2 with
          | done o =>
              rw [hstep] at htail
              simp at htail
          | send next wait =>
              have c := record_send live hstep
              rw [hstep] at htail
              obtain ⟨hpost, hend⟩ := ih c.live htail
              refine ⟨hpost, ?_⟩
              rw [hend, c.sent, List.length_cons]
              congr 2
              omega

/-- An answered status that does not list the recipe. -/
def Clears (recipe : RecipeId) (e : Exchange) : Prop :=
  ∃ running via, e = (.status, some (.answered (.status running) via)) ∧
    ∀ l ∈ running, l.recipe ≠ some recipe

def IsLaunch (e : Exchange) : Prop := ∃ recipe settings, e.1 = .launch recipe settings

/-- The discipline of the sends of a launch run, read from the front: a launch
needs clearance, sending it spends the clearance, a clearing status renews it. -/
def Cleared (recipe : RecipeId) : Prop → List Exchange → Prop
  | _, [] => True
  | clear, e :: rest =>
      (IsLaunch e → clear) ∧
        Cleared recipe ((clear ∧ ¬ IsLaunch e) ∨ Clears recipe e) rest

theorem Cleared.mono {recipe : RecipeId} {es : List Exchange} {a b : Prop}
    (h : Cleared recipe a es) (hab : a → b) : Cleared recipe b es := by
  induction es generalizing a b with
  | nil => trivial
  | cons e es ih =>
      refine ⟨fun hl => hab (h.1 hl), ih h.2 ?_⟩
      rintro (⟨ha, hn⟩ | hc)
      · exact Or.inl ⟨hab ha, hn⟩
      · exact Or.inr hc

theorem Cleared.suffix {recipe : RecipeId} {pre es : List Exchange} {a : Prop}
    (h : Cleared recipe a (pre ++ es)) : ∃ b, Cleared recipe b es := by
  induction pre generalizing a with
  | nil => exact ⟨a, h⟩
  | cons e pre ih => exact ih h.2

/-- Without clearance, a launch is preceded by a status that clears it. -/
theorem Cleared.before {recipe : RecipeId} {mid post : List Exchange} {e : Exchange}
    (h : Cleared recipe False (mid ++ e :: post)) (launch : IsLaunch e) :
    ∃ s ∈ mid, Clears recipe s := by
  induction mid with
  | nil => exact absurd (h.1 launch) not_false
  | cons s mid ih =>
      by_cases hs : Clears recipe s
      · exact ⟨s, List.mem_cons_self, hs⟩
      · have rest : Cleared recipe False (mid ++ e :: post) := by
          refine h.2.mono ?_
          rintro (⟨hf, -⟩ | hc)
          · exact hf
          · exact hs hc
        obtain ⟨t, ht, hc⟩ := ih rest
        exact ⟨t, List.mem_cons_of_mem _ ht, hc⟩

theorem Cleared.between {recipe : RecipeId} {pre mid post : List Exchange}
    {d e : Exchange} {a : Prop} (h : Cleared recipe a (pre ++ d :: (mid ++ e :: post)))
    (first : IsLaunch d) (second : IsLaunch e) : ∃ s ∈ mid, Clears recipe s := by
  obtain ⟨b, hb⟩ := h.suffix
  refine Cleared.before (hb.2.mono ?_) second
  rintro (⟨-, hn⟩ | ⟨running, via, hd, -⟩)
  · exact hn first
  · obtain ⟨r, settings, hr⟩ := first
    rw [hd] at hr
    cases hr

theorem follow_cleared {run : ControlRun} {q : ControlReq} {recipe : RecipeId}
    (live : run.Live q) (asked : run.launchedRecipe = some recipe) (pause : Nat)
    (as : List Attempt) :
    Cleared recipe (run.probing = false) (run.follow (.send q pause) as).1 := by
  have quiet (x : Option Attempt) : IsLaunch (q, x) → run.probing = false := by
    rintro ⟨r, settings, hq⟩
    cases hp : run.probing with
    | false => rfl
    | true =>
        rw [(live.probe hp).1] at hq
        cases hq
  induction as generalizing run q pause with
  | nil => exact ⟨quiet none, trivial⟩
  | cons a as ih =>
      rw [follow_answered]
      refine ⟨quiet (some a), ?_⟩
      cases hstep : (run.record a).2 with
      | done o =>
          rw [follow_done]
          trivial
      | send next wait =>
          have c := record_send live hstep
          have asked' : (run.record a).1.launchedRecipe = some recipe := by
            unfold launchedRecipe at asked ⊢
            rw [c.req]
            exact asked
          have probe (x : Option Attempt) : IsLaunch (next, x) →
              (run.record a).1.probing = false := by
            rintro ⟨r, settings, hq⟩
            cases hp : (run.record a).1.probing with
            | false => rfl
            | true =>
                rw [(c.live.probe hp).1] at hq
                cases hq
          refine (ih c.live asked' wait probe).mono ?_
          intro idle
          rcases c.cleared recipe asked with probes | ⟨probing, running, via, rfl, absent⟩
          · rw [idle] at probes
            cases probes
          · exact Or.inr ⟨running, via, by rw [(live.probe probing).1], absent⟩

/-- A status that lists the recipe ends a launch run: it is reported running. -/
theorem follow_listed {run : ControlRun} {q : ControlReq} {pause : Nat} {recipe : RecipeId}
    {as : List Attempt} {pre post : List Exchange} {running : List RunningLaunch}
    {via : Option NodeId} (live : run.Live q) (asked : run.launchedRecipe = some recipe)
    (listed : ∃ l ∈ running, l.recipe = some recipe)
    (h : (run.follow (.send q pause) as).1 =
      pre ++ (.status, some (.answered (.status running) via)) :: post) :
    post = [] ∧ ∃ launch ∈ running, launch.recipe = some recipe ∧
      (run.follow (.send q pause) as).2 =
        .done (.alreadyRunning recipe launch via (run.sent + pre.length)) := by
  induction as generalizing run q pause pre with
  | nil =>
      cases pre with
      | nil => simp at h
      | cons e pre => simp at h
  | cons a as ih =>
      rw [follow_answered] at h ⊢
      cases pre with
      | nil =>
          simp only [List.nil_append, List.cons.injEq, Prod.mk.injEq, Option.some.injEq] at h
          obtain ⟨⟨rfl, rfl⟩, htail⟩ := h
          have probing : run.probing = true := by
            cases hp : run.probing with
            | true => rfl
            | false =>
                obtain ⟨settings, hreq⟩ := req_of_launchedRecipe asked
                have := live.plain hp
                rw [hreq] at this
                cases this
          obtain ⟨launch, hmem, hr, ended⟩ :=
            probed_listed { run with lastResponder := some run.target } via listed
          have hrec : run.record (.answered (.status running) via) =
              ({ run with lastResponder := some run.target },
                .done (.alreadyRunning recipe launch via run.sent)) := by
            rw [← ended]
            exact answered_probe running via asked probing
          rw [hrec] at htail ⊢
          simp only [follow_done] at htail ⊢
          exact ⟨htail.symm, launch, hmem, hr, rfl⟩
      | cons e pre =>
          simp only [List.cons_append, List.cons.injEq] at h
          obtain ⟨-, htail⟩ := h
          cases hstep : (run.record a).2 with
          | done o =>
              rw [hstep] at htail
              simp at htail
          | send next wait =>
              have c := record_send live hstep
              have asked' : (run.record a).1.launchedRecipe = some recipe := by
                unfold launchedRecipe at asked ⊢
                rw [c.req]
                exact asked
              rw [hstep] at htail
              obtain ⟨hpost, launch, hmem, hr, hend⟩ := ih c.live asked' htail
              refine ⟨hpost, launch, hmem, hr, ?_⟩
              rw [hend, c.sent, List.length_cons]
              congr 2
              omega

/-- With a send of the budget for each, the driver never runs out of fuel. -/
theorem drive_ends (attempt : Nat → ControlReq → Except AgentError Attempt)
    {run : ControlRun} {q : ControlReq} {pause fuel : Nat} (live : run.Live q)
    (enough : run.budget.attempts + 1 - run.sent ≤ fuel) :
    (drive attempt fuel run (.send q pause)).isSome := by
  induction fuel generalizing run q pause with
  | zero =>
      have := live.within
      omega
  | succ fuel ih =>
      simp only [drive]
      cases attempt run.sent q with
      | error e => rfl
      | ok a =>
          simp only
          cases hstep : (run.record a).2 with
          | done o => simp [drive]
          | send next wait =>
              have c := record_send live hstep
              apply ih c.live
              rw [c.sent, c.budget]
              omega

section WholeRun
variable (target : NodeId) (req : ControlReq) (budget : RetryBudget) (attempts : List Attempt)

theorem runAll_length : (runAll target req budget attempts).1.length ≤ budget.attempts := by
  obtain ⟨run, pause, hstart, live, hsent, -, hbudget, -⟩ := start_send target req budget
  have := follow_length live pause attempts
  rw [hsent, hbudget] at this
  simpa [runAll, hstart] using this

theorem runAll_ends (enough : budget.attempts ≤ attempts.length) :
    ∃ o, (runAll target req budget attempts).2 = .done o := by
  obtain ⟨run, pause, hstart, live, hsent, -, hbudget, -⟩ := start_send target req budget
  have room : run.budget.attempts + 1 - run.sent ≤ attempts.length := by
    rw [hsent, hbudget]
    omega
  simpa [runAll, hstart] using follow_ends live pause attempts room

variable {target req budget attempts}

theorem runAll_refused {pre post : List Exchange} {asked : ControlReq} {by_ : NodeId}
    {error : AgentError} {via : Option NodeId} (final : ¬ Transient error)
    (h : (runAll target req budget attempts).1 =
      pre ++ (asked, some (.answered (.refused by_ error) via)) :: post) :
    post = [] ∧ (runAll target req budget attempts).2 =
      .done (.refused by_ error via (pre.length + 1)) := by
  obtain ⟨run, pause, hstart, live, hsent, -⟩ := start_send target req budget
  simp only [runAll, hstart] at h ⊢
  obtain ⟨hpost, hend⟩ := follow_refused live final h
  refine ⟨hpost, ?_⟩
  rw [hend, hsent, Nat.add_comm]

theorem start_launchedRecipe {run : ControlRun} {recipe : RecipeId} {settings : Settings}
    (h : run.req = .launch recipe settings) : run.launchedRecipe = some recipe := by
  simp [launchedRecipe, h]

variable (target budget attempts) in
theorem runAll_cleared {recipe : RecipeId} {settings : Settings}
    (launch : req = .launch recipe settings) :
    Cleared recipe True (runAll target req budget attempts).1 := by
  obtain ⟨run, pause, hstart, live, -, hreq, -⟩ := start_send target req budget
  have asked := start_launchedRecipe (hreq.trans launch)
  simp only [runAll, hstart]
  exact (follow_cleared live asked pause attempts).mono fun _ => trivial

theorem runAll_listed {recipe : RecipeId} {settings : Settings} {pre post : List Exchange}
    {running : List RunningLaunch} {via : Option NodeId}
    (launch : req = .launch recipe settings) (listed : ∃ l ∈ running, l.recipe = some recipe)
    (h : (runAll target req budget attempts).1 =
      pre ++ (.status, some (.answered (.status running) via)) :: post) :
    post = [] ∧ ∃ found ∈ running, found.recipe = some recipe ∧
      (runAll target req budget attempts).2 =
        .done (.alreadyRunning recipe found via (pre.length + 1)) := by
  obtain ⟨run, pause, hstart, live, hsent, hreq, -⟩ := start_send target req budget
  have asked := start_launchedRecipe (hreq.trans launch)
  simp only [runAll, hstart] at h ⊢
  obtain ⟨hpost, found, hmem, hr, hend⟩ := follow_listed live asked listed h
  refine ⟨hpost, found, hmem, hr, ?_⟩
  rw [hend, hsent, Nat.add_comm]

end WholeRun

/-- The whole discipline of a run: its budget, its end, what a refusal does to
it, and what stands between two launches. -/
theorem runAll_disciplined (target : NodeId) (req : ControlReq) (budget : RetryBudget)
    (attempts : List Attempt) :
    (runAll target req budget attempts).1.length ≤ budget.attempts ∧
    (budget.attempts ≤ attempts.length →
      ∃ o, (runAll target req budget attempts).2 = .done o) ∧
    (∀ attempt : Nat → ControlReq → Except AgentError Attempt,
      (drive attempt budget.attempts (start target req budget).1
        (start target req budget).2).isSome) ∧
    (∀ (pre : List Exchange) (asked : ControlReq) (by_ : NodeId) (error : AgentError)
        (via : Option NodeId) (post : List Exchange), ¬ Transient error →
      (runAll target req budget attempts).1 =
        pre ++ (asked, some (.answered (.refused by_ error) via)) :: post →
      post = [] ∧ (runAll target req budget attempts).2 =
        .done (.refused by_ error via (pre.length + 1))) ∧
    (∀ recipe settings, req = .launch recipe settings →
      (∀ (pre : List Exchange) (d : Exchange) (mid : List Exchange) (e : Exchange)
          (post : List Exchange),
        (runAll target req budget attempts).1 = pre ++ d :: (mid ++ e :: post) →
        IsLaunch d → IsLaunch e → ∃ s ∈ mid, Clears recipe s) ∧
      (∀ (pre : List Exchange) (running : List RunningLaunch) (via : Option NodeId)
          (post : List Exchange), (∃ l ∈ running, l.recipe = some recipe) →
        (runAll target req budget attempts).1 =
          pre ++ (.status, some (.answered (.status running) via)) :: post →
        post = [] ∧ ∃ found ∈ running, found.recipe = some recipe ∧
          (runAll target req budget attempts).2 =
            .done (.alreadyRunning recipe found via (pre.length + 1)))) := by
  refine ⟨runAll_length target req budget attempts, runAll_ends target req budget attempts,
    ?_, ?_, ?_⟩
  · intro attempt
    obtain ⟨run, pause, hstart, live, hsent, -, hbudget, -⟩ := start_send target req budget
    rw [hstart]
    apply drive_ends attempt live
    rw [hsent, hbudget]
    omega
  · intro pre asked by_ error via post final h
    exact runAll_refused final h
  · intro recipe settings launch
    refine ⟨?_, ?_⟩
    · intro pre d mid e post h first second
      have cleared := runAll_cleared target budget attempts launch
      rw [h] at cleared
      exact cleared.between first second
    · intro pre running via post listed h
      exact runAll_listed launch listed h

/-- A launch whose first reply is lost, whose status read comes back without the
recipe, and whose second launch is refused: the status stands between the two. -/
theorem runAll_disciplined_lost_launch :
    let recipe : RecipeId := ⟨"qwen3", by decide⟩
    let budget : RetryBudget := ⟨3, 5, by decide, by decide⟩
    let lost : Attempt := .lost (.notRoutable 7 "no answer")
    let idle : Attempt := .answered (.status []) none
    let busy : Attempt := .answered (.refused 7 (.alreadyRunning recipe)) none
    (runAll 7 (.launch recipe []) budget [lost, idle, busy]).2 =
      .done (.refused 7 (.alreadyRunning recipe) none 3) ∧
    ∃ s ∈ [((.status, some idle) : Exchange)], Clears recipe s := by
  intro recipe budget lost idle busy
  have trace : (runAll 7 (.launch recipe []) budget [lost, idle, busy]).1 =
      ([] : List Exchange) ++ ((.launch recipe [], some lost) : Exchange) ::
        ([((.status, some idle) : Exchange)] ++ ((.launch recipe [], some busy) : Exchange) :: []) := by
    rfl
  obtain ⟨-, -, -, refused, launches⟩ :=
    runAll_disciplined 7 (.launch recipe []) budget [lost, idle, busy]
  have final : ¬ Transient (.alreadyRunning recipe) := not_false
  refine ⟨(refused [(.launch recipe [], some lost), (.status, some idle)] _ 7 _ none []
    final trace).2, ?_⟩
  exact (launches recipe [] rfl).1 _ _ _ _ _ trace ⟨recipe, [], rfl⟩ ⟨recipe, [], rfl⟩

end ControlRun
end Metralectl
