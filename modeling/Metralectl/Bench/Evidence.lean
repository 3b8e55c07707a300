import Metralectl.Bench.Machine

/-!
What an outcome that passed can show for it: the record and the signature are picked each
for itself from what was collected, and nothing asks for a record of a child that failed,
nor of one that was resumed. What is journaled and saved at the end is judged with what is
returned.
-/
namespace Metralectl
namespace Bench
open Programs Machine

namespace Outcome

/-- Did the child complete with a verdict that passes? -/
def passed : Outcome → Bool
  | .completed _ (some v) _ _ => v.kind = .pass
  | _ => false

def record : Outcome → Option String
  | .completed _ _ record _ => record
  | _ => none

def signature : Outcome → Option String
  | .completed _ _ _ signature => signature
  | _ => none

/-- It names a record if it passed, and the record's own signature. -/
def Evident (o : Outcome) : Prop :=
  (o.passed = true → o.record ≠ none) ∧
    ∀ r s, o.record = some r → o.signature = some s → s = r ++ ".sig"

end Outcome

/-- The path of the first artifact of a kind. -/
def firstPath (kind : ArtifactKind) (artifacts : List ArtifactMeta) : Option String :=
  (artifacts.find? (·.kind = kind)).map (·.relativePath)

/-- What the ports said of the child: how the wait for it ended, and what it left. -/
structure Said where
  ended : Option (Except String RunEnd)
  artifacts : Option (List ArtifactMeta)

namespace Said

def hear (s : Said) : (q : Ask) → Answer q → Said
  | .wait _ _, watched => { s with ended := some watched.ended }
  | .collect _ _ _ _, .ok artifacts => { s with artifacts := some artifacts }
  | _, _ => s

/-- Where a child exited and what it left was collected, and the run is not failed for want of
a record: a verdict that passes has a record, and the first signature is the first record's. -/
def Evidenced (fresh : Bool) (s : Said) : Prop :=
  ∀ code verdict artifacts, s.ended = some (.ok (.exited code verdict)) →
    s.artifacts = some artifacts →
    ¬(fresh = true ∧ code = 0 ∧ firstPath .record artifacts = none) →
    ((∃ v, verdict = some v ∧ v.kind = .pass) → firstPath .record artifacts ≠ none) ∧
      ∀ r s, firstPath .record artifacts = some r → firstPath .signature artifacts = some s →
        s = r ++ ".sig"

end Said

/-- The surroundings of a procedure, and what they said so far. -/
def hearing : Surroundings Said Ask Answer := fun s q a t => t = s.hear q a

section Outcomes
variable {s : Said} {job : JobRecord} {fresh : Bool}

/-- An outcome that is journaled as the end, or saved with the record of a job that is
over, is evident just if what the ports have said by then is. -/
def Recording (fresh : Bool) (s : Said) : Ask → Prop
  | .append (.done o) _ => o.Evident ↔ s.Evidenced fresh
  | .save job => job.state = .done → ∃ o, job.outcome = some o ∧ (o.Evident ↔ s.Evidenced fresh)
  | _ => True

/-- Of what a procedure returns. -/
abbrev Gives (fresh : Bool) (p : Proc Outcome) (s : Said) : Prop :=
  Always hearing (fun _ _ => True) (fun o t => o.Evident ↔ t.Evidenced fresh) (fun _ _ => True) p s

/-- Of what it journals, saves and returns. -/
abbrev Shows (fresh : Bool) (p : Proc Outcome) (s : Said) : Prop :=
  Always hearing (Recording fresh) (fun o t => o.Evident ↔ t.Evidenced fresh) (fun _ _ => True) p s

theorem hear_plain {q : Ask} (plain : q.plain = true) (a : Answer q) : s.hear q a = s := by
  cases q with
  | spawn _ => cases plain
  | wait _ _ => cases plain
  | collect _ _ _ _ => cases plain
  | _ => rfl

/-- Plain questions are of no consequence to the evidence. -/
theorem Gives.only {α : Type} {p : Proc α} {f : α → Proc Outcome}
    (plain : Only (fun q : Ask => q.plain = true) p) (rest : ∀ a, Gives fresh (f a) s) :
    Gives fresh (p >>= f) s := by
  refine Always.keeps (I := fun t => t = s) plain rfl (fun _ _ _ _ => trivial) ?_
    (fun _ _ _ => trivial) ?_
  · rintro _ q a t rfl plain served
    exact served.trans (hear_plain plain a)
  · rintro a t rfl
    exact rest a

theorem Gives.call {q : Ask} {f : Answer q → Proc Outcome}
    (rest : ∀ a, Gives fresh (f a) (s.hear q a)) : Gives fresh (Bench.call q >>= f) s := by
  refine ⟨trivial, fun a t served => ?_⟩
  rw [served]
  exact rest a

theorem gives_finish {outcome : Outcome} (h : outcome.Evident ↔ s.Evidenced fresh) :
    Gives fresh (finish job outcome) s := by
  unfold finish
  exact Gives.only (plain_emit _ _) fun _ => Gives.only (plain_transition _ _) fun _ => h

theorem evident_of_not_completed {outcome : Outcome} (h : outcome.isCompleted = false) :
    outcome.Evident := by
  cases outcome with
  | completed _ _ _ _ => cases h
  | _ => exact ⟨nofun, nofun⟩

theorem gives_over {outcome : Outcome} (h : outcome.isCompleted = false)
    (silent : s.artifacts = none) : Gives fresh (finish job outcome) s := by
  refine gives_finish ⟨fun _ => ?_, fun _ => evident_of_not_completed h⟩
  intro code verdict artifacts _ collected
  rw [silent] at collected
  cases collected

theorem gives_collecting {ctx : Ctx} {worktree : String} {code : Int32} {verdict : Option Verdict}
    (ended : s.ended = some (.ok (.exited code verdict))) (silent : s.artifacts = none) :
    Gives fresh (collectingAs ctx job worktree fresh code verdict) s := by
  refine Gives.only (plain_transition _ _) fun job => Gives.call ?_
  rintro (e | artifacts)
  · exact gives_over rfl silent
  · refine Gives.only (plain_emitArtifacts _ _) fun job => ?_
    have exact_ (code' : Int32) (verdict' : Option Verdict) (artifacts' : List ArtifactMeta) :
        s.ended = some (.ok (.exited code' verdict')) → some artifacts = some artifacts' →
          code' = code ∧ verdict' = verdict ∧ artifacts' = artifacts := by
      rw [ended]
      rintro ⟨⟩ ⟨⟩
      exact ⟨rfl, rfl, rfl⟩
    split
    · next missing =>
        refine gives_finish ⟨fun _ => ?_, fun _ => evident_of_not_completed rfl⟩
        intro code' verdict' artifacts' ended' collected kept
        obtain ⟨rfl, rfl, rfl⟩ := exact_ code' verdict' artifacts' ended' collected
        exact absurd missing kept
    · next there =>
        refine gives_finish ⟨?_, fun evidenced => ?_⟩
        · intro evident code' verdict' artifacts' ended' collected _
          obtain ⟨rfl, rfl, rfl⟩ := exact_ code' verdict' artifacts' ended' collected
          refine ⟨?_, evident.2⟩
          rintro ⟨v, rfl, passes⟩
          exact evident.1 (decide_eq_true passes)
        · have shown := evidenced code verdict artifacts ended rfl there
          refine ⟨fun passed => shown.1 ?_, shown.2⟩
          cases verdict with
          | none => cases passed
          | some v => exact ⟨v, rfl, of_decide_eq_true passed⟩

theorem gives_waiting {ctx : Ctx} {worktree : String} {child : ChildHandle} {plan : RunPlan}
    (silent : s.artifacts = none) :
    Gives fresh (waitingAs ctx job worktree fresh child plan) s := by
  refine Gives.call fun watched => Gives.only (plain_report _) fun _ => Gives.call fun high => ?_
  split
  · next code verdict ended =>
      have heard : (s.hear (.wait child plan) watched).ended = some (.ok (.exited code verdict)) :=
        congrArg some ended
      cases verdict with
      | some v => exact Gives.only (plain_emit _ _) fun _ => gives_collecting heard silent
      | none => exact gives_collecting heard silent
  · exact gives_over rfl silent
  · exact gives_over rfl silent
  · exact gives_over rfl silent
  · exact gives_over rfl silent

theorem gives_resumedWaiting {ctx : Ctx} {worktree : String} {child : ChildHandle} {plan : RunPlan}
    (silent : s.artifacts = none) :
    Gives false (resumedWaiting ctx job worktree child plan) s := by
  rw [resumedWaiting_eq]
  exact gives_waiting silent

theorem gives_heads {ctx : Ctx} {p : Proc Outcome} (heads : Heads ctx p)
    (silent : s.artifacts = none) : Gives true p s := by
  induction heads with
  | stop => trivial
  | look plain _ ih =>
      refine ⟨trivial, fun a t served => ?_⟩
      rw [served, hear_plain plain]
      exact ih a
  | over_ early => exact gives_over early silent
  | spawn fails goes_on =>
      refine ⟨trivial, ?_⟩
      rintro (e | child) t rfl
      · rw [(fails e).1]
        exact gives_over (fails e).2 silent
      · rw [goes_on]
        exact Gives.only (plain_transition _ _) fun _ =>
          Gives.only (plain_emit _ _) fun _ => waiting_eq .. ▸ gives_waiting silent

/-- What is returned by a finish is what it journals and saves before. -/
theorem shows_finish {outcome : Outcome} (gives : Gives fresh (finish job outcome) s) :
    Shows fresh (finish job outcome) s := by
  have judged : outcome.Evident ↔ s.Evidenced fresh :=
    (((((gives.2 0 s rfl).2 .ok s rfl).2 0 s rfl).2 0 s rfl).2 0 s rfl).2 true s rfl
  refine ⟨trivial, fun now t served => ?_⟩
  cases served
  refine ⟨judged, ?_⟩
  rintro (_ | _ | _) t served
  · cases served
    refine ⟨trivial, fun high t served => ?_⟩
    cases served
    refine ⟨trivial, fun now' t served => ?_⟩
    cases served
    refine ⟨trivial, fun high' t served => ?_⟩
    cases served
    refine ⟨fun _ => ⟨outcome, rfl, judged⟩, ?_⟩
    rintro (_ | _) t served
    · trivial
    · cases served
      exact judged
  · trivial
  · trivial

/-- In a life nothing is recorded but by its finish: by its form. -/
theorem Gives.shows {sub : JobId × JobKey × NodeId × JobSpec × Option String × Nat}
    {p : Proc Outcome} (lives : Lives sub p) (gives : Gives fresh p s) : Shows fresh p s := by
  induction lives generalizing s with
  | @look q k silent _ ih =>
      refine ⟨?_, fun a t served => ih a (gives.2 a t served)⟩
      cases q with
      | append | save => cases silent
      | _ => trivial
  | @event kind atMs k plain _ stops ih =>
      refine ⟨?_, fun a t served => ?_⟩
      · cases kind with
        | done => cases plain
        | _ => trivial
      · by_cases written : a = .ok
        · subst written
          exact ih (gives.2 .ok t served)
        · rw [stops a written]
          trivial
  | @report kind atMs k plain _ ih =>
      refine ⟨?_, fun a t served => ih a (gives.2 a t served)⟩
      cases kind with
      | done => cases plain
      | _ => trivial
  | record _ _ open_ _ stops ih =>
      refine ⟨fun over_ => absurd over_ open_, ?_⟩
      rintro (_ | _) t served
      · rw [stops]
        trivial
      · exact ih (gives.2 true t served)
  | over_ _ => exact shows_finish gives

end Outcomes

/-- Of every outcome either procedure records or returns: it is evident just if what the
ports have said by then is. -/
theorem passed_evident_iff (ctx : Ctx) (job : JobRecord) :
    Shows true (run ctx job) ⟨none, none⟩ ∧ Shows false (resumeRunning ctx job) ⟨none, none⟩ := by
  constructor
  · exact Gives.shows (lives_run ctx rfl) (gives_heads (heads_run ctx job) rfl)
  · refine Gives.shows (lives_resumeRunning ctx rfl) ?_
    unfold resumeRunning
    split
    · refine Gives.call ?_
      rintro (e | worktree)
      · exact gives_over rfl rfl
      · exact gives_resumedWaiting rfl
    · exact gives_over rfl rfl

/-- The child printed that it passes, and exited with a failure and no record. -/
theorem passed_without_record :
    ∃ o, (run plainCtx (queuedUnder ⟨"k", by decide⟩)).under
        (serving ⟨[], .ok (.exited 1 (some ⟨.pass, "ok"⟩))⟩ []) = .ok o ∧
      o.passed = true ∧ o.record = none :=
  ⟨.completed 1 (some ⟨.pass, "ok"⟩) none none, by rfl, rfl, rfl⟩

end Bench
end Metralectl
