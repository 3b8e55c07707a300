import Metralectl.Bench.Machine

/-!
What must have been asked and answered before a child is spawned, and the states a run saves
on its way to its end.
-/
namespace Metralectl
namespace Bench
open Programs Machine

/-- A question of a run, and what was answered. -/
structure Exchange where
  asked : Ask
  answer : Answer asked

namespace Exchange

/-- The state of a record that was saved. -/
def saved : Exchange → Option JobState
  | ⟨.save job, written⟩ => if written = true then some job.state else none
  | _ => none

/-- Whether a look at the cancel flag saw it set. -/
def look : Exchange → Option Bool
  | ⟨.cancelled, seen⟩ => some seen
  | _ => none

def spawns : Exchange → Bool
  | ⟨.spawn _, _⟩ => true
  | _ => false

/-- Whether it is a write that failed. -/
def lost : Exchange → Bool
  | ⟨.save _, written⟩ => !written
  | ⟨.append _ _, written⟩ => decide (written ≠ .ok)
  | _ => false

end Exchange

/-- Whether a question is no spawn, no save and no look at the flag. -/
def Ask.still : Ask → Bool
  | .spawn _ | .save _ | .cancelled => false
  | _ => true

/-- A run so far, the latest exchange last. -/
abbrev Trail := List Exchange

namespace Trail

def saved (h : Trail) : List JobState := h.filterMap Exchange.saved

def lastLook (h : Trail) : Option Bool := (h.filterMap Exchange.look).getLast?

def Unspawned (h : Trail) : Prop := ∀ e ∈ h, e.spawns = false

def Lost (h : Trail) : Prop := ∃ e ∈ h, e.lost = true

/-- A binary that was found for the commit, or built of it in this run. -/
def Found (h : Trail) (sha : Sha) (binary : CachedBinary) : Prop :=
  (⟨.cachedBinary sha, .ok (.ok binary)⟩ : Exchange) ∈ h ∨
    ∃ worktree secs, (⟨.build sha worktree, .ok ⟨binary, secs⟩⟩ : Exchange) ∈ h

/-- A binary that lists the gate and has no complaint about the params. -/
def Accepts (h : Trail) (spec : JobSpec) (binary : CachedBinary) : Prop :=
  (∃ known, (⟨.knownGates binary.path, .ok known⟩ : Exchange) ∈ h ∧ spec.gate.text ∈ known) ∧
    (⟨.badParams binary.path spec.gate.text (spec.params.entries.map (·.1)), .ok []⟩ : Exchange) ∈ h

/-- What is settled of the commit before anything is built. -/
def Trusted (ctx : Ctx) (spec : JobSpec) (h : Trail) : Prop :=
  (⟨.hasCommit spec.sha, .ok true⟩ : Exchange) ∈ h ∧
    (ctx.allowUnpublished = true ∨ (⟨.published spec.sha, .ok true⟩ : Exchange) ∈ h)

/-- All that is settled when a child is spawned. -/
structure Cleared (ctx : Ctx) (spec : JobSpec) (plan : RunPlan) (h : Trail) : Prop where
  first : h.Unspawned
  trusted : h.Trusted ctx spec
  binary : ∃ binary, plan.argv.head? = some binary.path ∧ h.Found spec.sha binary ∧
    h.Accepts spec binary
  uncancelled : h.lastLook = some false

/-- The states saved on the way to the end; `building` again once the binary is known. -/
def onTheWay : List JobState := [.building, .building, .running, .collecting]

/-- A run that is over saved that it began, states on the way in their order, and the end. -/
def Ended (h : Trail) : Prop :=
  ∃ way, h.saved = JobState.preparing :: way ++ [JobState.done] ∧ way.Sublist onTheWay

/-- A run that is cut short lost a write, and what it saved before is in order. -/
def Cut (h : Trail) : Prop :=
  h.Lost ∧ h.saved.Sublist (JobState.preparing :: onTheWay ++ [JobState.done])

end Trail

/-- The surroundings of a run, and its trail. -/
def trailing : Surroundings Trail Ask Answer := fun h q a t => t = h ++ [⟨q, a⟩]

/-- A spawn is asked for where all is settled. -/
def Cautious (ctx : Ctx) (spec : JobSpec) (h : Trail) : Ask → Prop
  | .spawn plan => h.Cleared ctx spec plan
  | _ => True

/-- A part of a run that spawns only where all is settled, ends so, and is cut only by a
write that fails. -/
abbrev Clears {α : Type} (ctx : Ctx) (spec : JobSpec) (ends : α → Trail → Prop) (p : Proc α)
    (h : Trail) : Prop :=
  Always trailing (Cautious ctx spec) ends (fun _ t => t.Cut) p h

/-- What a part of a run without spawn or look at the flag adds: states it saved. -/
structure Since (h : Trail) (states : List JobState) (t : Trail) : Prop where
  kept : ∀ e ∈ h, e ∈ t
  saved : t.saved = h.saved ++ states
  unspawned : h.Unspawned → t.Unspawned
  looked : t.lastLook = h.lastLook

section Sinces
variable {h t u : Trail} {states states' : List JobState}

theorem Since.refl (h : Trail) : Since h [] h :=
  ⟨fun _ => id, (List.append_nil _).symm, id, rfl⟩

theorem Since.then (first : Since h states t) (rest : Since t states' u) :
    Since h (states ++ states') u where
  kept e he := rest.kept e (first.kept e he)
  saved := by rw [rest.saved, first.saved, List.append_assoc]
  unspawned hs := rest.unspawned (first.unspawned hs)
  looked := rest.looked.trans first.looked

theorem Since.one (e : Exchange) (states : List JobState) (silent : e.spawns = false)
    (unseen : e.look = none) (saved : e.saved.toList = states) : Since h states (h ++ [e]) where
  kept _ he := List.mem_append_left _ he
  saved := by
    rw [Trail.saved, List.filterMap_append, ← saved]
    cases here : e.saved <;> simp [Trail.saved, here]
  unspawned hs e' he' := by
    cases List.mem_append.mp he' with
    | inl old => exact hs e' old
    | inr new => rw [List.mem_singleton.mp new]; exact silent
  looked := by simp [Trail.lastLook, List.filterMap_append, unseen]

theorem Trail.Trusted.kept {ctx : Ctx} {spec : JobSpec} (trusted : h.Trusted ctx spec)
    (kept : ∀ e ∈ h, e ∈ t) : t.Trusted ctx spec :=
  ⟨kept _ trusted.1, trusted.2.imp_right (kept _)⟩

theorem Trail.Found.kept {sha : Sha} {binary : CachedBinary} (found : h.Found sha binary)
    (kept : ∀ e ∈ h, e ∈ t) : t.Found sha binary :=
  found.imp (kept _) fun ⟨worktree, secs, built⟩ => ⟨worktree, secs, kept _ built⟩

theorem Trail.Accepts.kept {spec : JobSpec} {binary : CachedBinary}
    (accepts : h.Accepts spec binary) (kept : ∀ e ∈ h, e ∈ t) : t.Accepts spec binary := by
  obtain ⟨⟨known, told, mem⟩, fine⟩ := accepts
  exact ⟨⟨known, kept _ told, mem⟩, kept _ fine⟩

end Sinces

/-- A run that began, and has come so far on its way. -/
def Trail.Upto (n : Nat) (h : Trail) : Prop :=
  ∃ way, h.saved = .preparing :: way ∧ way.Sublist (Trail.onTheWay.take n)

section Ways
variable {h t : Trail} {n : Nat}

theorem Trail.Upto.whole (upto : h.Upto n) :
    h.saved.Sublist (JobState.preparing :: Trail.onTheWay ++ [JobState.done]) := by
  obtain ⟨way, saved, sub⟩ := upto
  rw [saved]
  exact ((sub.trans (List.take_sublist _ _)).cons_cons _).trans (List.sublist_append_left _ _)

theorem Trail.Upto.since (upto : h.Upto n) (since : Since h [] t) : t.Upto n := by
  obtain ⟨way, saved, sub⟩ := upto
  exact ⟨way, by rw [since.saved, saved, List.append_nil], sub⟩

theorem Trail.Upto.next {state : JobState} (upto : h.Upto n) (since : Since h [state] t)
    (next : Trail.onTheWay[n]? = some state) : t.Upto (n + 1) := by
  obtain ⟨way, saved, sub⟩ := upto
  refine ⟨way ++ [state], by rw [since.saved, saved]; rfl, ?_⟩
  rw [List.take_add_one, next]
  exact sub.append (List.Sublist.refl _)

theorem Trail.Upto.ended (upto : h.Upto n) (since : Since h [.done] t) : t.Ended := by
  obtain ⟨way, saved, sub⟩ := upto
  exact ⟨way, by rw [since.saved, saved], sub.trans (List.take_sublist _ _)⟩

theorem saved_snoc (h : Trail) {e : Exchange} (unsaved : e.saved = none) :
    Trail.saved (h ++ [e]) = h.saved := by
  simp [Trail.saved, List.filterMap_append, unsaved]

theorem Trail.Upto.same {e : Exchange} (upto : h.Upto n) (unsaved : e.saved = none) :
    Trail.Upto n (h ++ [e]) := by
  unfold Trail.Upto
  rw [saved_snoc h unsaved]
  exact upto

theorem cut_of_lost {e : Exchange} (lost : e.lost = true) (unsaved : e.saved = none)
    (whole : h.saved.Sublist (JobState.preparing :: Trail.onTheWay ++ [JobState.done])) :
    Trail.Cut (h ++ [e]) := by
  refine ⟨⟨e, List.mem_append_right _ (List.mem_singleton_self _), lost⟩, ?_⟩
  rw [saved_snoc h unsaved]
  exact whole

end Ways

section Pieces
variable {α : Type} {ctx : Ctx} {spec : JobSpec} {h : Trail} {n : Nat} {job : JobRecord}

/-- A question that asks for no spawn can be asked at any time. -/
theorem clears_call {q : Ask} {f : Answer q → Proc α} {ends : α → Trail → Prop}
    (silent : ∀ plan, q ≠ .spawn plan) (rest : ∀ a, Clears ctx spec ends (f a) (h ++ [⟨q, a⟩])) :
    Clears ctx spec ends (call q >>= f) h := by
  refine ⟨?_, ?_⟩
  · cases q with
    | spawn plan => exact absurd rfl (silent plan)
    | _ => trivial
  · rintro a _ rfl
    exact rest a

theorem clears_still {q : Ask} {f : Answer q → Proc α} {ends : α → Trail → Prop}
    (still : q.still = true)
    (rest : ∀ a t, Since h [] t → (⟨q, a⟩ : Exchange) ∈ t → Clears ctx spec ends (f a) t) :
    Clears ctx spec ends (call q >>= f) h := by
  refine clears_call (fun plan it => by rw [it] at still; cases still) fun a => ?_
  refine rest a _ ?_ (List.mem_append_right _ (List.mem_singleton_self _))
  cases q with
  | spawn plan => cases still
  | save job => cases still
  | cancelled => cases still
  | _ => exact Since.one _ [] rfl rfl rfl

theorem clears_save (whole : h.saved.Sublist (JobState.preparing :: Trail.onTheWay ++ [JobState.done])) :
    Clears ctx spec (fun _ t => Since h [job.state] t) (save job) h := by
  refine clears_call nofun ?_
  rintro (_ | _)
  · exact cut_of_lost rfl rfl whole
  · exact Since.one ⟨.save job, true⟩ [job.state] rfl rfl rfl

theorem clears_transition {state : JobState}
    (whole : h.saved.Sublist (JobState.preparing :: Trail.onTheWay ++ [JobState.done])) :
    Clears ctx spec (fun job' t => Since h [state] t ∧ job'.spec = job.spec ∧ job'.state = state)
      (transition job state) h := by
  refine clears_still rfl fun now t asked _ => clears_still rfl fun high u asked' _ => ?_
  have since : Since h [] u := asked.then asked'
  refine Always.seq (clears_save ?_) fun _ v saved => ?_
  · rw [since.saved, List.append_nil]
    exact whole
  · exact ⟨since.then saved, rfl, rfl⟩

theorem clears_emit (kind : EventKind)
    (whole : h.saved.Sublist (JobState.preparing :: Trail.onTheWay ++ [JobState.done])) :
    Clears ctx spec (fun job' t => Since h [] t ∧ job'.spec = job.spec ∧ job'.state = job.state)
      (emit job kind) h := by
  refine clears_still rfl fun now t since _ => clears_call nofun ?_
  rw [← List.append_nil h.saved, ← since.saved] at whole
  rintro (_ | _ | _)
  · have written := Since.one (h := t) ⟨.append kind now, .ok⟩ [] rfl rfl rfl
    exact clears_still rfl fun high u asked _ => ⟨(since.then written).then asked, rfl, rfl⟩
  · exact cut_of_lost rfl rfl whole
  · exact cut_of_lost rfl rfl whole

theorem clears_finish (outcome : Outcome) (upto : h.Upto n) :
    Clears ctx spec (fun _ t => t.Ended) (finish job outcome) h := by
  refine Always.seq (clears_emit _ upto.whole) fun job t emitted => ?_
  refine Always.seq (clears_transition (upto.since emitted.1).whole) fun job u saved => ?_
  exact (upto.since emitted.1).ended saved.1

theorem clears_report (reports : List Report) :
    Clears ctx spec (fun _ t => Since h [] t) (report reports) h := by
  induction reports generalizing h with
  | nil => exact Since.refl h
  | cons r reports ih =>
      refine clears_still rfl fun now t asked _ => clears_still rfl fun written u asked' _ => ?_
      exact Always.mono ih (fun _ _ rest => (asked.then asked').then rest) fun _ _ => id

theorem clears_emitArtifacts (artifacts : List ArtifactMeta) (upto : h.Upto n) :
    Clears ctx spec (fun _ t => Since h [] t) (emitArtifacts job artifacts) h := by
  induction artifacts generalizing h job with
  | nil => exact Since.refl h
  | cons a artifacts ih =>
      refine Always.seq (clears_emit _ upto.whole) fun job t emitted => ?_
      exact Always.mono (ih (upto.since emitted.1)) (fun _ t rest => emitted.1.then rest)
        fun _ _ => id

/-- A commit to be trusted, and no child yet. -/
structure Prepared (ctx : Ctx) (spec : JobSpec) (h : Trail) : Prop where
  first : h.Unspawned
  trusted : h.Trusted ctx spec

/-- With a binary of the commit, and no cancel seen since it was known. -/
structure Ready (ctx : Ctx) (spec : JobSpec) (binary : CachedBinary) (h : Trail) : Prop
    extends Prepared ctx spec h where
  found : h.Found spec.sha binary
  uncancelled : h.lastLook = some false

theorem Prepared.since {t : Trail} {states : List JobState} (prepared : Prepared ctx spec h)
    (since : Since h states t) : Prepared ctx spec t :=
  ⟨since.unspawned prepared.first, prepared.trusted.kept since.kept⟩

theorem Ready.since {binary : CachedBinary} {t : Trail} {states : List JobState}
    (ready : Ready ctx spec binary h) (since : Since h states t) : Ready ctx spec binary t :=
  ⟨ready.toPrepared.since since, ready.found.kept since.kept,
    since.looked.trans ready.uncancelled⟩

theorem Prepared.looked (prepared : Prepared ctx spec h) (seen : Bool) :
    Prepared ctx spec (h ++ [⟨.cancelled, seen⟩]) where
  first e he := by
    cases List.mem_append.mp he with
    | inl old => exact prepared.first e old
    | inr new => rw [List.mem_singleton.mp new]; rfl
  trusted := prepared.trusted.kept fun _ => List.mem_append_left _

theorem Prepared.ready {binary : CachedBinary} (prepared : Prepared ctx spec h)
    (found : h.Found spec.sha binary) : Ready ctx spec binary (h ++ [⟨.cancelled, false⟩]) where
  toPrepared := prepared.looked false
  found := found.kept fun _ => List.mem_append_left _
  uncancelled := by simp [Trail.lastLook, List.filterMap_append, Exchange.look]

theorem clears_collecting {fresh : Bool} {worktree : String} {code : Int32}
    {verdict : Option Verdict} (upto : h.Upto 3) :
    Clears ctx spec (fun _ t => t.Ended) (collectingAs ctx job worktree fresh code verdict) h := by
  refine Always.seq (clears_transition upto.whole) fun job t saved => clears_still rfl ?_
  have upto : t.Upto 4 := upto.next saved.1 rfl
  rintro (e | artifacts) u asked -
  · exact clears_finish _ (upto.since asked)
  · refine Always.seq (clears_emitArtifacts artifacts (upto.since asked)) fun job v emitted => ?_
    have upto : v.Upto 4 := (upto.since asked).since emitted
    split
    · exact clears_finish _ upto
    · exact clears_finish _ upto

theorem clears_waiting {fresh : Bool} {worktree : String} {child : ChildHandle} {plan : RunPlan}
    (upto : h.Upto 3) :
    Clears ctx spec (fun _ t => t.Ended) (waitingAs ctx job worktree fresh child plan) h := by
  refine clears_still rfl fun watched t asked _ => ?_
  refine Always.seq (clears_report _) fun _ u reported => clears_still rfl fun high v asked' _ => ?_
  have upto : v.Upto 3 := ((upto.since asked).since reported).since asked'
  split
  · next code verdict _ =>
      cases verdict with
      | some v =>
          refine Always.seq (clears_emit _ upto.whole) fun job w emitted => ?_
          exact clears_collecting (upto.since emitted.1)
      | none => exact clears_collecting upto
  · exact clears_finish _ upto
  · exact clears_finish _ upto
  · exact clears_finish _ upto
  · exact clears_finish _ upto

theorem clears_started {worktree : String} {plan : RunPlan} {child : ChildHandle}
    (upto : h.Upto 2) :
    Clears ctx spec (fun _ t => t.Ended) (started ctx job worktree plan child) h := by
  refine Always.seq (clears_transition upto.whole) fun job t saved => ?_
  have upto : t.Upto 3 := upto.next saved.1 rfl
  refine Always.seq (clears_emit _ upto.whole) fun job u emitted => ?_
  exact waiting_eq .. ▸ clears_waiting (upto.since emitted.1)

theorem clears_running {worktree : String} {binary : CachedBinary} (upto : h.Upto 2)
    (ready : Ready ctx spec binary h) (accepts : h.Accepts spec binary) :
    Clears ctx spec (fun _ t => t.Ended) (running ctx job worktree binary) h := by
  refine clears_still rfl ?_
  rintro (e | before) t asked -
  · exact clears_finish _ (upto.since asked)
  · have ready := ready.since asked
    have upto := upto.since asked
    refine ⟨⟨ready.first, ready.trusted, ⟨binary, rfl, ready.found, accepts.kept asked.kept⟩,
      ready.uncancelled⟩, ?_⟩
    rintro (e | child) _ rfl
    · exact clears_finish _ (upto.same rfl)
    · exact clears_started (upto.same rfl)

theorem clears_refusal {binary : CachedBinary} (mine : job.spec = spec) :
    Clears ctx spec (fun r t => Since h [] t ∧ (r = .ok () → t.Accepts spec binary))
      (refusal job binary) h := by
  refine clears_still rfl ?_
  rintro (e | _) t asked -
  · exact ⟨asked, nofun⟩
  · refine clears_still rfl ?_
    rintro (e | known) u asked' listed
    · exact ⟨asked.then asked', nofun⟩
    · dsimp only
      split
      · exact ⟨asked.then asked', nofun⟩
      · next there =>
          refine clears_still rfl ?_
          rintro (e | (_ | _)) v asked'' fine
          · exact ⟨(asked.then asked').then asked'', nofun⟩
          · refine ⟨(asked.then asked').then asked'', fun _ => ?_⟩
            rw [mine] at there fine
            exact ⟨⟨known, asked''.kept _ listed, not_not.mp there⟩, fine⟩
          · exact ⟨(asked.then asked').then asked'', nofun⟩

theorem clears_checking {worktree : String} {binary : CachedBinary} (mine : job.spec = spec)
    (begun : job.state = .building) (upto : h.Upto 1) (prepared : Prepared ctx spec h)
    (found : h.Found spec.sha binary) :
    Clears ctx spec (fun _ t => t.Ended) (checking ctx job worktree binary) h := by
  refine Always.seq (clears_save upto.whole) fun _ t saved => clears_call nofun ?_
  have saved : Since h [.building] t := begun ▸ saved
  have upto : t.Upto 2 := upto.next saved rfl
  rintro (_ | _)
  · have upto : Trail.Upto 2 (t ++ [⟨.cancelled, false⟩]) := upto.same rfl
    have ready := (prepared.since saved).ready (found.kept saved.kept)
    refine Always.seq (clears_refusal mine) fun r u told => ?_
    cases r with
    | error reason => exact clears_finish _ (upto.since told.1)
    | ok _ => exact clears_running (upto.since told.1) (ready.since told.1) (told.2 rfl)
  · exact clears_finish _ (upto.same rfl)

theorem clears_building {worktree : String} (mine : job.spec = spec) (upto : h.Upto 0)
    (prepared : Prepared ctx spec h) :
    Clears ctx spec (fun _ t => t.Ended) (building ctx job worktree) h := by
  refine Always.seq (clears_transition upto.whole) fun job₁ t saved => clears_still rfl ?_
  have upto : t.Upto 1 := upto.next saved.1 rfl
  have mine : job₁.spec = spec := saved.2.1.trans mine
  rw [mine]
  rintro (e | (miss | binary)) u asked found
  · exact clears_finish _ (upto.since asked)
  · have since := saved.1.then asked
    have upto := upto.since asked
    refine Always.seq (clears_emit _ upto.whole) fun job₂ v emitted => clears_still rfl ?_
    have upto := upto.since emitted.1
    rintro (e | r) w asked' built
    · refine clears_call nofun ?_
      rintro (_ | _)
      · exact clears_finish _ ((upto.since asked').same rfl)
      · exact clears_finish _ ((upto.since asked').same rfl)
    · have upto := upto.since asked'
      refine Always.seq (clears_emit _ upto.whole) fun job₃ x emitted' => ?_
      have mine₂ : job₂.spec = spec := emitted.2.1.trans mine
      rw [mine₂] at built
      refine clears_checking (emitted'.2.1.trans mine₂)
        (emitted'.2.2.trans (emitted.2.2.trans saved.2.2)) (upto.since emitted'.1)
        (prepared.since (((since.then emitted.1).then asked').then emitted'.1)) ?_
      exact .inr ⟨worktree, r.secs, emitted'.1.kept _ built⟩
  · have since := saved.1.then asked
    have upto := upto.since asked
    refine Always.seq (clears_emit _ upto.whole) fun job₂ v emitted => ?_
    have upto := upto.since emitted.1
    refine Always.seq (clears_emit _ upto.whole) fun job₃ w emitted' => ?_
    have mine₂ : job₂.spec = spec := emitted.2.1.trans mine
    refine clears_checking (emitted'.2.1.trans mine₂)
      (emitted'.2.2.trans (emitted.2.2.trans saved.2.2)) (upto.since emitted'.1)
      (prepared.since ((since.then emitted.1).then emitted'.1)) ?_
    exact .inl (emitted'.1.kept _ (emitted.1.kept _ found))

theorem clears_fetching (sha : Sha) :
    Clears ctx spec (fun r t => Since h [] t ∧
      ∀ fetched, r = .ok fetched → (⟨.hasCommit sha, .ok true⟩ : Exchange) ∈ t)
      (fetching sha) h := by
  refine clears_still rfl ?_
  rintro (e | (_ | _)) t asked told
  · exact ⟨asked, nofun⟩
  · refine clears_still rfl ?_
    rintro (e | _) u asked' -
    · exact ⟨asked.then asked', nofun⟩
    · refine clears_still rfl ?_
      rintro (e | (_ | _)) v asked'' told
      · exact ⟨(asked.then asked').then asked'', nofun⟩
      · exact ⟨(asked.then asked').then asked'', nofun⟩
      · exact ⟨(asked.then asked').then asked'', fun _ _ => told⟩
  · exact ⟨asked, fun _ _ => told⟩

theorem clears_publishing (sha : Sha) :
    Clears ctx spec (fun r t => Since h [] t ∧
      (r = .ok () → ctx.allowUnpublished = true ∨ (⟨.published sha, .ok true⟩ : Exchange) ∈ t))
      (publishing ctx sha) h := by
  unfold publishing
  split
  · next allowed => exact ⟨Since.refl h, fun _ => .inl allowed⟩
  · refine clears_still rfl ?_
    rintro (e | (_ | _)) t asked told
    · exact ⟨asked, nofun⟩
    · exact ⟨asked, nofun⟩
    · exact ⟨asked, fun _ => .inr told⟩

theorem clears_preparing (mine : job.spec = spec) (upto : h.Upto 0) (first : h.Unspawned) :
    Clears ctx spec (fun _ t => t.Ended) (preparing ctx job) h := by
  refine Always.seq (clears_fetching _) fun r t fetched => ?_
  have upto := upto.since fetched.1
  cases r with
  | error reason => exact clears_finish _ upto
  | ok b =>
      refine Always.seq (clears_publishing _) fun r u published => ?_
      have upto := upto.since published.1
      cases r with
      | error reason => exact clears_finish _ upto
      | ok _ =>
          refine Always.seq (clears_emit _ upto.whole) fun job₁ v emitted => clears_still rfl ?_
          have upto := upto.since emitted.1
          rintro (e | worktree) w asked -
          · exact clears_finish _ (upto.since asked)
          · have since := emitted.1.then asked
            have prepared : Prepared ctx spec w := by
              refine ⟨since.unspawned (published.1.unspawned (fetched.1.unspawned first)), ?_⟩
              rw [mine] at fetched published
              exact Trail.Trusted.kept
                ⟨published.1.kept _ (fetched.2 b rfl), published.2 rfl⟩ since.kept
            refine clears_call nofun ?_
            rintro (_ | _)
            · exact clears_building (emitted.2.1.trans mine) ((upto.since asked).same rfl)
                (prepared.looked false)
            · exact clears_finish _ ((upto.since asked).same rfl)

end Pieces

/-- Whatever is answered, a run spawns at most once and only where all is settled, and saves
its states in order up to the end, unless a write fails. -/
theorem spawns_when_cleared (ctx : Ctx) (job : JobRecord) :
    Always trailing (Cautious ctx job.spec) (fun _ t => t.Ended) (fun _ t => t.Cut)
      (run ctx job) [] := by
  refine Always.seq (clears_transition (List.nil_sublist _)) fun job₁ t saved => ?_
  exact clears_preparing saved.2.1 ⟨[], saved.1.saved, List.nil_sublist _⟩
    (saved.1.unspawned fun _ he => absurd he List.not_mem_nil)

end Bench
end Metralectl
