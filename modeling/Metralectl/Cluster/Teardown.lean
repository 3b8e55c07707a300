import Metralectl.Cluster.Phases

/-!
A teardown hits what it judged. Supervision asks about the roster it read, and
then stops whatever the slot holds by the time the answers are in; both kinds of
teardown name containers, not clusters, and write the slot without looking. They
hit nothing else in the runs where no teardown and no commit overlap, and where
nothing was committed between a supervision's reading and its teardown.
-/
namespace Metralectl
namespace Cluster
open Runs Interleaving

/-- No teardown has removed a container of a cluster, or replaced the record of
one, that was not committed when the call read its roster and has been since. -/
structure OnlyJudged (s : Shared) : Prop where
  hits : ∀ h ∈ s.hits, h.2 ∈ s.committed → h.2 ∈ h.1
  writes : ∀ w ∈ s.writes, w.2 ∈ w.1

def Request.Teardown (q : Request) : Prop := ∃ seen node name, q = .stop (some seen) node name

instance (q : Request) : Decidable q.Teardown :=
  match q with
  | .stop (some seen) node name => isTrue ⟨seen, node, name, rfl⟩
  | .stop none _ _ | .start _ _ =>
      isFalse fun h => h.elim fun _ h => h.elim fun _ h => h.elim fun _ h => by cases h

/-- A commit takes its prepare while no teardown is under way and none of the
stops of one is still undone; a call turns to stopping while no commit is under
way and nothing has been committed since it read its roster. -/
structure Apart (p : State) (a : Action) : Prop where
  takes : Takes p a → p.Idle (fun t => t.phase.Stopping) ∧ ∀ q ∈ p.shared.sent, ¬ q.Teardown
  turns : ∀ seen ∈ turns p a,
    p.Idle (fun t => t.phase.Committing) ∧ seen = p.shared.committed

instance (p : State) (a : Action) : Decidable (Apart p a) :=
  decidable_of_iff ((Takes p a → p.Idle (fun t => t.phase.Stopping) ∧
      ∀ q ∈ p.shared.sent, ¬ q.Teardown) ∧
    ∀ seen ∈ turns p a, p.Idle (fun t => t.phase.Committing) ∧ seen = p.shared.committed)
    ⟨fun h => ⟨h.1, h.2⟩, fun h => ⟨h.1, h.2⟩⟩

def MayTake (p : Phases) : Prop :=
  p.Idle Phase.Stopping ∧ ∀ q ∈ p.shared.sent, ¬ q.Teardown

def MayStop (p : Phases) (seen : List Nat) : Prop :=
  p.Idle Phase.Committing ∧ seen = p.shared.committed

/-- A teardown is under way, or a stop it sent is. -/
def Tearing (p : Phases) : Prop :=
  (∃ ph ∈ p.tasks, ph.Stopping) ∨ ∃ q ∈ p.shared.sent, q.Teardown

structure Judged (p : Phases) : Prop where
  /-- What a teardown had seen committed is all there is. -/
  current : ∀ seen d, .stopping seen d ∈ p.tasks → seen = p.shared.committed ∧ d ∈ p.shared.committed
  asked : ∀ seen node name, .stop (some seen) node name ∈ p.shared.sent → seen = p.shared.committed
  /-- Teardowns and commits do not overlap. -/
  apart : Tearing p → p.Idle Phase.Committing
  recorded : ∀ r ∈ p.shared.running, r.cluster ∈ p.shared.committed
  /-- What was hit was seen committed, or never will be committed. -/
  hit : ∀ h ∈ p.shared.hits, h.2 ∈ h.1 ∨
    h.2 ∉ p.shared.committed ∧ h.2 < p.shared.clusters ∧ .committing h.2 ∉ p.tasks
  wrote : ∀ w ∈ p.shared.writes, w.2 ∈ w.1
  /-- Clusters are numbered by the commits that began them. -/
  begun : ∀ c, .committing c ∈ p.tasks → c < p.shared.clusters
  starts : ∀ c node, .start c node ∈ p.shared.sent → c < p.shared.clusters
  placed : ∀ b ∈ p.shared.fleet, b.cluster < p.shared.clusters

namespace Judged
variable {p q : Phases}

theorem uncommitting (hp : Judged p) (tearing : Tearing p) {c : Nat} :
    .committing c ∉ p.tasks :=
  fun h => hp.apart tearing _ h ⟨c, rfl⟩

/-- A step that begins neither a commit nor a teardown, asks no machine to stop
anything for one, and leaves both slots and what is committed alone. -/
theorem quiet (hp : Judged p)
    (tasks : ∀ ph ∈ q.tasks, ph ∈ p.tasks ∨ ¬ ph.Committing ∧ ¬ ph.Stopping)
    (running : q.shared.running = p.shared.running)
    (clusters : q.shared.clusters = p.shared.clusters)
    (committed : q.shared.committed = p.shared.committed)
    (writes : q.shared.writes = p.shared.writes)
    (sent : ∀ r ∈ q.shared.sent, r ∈ p.shared.sent ∨
      ¬ r.Teardown ∧ ∀ c node, r = .start c node → c < p.shared.clusters)
    (fleet : ∀ b ∈ q.shared.fleet, b ∈ p.shared.fleet ∨ b.cluster < p.shared.clusters)
    (hits : ∀ h ∈ q.shared.hits, h ∈ p.shared.hits ∨ h.2 < p.shared.clusters ∧
      h.1 = p.shared.committed ∧ Tearing p) : Judged q := by
  have committing {c : Nat} (h : .committing c ∈ q.tasks) : .committing c ∈ p.tasks := by
    cases tasks _ h with
    | inl old => exact old
    | inr new => exact absurd ⟨c, rfl⟩ new.1
  have stopping {seen : List Nat} {d : Nat} (h : .stopping seen d ∈ q.tasks) :
      .stopping seen d ∈ p.tasks := by
    cases tasks _ h with
    | inl old => exact old
    | inr new => exact absurd ⟨seen, d, rfl⟩ new.2
  have teardown {r : Request} (h : r ∈ q.shared.sent) (ht : r.Teardown) : r ∈ p.shared.sent := by
    cases sent r h with
    | inl old => exact old
    | inr new => exact absurd ht new.1
  have tearing (h : Tearing q) : Tearing p := by
    cases h with
    | inl h =>
        obtain ⟨ph, hph, seen, d, rfl⟩ := h
        exact Or.inl ⟨_, stopping hph, seen, d, rfl⟩
    | inr h =>
        obtain ⟨r, hr, ht⟩ := h
        exact Or.inr ⟨r, teardown hr ht, ht⟩
  refine ⟨?_, ?_, ?_, ?_, ?_, ?_, ?_, ?_, ?_⟩
  · intro seen d h
    rw [committed]
    exact hp.current seen d (stopping h)
  · intro seen node name h
    rw [committed]
    exact hp.asked seen node name (teardown h ⟨seen, node, name, rfl⟩)
  · intro h ph hph hc
    obtain ⟨c, rfl⟩ := hc
    exact hp.uncommitting (tearing h) (committing hph)
  · rw [running, committed]
    exact hp.recorded
  · intro h hh
    rw [committed, clusters]
    have kept : .committing h.2 ∉ p.tasks → .committing h.2 ∉ q.tasks := mt committing
    rcases hits h hh with old | ⟨below, seen, there⟩
    · rcases hp.hit h old with seen | ⟨never, below, away⟩
      · exact Or.inl seen
      · exact Or.inr ⟨never, below, kept away⟩
    · by_cases known : h.2 ∈ p.shared.committed
      · exact Or.inl (seen ▸ known)
      · exact Or.inr ⟨known, below, kept (hp.uncommitting there)⟩
  · rw [writes]
    exact hp.wrote
  · intro c h
    rw [clusters]
    exact hp.begun c (committing h)
  · intro c node h
    rw [clusters]
    cases sent _ h with
    | inl old => exact hp.starts c node old
    | inr new => exact new.2 c node rfl
  · intro b hb
    rw [clusters]
    cases fleet b hb with
    | inl old => exact hp.placed b old
    | inr new => exact new

/-- A machine does what it was asked to. -/
theorem execute (hp : Judged p) {k : Nat} {name : String} {s : Shared}
    (h : p.shared.execute k name = some s) (tasks : q.tasks = p.tasks) (shared : q.shared = s) :
    Judged q := by
  have old (ph : Phase) (hph : ph ∈ q.tasks) : ph ∈ p.tasks ∨ ¬ ph.Committing ∧ ¬ ph.Stopping :=
    Or.inl (tasks ▸ hph)
  have asked {r : Request} (hr : r ∈ p.shared.sent.eraseIdx k) : r ∈ p.shared.sent :=
    List.mem_of_mem_eraseIdx hr
  simp only [Shared.execute] at h
  split at h
  · next cluster node hk =>
      cases h
      have below := hp.starts cluster node (List.mem_of_getElem? hk)
      refine hp.quiet old (by rw [shared]) (by rw [shared]) (by rw [shared]) (by rw [shared])
        ?_ ?_ ?_
      · rw [shared]
        exact fun r hr => Or.inl (asked hr)
      · rw [shared]
        intro b hb
        rcases List.mem_cons.mp hb with rfl | hb
        · exact Or.inr below
        · exact Or.inl (List.mem_filter.mp hb).1
      · rw [shared]
        exact fun h hh => Or.inl hh
  · next seen node container hk =>
      cases h
      refine hp.quiet old (by rw [shared]) (by rw [shared]) (by rw [shared]) (by rw [shared])
        ?_ ?_ ?_
      · rw [shared]
        exact fun r hr => Or.inl (asked hr)
      · rw [shared]
        exact fun b hb => Or.inl (List.mem_filter.mp hb).1
      · rw [shared]
        intro h hh
        cases List.mem_append.mp hh with
        | inl new =>
            cases seen with
            | none => cases new
            | some seen =>
                obtain ⟨b, hb, rfl⟩ := List.mem_map.mp new
                have there := List.mem_of_getElem? hk
                exact Or.inr ⟨hp.placed b (List.mem_filter.mp hb).1,
                  hp.asked seen node container there,
                  Or.inr ⟨_, there, seen, node, container, rfl⟩⟩
        | inr old => exact Or.inl old
  · cases h

theorem mem_set {i : Nat} {ph ph' : Phase} (h : ph ∈ p.tasks.set i ph') (away : ph ≠ ph') :
    ph ∈ p.tasks := by
  cases List.mem_or_eq_of_mem_set h with
  | inl old => exact old
  | inr new => exact absurd new away

theorem old_set {i : Nat} {ph ph' : Phase} (at_ : p.tasks[i]? = some ph)
    (phase : ph' = ph ∨ ¬ ph'.Committing ∧ ¬ ph'.Stopping) (ph'' : Phase)
    (h : ph'' ∈ p.tasks.set i ph') :
    ph'' ∈ p.tasks ∨ ¬ ph''.Committing ∧ ¬ ph''.Stopping := by
  cases List.mem_or_eq_of_mem_set h with
  | inl old => exact Or.inl old
  | inr new =>
      cases phase with
      | inl same => exact Or.inl (new ▸ same ▸ List.mem_of_getElem? at_)
      | inr leaves => exact Or.inr (new ▸ leaves)

/-- A commit stores: no teardown is under way. -/
theorem store (hp : Judged p) {i c : Nat} {r : Running} (at_ : p.tasks[i]? = some (.committing c)) :
    Judged ⟨p.shared.store c r, p.tasks.set i .other⟩ := by
  have here : .committing c ∈ p.tasks := List.mem_of_getElem? at_
  have calm : ¬ Tearing p := fun tearing => hp.uncommitting tearing here
  refine ⟨?_, ?_, ?_, ?_, ?_, hp.wrote, ?_, hp.starts, hp.placed⟩
  · intro seen d h
    exact absurd (Or.inl ⟨_, mem_set h (by simp), seen, d, rfl⟩) calm
  · intro seen node name h
    exact absurd (Or.inr ⟨_, h, seen, node, name, rfl⟩) calm
  · intro tearing
    cases tearing with
    | inl h =>
        obtain ⟨ph, hph, seen, d, rfl⟩ := h
        exact absurd (Or.inl ⟨_, mem_set hph (by simp), seen, d, rfl⟩) calm
    | inr h => exact absurd (Or.inr h) calm
  · intro r' hr'
    cases hr'
    exact List.mem_cons_self
  · intro h hh
    rcases hp.hit h hh with seen | ⟨never, below, away⟩
    · exact Or.inl seen
    · refine Or.inr ⟨?_, below, fun hm => away (mem_set hm (by simp))⟩
      intro committed
      rcases List.mem_cons.mp committed with rfl | old
      · exact away here
      · exact never old
  · intro d h
    exact hp.begun d (mem_set h (by simp))

/-- A teardown asks one more machine. -/
theorem stop (hp : Judged p) {i c : Nat} {seen : List Nat} {node : NodeId} {name : String}
    (at_ : p.tasks[i]? = some (.stopping seen c)) :
    Judged ⟨p.shared.ask (.stop (some seen) node name), p.tasks.set i (.stopping seen c)⟩ := by
  have here : .stopping seen c ∈ p.tasks := List.mem_of_getElem? at_
  have there : Tearing p := Or.inl ⟨_, here, seen, c, rfl⟩
  have old {ph : Phase} (h : ph ∈ p.tasks.set i (.stopping seen c)) : ph ∈ p.tasks := by
    rcases List.mem_or_eq_of_mem_set h with old | rfl
    · exact old
    · exact here
  refine ⟨?_, ?_, ?_, hp.recorded, ?_, hp.wrote, ?_, ?_, hp.placed⟩
  · intro seen' d h
    exact hp.current seen' d (old h)
  · intro seen' node' name' h
    cases List.mem_append.mp h with
    | inl h => exact hp.asked seen' node' name' h
    | inr h =>
        cases List.mem_singleton.mp h
        exact (hp.current seen c here).1
  · intro _ ph h
    exact hp.apart there ph (old h)
  · intro h hh
    rcases hp.hit h hh with seen | ⟨never, below, away⟩
    · exact Or.inl seen
    · exact Or.inr ⟨never, below, fun hm => away (old hm)⟩
  · intro d h
    exact hp.begun d (old h)
  · intro d node' h
    cases List.mem_append.mp h with
    | inl h => exact hp.starts d node' h
    | inr h => cases List.mem_singleton.mp h

/-- A teardown writes the slot: what was in it, it had seen committed. -/
theorem close (hp : Judged p) {i c : Nat} {seen : List Nat} {slot : Option Running}
    (at_ : p.tasks[i]? = some (.stopping seen c)) :
    Judged ⟨p.shared.close seen c slot, p.tasks.set i .other⟩ := by
  have here : .stopping seen c ∈ p.tasks := List.mem_of_getElem? at_
  have there : Tearing p := Or.inl ⟨_, here, seen, c, rfl⟩
  obtain ⟨current, known⟩ := hp.current seen c here
  refine ⟨?_, hp.asked, ?_, ?_, ?_, ?_, ?_, hp.starts, hp.placed⟩
  · intro seen' d h
    exact hp.current seen' d (mem_set h (by simp))
  · intro _ ph h hc
    obtain ⟨d, rfl⟩ := hc
    exact hp.uncommitting there (mem_set h (by simp))
  · intro r hr
    cases slot with
    | none => cases hr
    | some r' =>
        cases hr
        exact known
  · intro h hh
    rcases hp.hit h hh with seen | ⟨never, below, away⟩
    · exact Or.inl seen
    · exact Or.inr ⟨never, below, fun hm => away (mem_set hm (by simp))⟩
  · intro w hw
    cases List.mem_append.mp hw with
    | inl new =>
        obtain ⟨r, hr, rfl⟩ := List.mem_map.mp new
        rw [Option.mem_toList] at hr
        exact current ▸ hp.recorded r hr
    | inr old => exact hp.wrote w old
  · intro d h
    exact hp.begun d (mem_set h (by simp))

theorem effect (hp : Judged p) {i : Nat} {ph ph' : Phase} {s : Shared}
    (at_ : p.tasks[i]? = some ph) (h : Effect p.shared ph s ph') :
    Judged ⟨s, p.tasks.set i ph'⟩ := by
  have kept {s : Shared} {ph' : Phase} (phase : ph' = ph ∨ ¬ ph'.Committing ∧ ¬ ph'.Stopping)
      (same : ∃ pending sent, s = { p.shared with pending := pending, sent := sent } ∧
        ∀ r ∈ sent, r ∈ p.shared.sent ∨
          ¬ r.Teardown ∧ ∀ c node, r = .start c node → c < p.shared.clusters) :
      Judged ⟨s, p.tasks.set i ph'⟩ := by
    obtain ⟨pending, sent, rfl, requests⟩ := same
    exact hp.quiet (old_set at_ phase) rfl rfl rfl rfl requests (fun _ h => Or.inl h)
      fun _ h => Or.inl h
  have requests {r : Request} (benign : ¬ r.Teardown)
      (below : ∀ c node, r = .start c node → c < p.shared.clusters) :
      ∀ r' ∈ p.shared.sent ++ [r], r' ∈ p.shared.sent ∨
        ¬ r'.Teardown ∧ ∀ c node, r' = .start c node → c < p.shared.clusters := by
    intro r' hr'
    cases List.mem_append.mp hr' with
    | inl old => exact Or.inl old
    | inr new =>
        rw [List.mem_singleton.mp new]
        exact Or.inr ⟨benign, below⟩
  cases h with
  | rest => exact kept (by simp) ⟨_, _, rfl, fun _ h => Or.inl h⟩
  | pend pending => exact kept (by simp) ⟨pending, _, rfl, fun _ h => Or.inl h⟩
  | judge => exact kept (by simp) ⟨_, _, rfl, fun _ h => Or.inl h⟩
  | start c node =>
      have below := hp.begun c (List.mem_of_getElem? at_)
      refine kept (by simp) ⟨_, _, rfl, requests ?_ ?_⟩
      · simp [Request.Teardown]
      · intro c' node' h
        cases h
        exact below
  | undo node name =>
      refine kept (by simp) ⟨_, _, rfl, requests ?_ ?_⟩
      · simp [Request.Teardown]
      · intro c node h
        cases h
  | store c r => exact hp.store at_
  | stop seen c node name => exact hp.stop at_
  | close seen c slot => exact hp.close at_
  | execute done =>
      have same : Judged ⟨p.shared, p.tasks.set i .other⟩ :=
        kept (Or.inl rfl) ⟨_, _, rfl, fun _ h => Or.inl h⟩
      exact same.execute done rfl rfl

/-- A call turns to stopping what the slot holds: no commit is under way, and
nothing was committed since the call read its roster. -/
theorem turn (hp : Judged p) {r : Record} {seen : List Nat} {tasks : List Phase}
    (held : p.shared.running = some r) (may : MayStop p seen)
    (each : ∀ ph ∈ tasks, ph ∈ p.tasks ∨ ph = .stopping seen r.cluster) :
    Judged ⟨p.shared, tasks⟩ := by
  obtain ⟨calm, current⟩ := may
  have committing {c : Nat} (h : .committing c ∈ tasks) : False := by
    cases each _ h with
    | inl old => exact calm _ old ⟨c, rfl⟩
    | inr new => cases new
  refine ⟨?_, hp.asked, ?_, hp.recorded, ?_, hp.wrote, ?_, hp.starts, hp.placed⟩
  · intro seen' d h
    cases each _ h with
    | inl old => exact hp.current seen' d old
    | inr new =>
        cases new
        exact ⟨current, hp.recorded r held⟩
  · intro _ ph hph hc
    obtain ⟨c, rfl⟩ := hc
    exact committing hph
  · intro h hh
    rcases hp.hit h hh with seen | ⟨never, below, _⟩
    · exact Or.inl seen
    · exact Or.inr ⟨never, below, committing⟩
  · intro c h
    exact (committing h).elim

/-- A commit takes its prepare while no teardown is under way. -/
theorem take (hp : Judged p) (may : MayTake p) :
    Judged ⟨p.shared.take, p.tasks ++ [Phase.committing p.shared.clusters]⟩ := by
  obtain ⟨unstopping, unasked⟩ := may
  have stopping {seen : List Nat} {d : Nat}
      (h : Phase.stopping seen d ∈ p.tasks ++ [Phase.committing p.shared.clusters]) : False := by
    cases List.mem_append.mp h with
    | inl old => exact unstopping _ old ⟨seen, d, rfl⟩
    | inr new => cases List.mem_singleton.mp new
  refine ⟨?_, ?_, ?_, hp.recorded, ?_, hp.wrote, ?_, ?_, ?_⟩
  · intro seen d h
    exact (stopping h).elim
  · intro seen node name h
    exact absurd ⟨seen, node, name, rfl⟩ (unasked _ h)
  · intro tearing
    cases tearing with
    | inl h =>
        obtain ⟨ph, hph, seen, d, rfl⟩ := h
        exact (stopping hph).elim
    | inr h =>
        obtain ⟨r, hr, ht⟩ := h
        exact absurd ht (unasked r hr)
  · intro h hh
    rcases hp.hit h hh with seen | ⟨never, below, away⟩
    · exact Or.inl seen
    · refine Or.inr ⟨never, Nat.lt_succ_of_lt below, ?_⟩
      intro hm
      cases List.mem_append.mp hm with
      | inl old => exact away old
      | inr new =>
          have := Phase.committing.inj (List.mem_singleton.mp new)
          omega
  · intro c h
    cases List.mem_append.mp h with
    | inl old => exact Nat.lt_succ_of_lt (hp.begun c old)
    | inr new =>
        cases List.mem_singleton.mp new
        exact Nat.lt_succ_self _
  · intro c node h
    exact Nat.lt_succ_of_lt (hp.starts c node h)
  · intro b hb
    exact Nat.lt_succ_of_lt (hp.placed b hb)

theorem step (hp : Judged p) (h : Protocol MayTake MayStop p q) : Judged q := by
  cases h with
  | call =>
      refine hp.quiet ?_ rfl rfl rfl rfl (fun _ h => Or.inl h) (fun _ h => Or.inl h)
        fun _ h => Or.inl h
      intro ph hph
      cases List.mem_append.mp hph with
      | inl old => exact Or.inl old
      | inr new => exact Or.inr (by simp [List.mem_singleton.mp new])
  | effect at_ effect => exact hp.effect at_ effect
  | take may => exact hp.take may
  | stop held may =>
      refine hp.turn held may ?_
      intro ph hph
      cases List.mem_append.mp hph with
      | inl old => exact Or.inl old
      | inr new => exact Or.inr (List.mem_singleton.mp new)
  | tear at_ held may => exact hp.turn held may fun ph hph => List.mem_or_eq_of_mem_set hph

theorem onlyJudged (hp : Judged p) : OnlyJudged p.shared := by
  refine ⟨?_, hp.wrote⟩
  intro h hh committed
  rcases hp.hit h hh with seen | ⟨never, _⟩
  · exact seen
  · exact absurd committed never

end Judged

theorem judged_idle : Judged (phases idle) := by
  refine ⟨?_, ?_, ?_, ?_, ?_, ?_, ?_, ?_, ?_⟩
  all_goals simp [phases, idle, Pool.start, Pool.Idle]

/-- A driver whose commits and teardowns keep apart tears down what it judged:
by induction over the run, a segment at a time. -/
theorem onlyJudged_of_apart {settleSecs : Nat} {as : List Action} {p : State}
    (run : Run (driver settleSecs).step Apart idle as p) : OnlyJudged p.shared := by
  have steps : Steps MayTake MayStop (phases idle) (phases p) := by
    apply run_steps run
    · intro p a apart takes
      obtain ⟨unstopping, unasked⟩ := apart.takes takes
      exact ⟨idle_phases unstopping, unasked⟩
    · intro p a apart seen turns
      obtain ⟨calm, current⟩ := apart.turns seen turns
      exact ⟨idle_phases calm, current⟩
  exact (steps.invariant judged_idle fun _ _ hp h => hp.step h).onlyJudged

section Fixed

/-- The machine does the oldest thing it was asked to. -/
def done (name : String) : Action := .enter (.execute 0 name)

/-- Calls `i` to `i + 3`: a prepare, a commit, and its two ranks starting. -/
def committed (i : Nat) (epoch recipe : String) : List Action :=
  prepared i epoch recipe ++
  [.enter (.commit epoch), done s!"metrale-{recipe}-rank0",
    started (i + 1) s!"metrale-{recipe}-rank0", done s!"metrale-{recipe}-rank1",
    started (i + 1) s!"metrale-{recipe}-rank1"] ++ survived (i + 1)

/-- Both ranks that call `i` has asked to stop do so. -/
def stopped (i : Nat) : List Action :=
  [done "", .resume i (.stopped (.ok ())), done "", .resume i (.stopped (.ok ()))]

/-- Supervision finds a rank of the first cluster dead and tears it down; then a
second one is started. -/
def supervised : List Action :=
  committed 0 "e1" "qwen3" ++ ([.enter .supervise, .resume 4 (.alive true),
    .resume 4 (.alive false)] : List Action) ++ stopped 4 ++ committed 7 "e2" "llama"

theorem onlyJudged_of_apart_supervised :
    ∃ p, Run (driver 5).step Apart idle supervised p ∧ OnlyJudged p.shared := by
  have run : Run (driver 5).step Apart idle supervised _ := Run.of_replay rfl
  exact ⟨_, run, onlyJudged_of_apart run⟩

/-- Supervision reads the roster of the first cluster and asks its ranks; the
operator stops that cluster and starts a second one; then the last answer of the
first one's ranks comes in. -/
def reread : List Action :=
  committed 0 "e1" "qwen3" ++ ([.enter .supervise, .resume 4 (.alive true)] : List Action) ++
  ([.enter .stopCluster] : List Action) ++ stopped 5 ++ committed 8 "e2" "llama" ++
  ([.resume 4 (.alive false)] : List Action) ++ stopped 4

/-- The second cluster is torn down on the word of the first one's ranks, and its
record is cleared. -/
theorem not_onlyJudged_reread :
    ∃ p, Run (driver 5).step Free idle reread p ∧ p.shared.running = none ∧
      p.shared.fleet = [] ∧ ¬ OnlyJudged p.shared := by
  have run : Run (driver 5).step Free idle reread _ := Run.of_replay rfl
  refine ⟨_, run, rfl, rfl, ?_⟩
  intro only
  have seen := only.writes ([0], 1) (by decide)
  exact absurd seen (by decide)

end Fixed

end Cluster
end Metralectl
