import Metralectl.Library.Runs
import Metralectl.Rank.LocalRank
import Metralectl.Rank.Reservation

/-!
What the stops of peers reach. A machine serves frames, launches for its own
operator, and runs containers this agent knows nothing of. A stop goes by a name
and asks who may have given it, not who did, and the names of solo launches are
among those that pass. Whatever a stop removes is traced back to the step that
started it.
-/
namespace Metralectl
namespace LocalRank
open Runs Peer Docker

inductive Action where
  | frame (f : PeerFrame) (c : Conditions)
  | launch (recipe : RecipeId) (c : Conditions)
  | cli (recipe : RecipeId) (placement : Docker.Placement) (noRm : Bool) (c : Conditions)
  /-- Somebody runs a container past this agent, or removes one. -/
  | foreign (name : String) (autoRemove : Bool)
  | discard (name : String) (c : Conditions)
  | exit (name : String)

/-- The host, and every container a stop from a peer has removed. -/
structure Ledger where
  host : Host
  removed : List Container
deriving DecidableEq

def Ledger.start : Ledger := ⟨⟨none, []⟩, []⟩

/-- What a frame removed that asked for it. -/
def removedBy (before after : Host) : PeerFrame → List Container
  | .stopRank _ => before.containers.filter (· ∉ after.containers)
  | _ => []

def step (host : RankHost) (l : Ledger) : Action → Option Ledger
  | .frame f c =>
      match serveRank (service host c) l.host f with
      | some (m, _) => some ⟨m, l.removed ++ removedBy l.host m f⟩
      | none => some l
  | .launch recipe c => some { l with host := launchSolo c l.host recipe }
  | .cli recipe placement noRm c =>
      some { l with host := launchCli c l.host recipe placement noRm }
  | .foreign name autoRemove =>
      some { l with host := (l.host.run name .foreign autoRemove .ran).1 }
  | .discard name c => some { l with host := l.host.remove name c.rm }
  | .exit name => some { l with host := exit l.host name }

/-- `docker rm -f` does its work. -/
def Conditions.Removes (c : Conditions) : Prop := c.rm.toOption.any Output.success = true

instance (c : Conditions) : Decidable c.Removes := inferInstanceAs (Decidable (_ = true))

/-- A stop that gets as far as the runtime, and succeeds there. -/
def Executed (name : String) (c : Conditions) : Prop :=
  isOurContainer name = true ∧ c.Removes

instance (name : String) (c : Conditions) : Decidable (Executed name c) :=
  inferInstanceAs (Decidable (_ ∧ _))

def Host.Runs (m : Host) (name : String) : Prop :=
  ∃ k ∈ m.containers, k.name = name ∧ k.running = true

/-- The steps that clear a name away on a machine: a commit or a launch of it whose
`docker rm -f` succeeds, a stop or a removal of it, and the end of a container
that was started with `--rm`. -/
def Clears (m : Host) (name : String) : Action → Prop
  | .frame (.commit epoch) c =>
      c.Removes ∧ ∃ r, takeReserved m.reserved epoch = .ok r ∧ r.plan.name = name
  | .frame (.stopRank other) c => other = name ∧ Executed name c
  | .frame _ _ => False
  | .launch recipe c => containerName recipe.text .solo = name ∧ ¬ m.Runs name ∧ c.Removes
  | .cli recipe placement _ c => containerName recipe.text placement = name ∧ c.Removes
  | .foreign _ _ => False
  | .discard other c => other = name ∧ c.Removes
  | .exit other => other = name ∧ ∃ k ∈ m.containers, k.name = name ∧ k.autoRemove = true

/-- The steps other than a commit that start a container of a name: a launch of it
that is not answered by one that runs, and a run by somebody else, where the name
is free or is cleared away. -/
def Starts (m : Host) (name : String) : Action → Prop
  | .launch recipe c =>
      containerName recipe.text .solo = name ∧ ¬ m.Runs name ∧ c.run = .ran ∧
        (c.Removes ∨ m.held name = false)
  | .cli recipe placement _ c =>
      containerName recipe.text placement = name ∧ c.run = .ran ∧
        (c.Removes ∨ m.held name = false)
  | .foreign other _ => other = name ∧ m.held name = false
  | .frame _ _ | .discard _ _ | .exit _ => False

def Keeps (name : String) (l : Ledger) (a : Action) : Prop := ¬ Clears l.host name a

/-- One step starts a container of the name, and no step since then has cleared the
name away. -/
def Lodged (host : RankHost) (as : List Action) (l : Ledger) (name : String) : Prop :=
  ∃ pre a mid p q, as = pre ++ a :: mid ∧ Run (step host) Free .start pre p ∧
    Starts p.host name a ∧ step host p a = some q ∧ Run (step host) (Keeps name) q mid l

/-- Somewhere in the run a stop is executed of a name that something else than a
commit has given to a container, and that nothing has cleared away since. -/
def StopsStranger (host : RankHost) (as : List Action) : Prop :=
  ∃ pre name c post l, as = pre ++ Action.frame (.stopRank name) c :: post ∧
    Lodged host pre l name ∧ Executed name c

section Hosts
variable {m : Host} {c : Conditions} {name : String} {origin : Origin} {autoRemove : Bool}
  {k : Container}

theorem held_iff : m.held name = true ↔ ∃ k ∈ m.containers, k.name = name := by
  simp [Host.held]

theorem mem_remove :
    k ∈ (m.remove name c.rm).containers ↔ k ∈ m.containers ∧ ¬ (c.Removes ∧ k.name = name) := by
  simp only [Host.remove, Conditions.Removes]
  cases hrm : c.rm with
  | error why => simp [Except.toOption]
  | ok out =>
      by_cases success : out.success = true
      · simp [success, Except.toOption]
      · simp [success, Except.toOption]

theorem mem_run {outcome : RunOutcome} :
    k ∈ (m.run name origin autoRemove outcome).1.containers ↔
      k ∈ m.containers ∨
        (outcome = .ran ∧ m.held name = false ∧ k = ⟨name, origin, autoRemove, true⟩) := by
  cases outcome with
  | unstartable | failed => simp [Host.run]
  | ran =>
      cases held : m.held name with
      | true => simp [Host.run, held]
      | false => simp [Host.run, held]

/-- A name is free once it is cleared away. -/
theorem held_remove :
    (m.remove name c.rm).held name = false ↔ c.Removes ∨ m.held name = false := by
  rw [← Bool.not_eq_true, ← Bool.not_eq_true, held_iff, held_iff]
  constructor
  · intro free
    by_cases removes : c.Removes
    · exact Or.inl removes
    · refine Or.inr fun ⟨k, hk, named⟩ => free ⟨k, ?_, named⟩
      exact mem_remove.mpr ⟨hk, fun gone => removes gone.1⟩
  · rintro free ⟨k, hk, named⟩
    obtain ⟨old, stays⟩ := mem_remove.mp hk
    cases free with
    | inl removes => exact stays ⟨removes, named⟩
    | inr free => exact free ⟨k, old, named⟩

/-- What a name is cleared away for and started again. -/
theorem mem_replace :
    k ∈ ((m.remove name c.rm).run name origin autoRemove c.run).1.containers ↔
      (k ∈ m.containers ∧ ¬ (c.Removes ∧ k.name = name)) ∨
        (c.run = .ran ∧ (c.Removes ∨ m.held name = false) ∧
          k = ⟨name, origin, autoRemove, true⟩) := by
  rw [mem_run, mem_remove, held_remove]

theorem mem_commit {epoch : String} :
    k ∈ (commit c m epoch).1.containers ↔
      (k ∈ m.containers ∧ ¬ Clears m k.name (.frame (.commit epoch) c)) ∨
        ∃ r, takeReserved m.reserved epoch = .ok r ∧ c.run = .ran ∧
          (c.Removes ∨ m.held r.plan.name = false) ∧
          k = ⟨r.plan.name, .rank epoch, false, true⟩ := by
  simp only [commit, Clears]
  cases took : takeReserved m.reserved epoch with
  | error e => simp
  | ok r =>
      have spec : k ∈ ((({ m with reserved := none } : Host).remove r.plan.name c.rm).run
          r.plan.name (.rank epoch) false c.run).1.containers ↔ _ := mem_replace
      refine spec.trans (or_congr (and_congr_right fun _ => not_congr ?_) ?_)
      · simp [eq_comm]
      · simp [Host.held]

theorem runs_iff :
    m.containers.any (fun k => k.name = name && k.running) = true ↔ m.Runs name := by
  simp [Host.Runs]

theorem mem_launchSolo {recipe : RecipeId} :
    k ∈ (launchSolo c m recipe).containers ↔
      (k ∈ m.containers ∧ ¬ Clears m k.name (.launch recipe c)) ∨
        (Starts m k.name (.launch recipe c) ∧
          k = ⟨containerName recipe.text .solo, .solo recipe, false, true⟩) := by
  simp only [launchSolo, Clears, Starts]
  split
  · next runs =>
      have here := runs_iff.mp runs
      constructor
      · exact fun hk => Or.inl ⟨hk, fun ⟨same, idle, _⟩ => idle (same ▸ here)⟩
      · rintro (⟨hk, _⟩ | ⟨⟨same, idle, _⟩, _⟩)
        · exact hk
        · exact absurd (same ▸ here) idle
  · next idle =>
      have free : ¬ m.Runs (containerName recipe.text .solo) := fun runs => idle (runs_iff.mpr runs)
      rw [mem_replace]
      refine or_congr (and_congr_right fun _ => not_congr ?_) ?_
      · constructor
        · rintro ⟨removes, same⟩
          exact ⟨same.symm, same ▸ free, removes⟩
        · rintro ⟨same, _, removes⟩
          exact ⟨removes, same.symm⟩
      · constructor
        · rintro ⟨ran, room, rfl⟩
          exact ⟨⟨rfl, free, ran, room⟩, rfl⟩
        · rintro ⟨⟨same, _, ran, room⟩, is⟩
          exact ⟨ran, same ▸ room, is⟩

theorem mem_launchCli {recipe : RecipeId} {placement : Docker.Placement} {noRm : Bool} :
    k ∈ (launchCli c m recipe placement noRm).containers ↔
      (k ∈ m.containers ∧ ¬ Clears m k.name (.cli recipe placement noRm c)) ∨
        (Starts m k.name (.cli recipe placement noRm c) ∧
          k = ⟨containerName recipe.text placement, .cli recipe placement, !noRm, true⟩) := by
  simp only [launchCli, Clears, Starts, mem_replace]
  refine or_congr (and_congr_right fun _ => not_congr ?_) ?_
  · constructor
    · rintro ⟨removes, same⟩
      exact ⟨same.symm, removes⟩
    · rintro ⟨same, removes⟩
      exact ⟨removes, same.symm⟩
  · constructor
    · rintro ⟨ran, room, rfl⟩
      exact ⟨⟨rfl, ran, room⟩, rfl⟩
    · rintro ⟨⟨same, ran, room⟩, is⟩
      exact ⟨ran, same ▸ room, is⟩

/-- What is left of a container whose name stops. -/
theorem mem_exit :
    k ∈ (exit m name).containers ↔
      ∃ old ∈ m.containers,
        (old.name ≠ name ∧ k = old) ∨
          (old.name = name ∧ old.autoRemove = false ∧ k = { old with running := false }) := by
  simp only [exit, List.mem_filterMap]
  refine exists_congr fun old => and_congr_right fun _ => ?_
  by_cases named : old.name = name
  · rw [if_pos named]
    cases kept : old.autoRemove with
    | true => simp [named]
    | false =>
        simp only [Bool.false_eq_true, if_false, Option.some.injEq, ne_eq, named,
          not_true_eq_false, false_and, true_and, false_or]
        exact eq_comm
  · rw [if_neg named]
    simp only [Option.some.injEq, ne_eq, named, not_false_eq_true, true_and, false_and, or_false]
    exact eq_comm

end Hosts

theorem prepare_containers {host : RankHost} {c : Conditions} {m : Host} {epoch : String}
    {assignment : RankAssignment} :
    (prepare host c m epoch assignment).1.containers = m.containers := by
  simp only [prepare]
  split
  · rfl
  · split <;> rfl

/-- A stop removes the containers of its name if it is executed, and none
otherwise. -/
theorem mem_stop {c : Conditions} {m : Host} {name : String} {k : Container} :
    k ∈ (stop c m name).1.containers ↔ k ∈ m.containers ∧ ¬ (name = k.name ∧ Executed k.name c) := by
  simp only [stop, Executed]
  by_cases ours : isOurContainer name = true
  · rw [if_pos ours, mem_remove]
    refine and_congr_right fun _ => not_congr ⟨?_, ?_⟩
    · rintro ⟨removes, same⟩
      exact ⟨same.symm, same ▸ ours, removes⟩
    · rintro ⟨same, _, removes⟩
      exact ⟨removes, same.symm⟩
  · rw [if_neg ours]
    refine (and_iff_left ?_).symm
    rintro ⟨same, named, _⟩
    exact ours (same ▸ named)

/-- Of all frames only a commit and a stop touch the containers. -/
theorem frame_cases {host : RankHost} {c : Conditions} {m m' : Host} {f reply : PeerFrame}
    (h : serveRank (service host c) m f = some (m', reply)) :
    (∃ epoch, f = .commit epoch ∧ m' = (commit c m epoch).1) ∨
      (∃ name, f = .stopRank name ∧ m' = (stop c m name).1) ∨
      (m'.containers = m.containers ∧ (∀ epoch, f ≠ .commit epoch) ∧
        ∀ name, ¬ Clears m name (.frame f c)) := by
  cases f with
  | previewRank assignment =>
      simp only [serveRank] at h
      split at h <;> cases h <;> exact Or.inr (Or.inr ⟨rfl, by simp, fun _ => id⟩)
  | prepare assignment epoch =>
      cases h
      exact Or.inr (Or.inr ⟨prepare_containers, by simp, fun _ => id⟩)
  | commit epoch =>
      refine Or.inl ⟨epoch, rfl, ?_⟩
      simp only [serveRank, service] at h
      split at h
      · next did =>
          cases h
          rw [did]
      · next did =>
          cases h
          rw [did]
  | stopRank name =>
      cases h
      exact Or.inr (Or.inl ⟨name, rfl, rfl⟩)
  | isRankAlive | abort =>
      cases h
      exact Or.inr (Or.inr ⟨rfl, by simp, fun _ => id⟩)
  | rankPreviewed | rankRefused | prepared | committed | aborted | rankLiveness | rankStopped
  | vitals | controlTo | control | controlReply | other => cases h

theorem mem_frame {host : RankHost} {c : Conditions} {m m' : Host} {f reply : PeerFrame}
    {k : Container} (h : serveRank (service host c) m f = some (m', reply)) :
    k ∈ m'.containers ↔
      (k ∈ m.containers ∧ ¬ Clears m k.name (.frame f c)) ∨
        ∃ epoch r, f = .commit epoch ∧ takeReserved m.reserved epoch = .ok r ∧ c.run = .ran ∧
          (c.Removes ∨ m.held r.plan.name = false) ∧
          k = ⟨r.plan.name, .rank epoch, false, true⟩ := by
  obtain ⟨epoch, rfl, rfl⟩ | ⟨name, rfl, rfl⟩ | ⟨same, noCommit, clears⟩ := frame_cases h
  · rw [mem_commit]
    simp
  · rw [mem_stop]
    simp [Clears]
  · rw [same]
    simp [clears, noCommit]

/-- No two containers have one name. -/
def Host.Distinct (m : Host) : Prop := m.containers.Pairwise (·.name ≠ ·.name)

theorem Host.Distinct.remove {m : Host} (distinct : m.Distinct) (name : String)
    (rm : Except String Output) : (m.remove name rm).Distinct := by
  simp only [Host.remove]
  split
  · split
    · exact List.Pairwise.filter _ distinct
    · exact distinct
  · exact distinct

theorem Host.Distinct.run {m : Host} (distinct : m.Distinct) (name : String) (origin : Origin)
    (autoRemove : Bool) (outcome : RunOutcome) :
    (m.run name origin autoRemove outcome).1.Distinct := by
  simp only [Host.run]
  split
  · split
    · exact distinct
    · next free =>
        refine List.pairwise_append.mpr ⟨distinct, List.pairwise_singleton _ _, ?_⟩
        intro k hk new hnew same
        rw [List.mem_singleton.mp hnew] at same
        exact free (held_iff.mpr ⟨k, hk, same⟩)
  · exact distinct
  · exact distinct

theorem Host.Distinct.commit {m : Host} (distinct : m.Distinct) (c : Conditions) (epoch : String) :
    (LocalRank.commit c m epoch).1.Distinct := by
  simp only [LocalRank.commit]
  split
  · exact distinct
  · next r _ =>
      have cleared : ({ m with reserved := none } : Host).Distinct := distinct
      exact (cleared.remove _ _).run r.plan.name _ _ _

theorem Host.Distinct.stop {m : Host} (distinct : m.Distinct) (c : Conditions) (name : String) :
    (LocalRank.stop c m name).1.Distinct := by
  simp only [LocalRank.stop]
  split
  · exact distinct.remove _ _
  · exact distinct

theorem Host.Distinct.exit {m : Host} (distinct : m.Distinct) (name : String) :
    (LocalRank.exit m name).Distinct := by
  have named {old k : Container} (h : (if old.name = name then
      if old.autoRemove then none else some { old with running := false } else some old) = some k) :
      k.name = old.name := by
    split at h
    · split at h
      · cases h
      · cases h
        rfl
    · cases h
      rfl
  refine List.pairwise_filterMap.mpr (distinct.imp ?_)
  intro old other apart k hk k' hk'
  rw [named hk, named hk']
  exact apart

theorem Host.Distinct.eq {m : Host} (distinct : m.Distinct) {k k' : Container}
    (hk : k ∈ m.containers) (hk' : k' ∈ m.containers) (same : k.name = k'.name) : k = k' :=
  List.inj_on_of_nodup_map (List.pairwise_map.mpr distinct) hk hk' same

section Steps
variable {host : RankHost} {l l' : Ledger} {a : Action} {as : List Action}

theorem step_distinct (h : step host l a = some l') (distinct : l.host.Distinct) :
    l'.host.Distinct := by
  cases a with
  | frame f c =>
      simp only [step] at h
      split at h
      · next did =>
          cases h
          obtain ⟨epoch, rfl, rfl⟩ | ⟨name, rfl, rfl⟩ | ⟨same, _, _⟩ := frame_cases did
          · exact distinct.commit c epoch
          · exact distinct.stop c name
          · unfold Host.Distinct
            rwa [same]
      · cases h
        exact distinct
  | launch recipe c =>
      cases h
      simp only [launchSolo]
      split
      · exact distinct
      · exact (distinct.remove _ _).run _ _ _ _
  | cli recipe placement noRm c =>
      cases h
      exact (distinct.remove _ _).run _ _ _ _
  | foreign name autoRemove =>
      cases h
      exact distinct.run _ _ _ _
  | discard name c =>
      cases h
      exact distinct.remove _ _
  | exit name =>
      cases h
      exact distinct.exit _

/-- A container keeps its name and its origin through every step that does not clear
the name away. -/
theorem step_keeps (h : step host l a = some l') {k : Container} (hk : k ∈ l.host.containers)
    (keeps : Keeps k.name l a) :
    ∃ k' ∈ l'.host.containers, k'.name = k.name ∧ k'.origin = k.origin := by
  cases a with
  | frame f c =>
      simp only [step] at h
      split at h
      · next did =>
          cases h
          exact ⟨k, (mem_frame did).mpr (Or.inl ⟨hk, keeps⟩), rfl, rfl⟩
      · cases h
        exact ⟨k, hk, rfl, rfl⟩
  | launch recipe c =>
      cases h
      exact ⟨k, mem_launchSolo.mpr (Or.inl ⟨hk, keeps⟩), rfl, rfl⟩
  | cli recipe placement noRm c =>
      cases h
      exact ⟨k, mem_launchCli.mpr (Or.inl ⟨hk, keeps⟩), rfl, rfl⟩
  | foreign name autoRemove =>
      cases h
      exact ⟨k, mem_run.mpr (Or.inl hk), rfl, rfl⟩
  | discard name c =>
      cases h
      have left : k ∈ (l.host.remove name c.rm).containers :=
        mem_remove.mpr ⟨hk, fun gone => keeps ⟨gone.2.symm, gone.1⟩⟩
      exact ⟨k, left, rfl, rfl⟩
  | exit name =>
      cases h
      by_cases named : k.name = name
      · refine ⟨{ k with running := false }, mem_exit.mpr ⟨k, hk, Or.inr ⟨named, ?_, rfl⟩⟩, rfl, rfl⟩
        exact Bool.eq_false_iff.mpr fun auto => keeps ⟨named.symm, k, hk, rfl, auto⟩
      · exact ⟨k, mem_exit.mpr ⟨k, hk, Or.inl ⟨named, rfl⟩⟩, rfl, rfl⟩

/-- Where the containers after a step are from. -/
theorem step_origin (h : step host l a = some l') (distinct : l.host.Distinct) {k : Container}
    (hk : k ∈ l'.host.containers) :
    (∃ k' ∈ l.host.containers, k'.name = k.name ∧ k'.origin = k.origin ∧ Keeps k.name l a) ∨
      (Starts l.host k.name a ∧ k.origin.isRank = false) ∨
      ∃ epoch c, a = .frame (.commit epoch) c ∧ k.origin = .rank epoch := by
  cases a with
  | frame f c =>
      simp only [step] at h
      split at h
      · next did =>
          cases h
          cases (mem_frame did).mp hk with
          | inl old => exact Or.inl ⟨k, old.1, rfl, rfl, old.2⟩
          | inr new =>
              obtain ⟨epoch, r, rfl, _, _, _, rfl⟩ := new
              exact Or.inr (Or.inr ⟨epoch, c, rfl, rfl⟩)
      · next none_ =>
          cases h
          refine Or.inl ⟨k, hk, rfl, rfl, fun clears => ?_⟩
          cases f with
          | commit epoch =>
              simp only [serveRank] at none_
              split at none_ <;> cases none_
          | stopRank name => cases none_
          | _ => exact clears
  | launch recipe c =>
      cases h
      cases mem_launchSolo.mp hk with
      | inl old => exact Or.inl ⟨k, old.1, rfl, rfl, old.2⟩
      | inr new => exact Or.inr (Or.inl ⟨new.1, by rw [new.2]; rfl⟩)
  | cli recipe placement noRm c =>
      cases h
      cases mem_launchCli.mp hk with
      | inl old => exact Or.inl ⟨k, old.1, rfl, rfl, old.2⟩
      | inr new => exact Or.inr (Or.inl ⟨new.1, by rw [new.2]; rfl⟩)
  | foreign name autoRemove =>
      cases h
      cases mem_run.mp hk with
      | inl old => exact Or.inl ⟨k, old, rfl, rfl, id⟩
      | inr new =>
          obtain ⟨_, free, rfl⟩ := new
          exact Or.inr (Or.inl ⟨⟨rfl, free⟩, rfl⟩)
  | discard name c =>
      cases h
      have left : k ∈ (l.host.remove name c.rm).containers := hk
      obtain ⟨old, stays⟩ := mem_remove.mp left
      exact Or.inl ⟨k, old, rfl, rfl, fun clears => stays ⟨clears.2, clears.1.symm⟩⟩
  | exit name =>
      cases h
      obtain ⟨old, hold, ⟨other, rfl⟩ | ⟨named, kept, rfl⟩⟩ := mem_exit.mp hk
      · exact Or.inl ⟨k, hold, rfl, rfl, fun clears => other clears.1.symm⟩
      · refine Or.inl ⟨old, hold, rfl, rfl, ?_⟩
        rintro ⟨_, k', hk', same, auto⟩
        rw [distinct.eq hk' hold same, kept] at auto
        cases auto

theorem step_starts (h : step host l a = some l') {name : String} (starts : Starts l.host name a) :
    ∃ k ∈ l'.host.containers, k.name = name ∧ k.origin.isRank = false := by
  cases a with
  | launch recipe c =>
      cases h
      obtain rfl := starts.1
      exact ⟨_, mem_launchSolo.mpr (Or.inr ⟨starts, rfl⟩), rfl, rfl⟩
  | cli recipe placement noRm c =>
      cases h
      obtain rfl := starts.1
      exact ⟨_, mem_launchCli.mpr (Or.inr ⟨starts, rfl⟩), rfl, rfl⟩
  | foreign other autoRemove =>
      cases h
      obtain rfl := starts.1
      exact ⟨_, mem_run.mpr (Or.inr ⟨rfl, starts.2, rfl⟩), rfl, rfl⟩
  | frame | discard | exit => cases starts

/-- What one stop adds to what stops have removed. -/
theorem stop_removed {name : String} {c : Conditions}
    (h : step host l (.frame (.stopRank name) c) = some l') (k : Container) :
    k ∈ l'.removed ↔
      k ∈ l.removed ∨ (k ∈ l.host.containers ∧ name = k.name ∧ Executed k.name c) := by
  cases h
  have left : k ∈ ((service host c).stop l.host name).1.containers ↔ _ := mem_stop
  simp only [removedBy, List.mem_append, List.mem_filter, decide_eq_true_eq, left]
  exact or_congr_right ⟨fun ⟨hk, gone⟩ => ⟨hk, by_contra fun kept => gone ⟨hk, kept⟩⟩,
    fun ⟨hk, executed⟩ => ⟨hk, fun kept => kept.2 executed⟩⟩

theorem step_removed (h : step host l a = some l') :
    l'.removed = l.removed ∨ ∃ name c, a = .frame (.stopRank name) c := by
  cases a with
  | launch | cli | foreign | discard | exit =>
      cases h
      exact Or.inl rfl
  | frame f c =>
      cases f with
      | stopRank name => exact Or.inr ⟨name, c, rfl⟩
      | _ =>
          simp only [step] at h
          split at h
          · cases h
            simp [removedBy]
          · cases h
            exact Or.inl rfl

theorem Lodged.keep {name : String} (lodged : Lodged host as l name)
    (h : step host l a = some l') (keeps : Keeps name l a) : Lodged host (as ++ [a]) l' name := by
  obtain ⟨pre, b, mid, p, q, rfl, first, starts, started, rest⟩ := lodged
  refine ⟨pre, b, mid ++ [a], p, q, by simp, first, starts, started, ?_⟩
  exact rest.append (.cons ⟨keeps, h⟩ (.nil l'))

/-- Where a name is lodged there is a container of it that no commit started: by
induction over the steps since. -/
theorem Lodged.container {name : String} (lodged : Lodged host as l name) :
    ∃ k ∈ l.host.containers, k.name = name ∧ k.origin.isRank = false := by
  obtain ⟨_, _, _, _, _, _, _, starts, started, rest⟩ := lodged
  refine Run.invariant (I := fun l => ∃ k ∈ l.host.containers, k.name = name ∧
    k.origin.isRank = false) rest (step_starts started starts) ?_
  rintro s a t ⟨k, hk, rfl, notRank⟩ keeps h
  obtain ⟨k', hk', named, from_⟩ := step_keeps h hk keeps
  exact ⟨k', hk', named, from_ ▸ notRank⟩

theorem StopsStranger.append (stops : StopsStranger host as) (bs : List Action) :
    StopsStranger host (as ++ bs) := by
  obtain ⟨pre, name, c, post, l, rfl, lodged, executed⟩ := stops
  exact ⟨pre, name, c, post ++ bs, l, by simp, lodged, executed⟩

/-- What a run says of the containers it leaves and of those its stops removed. -/
structure Traced (host : RankHost) (as : List Action) (l : Ledger) : Prop where
  distinct : l.host.Distinct
  lodged : ∀ k ∈ l.host.containers, k.origin.isRank = false → Lodged host as l k.name
  committed : ∀ k, k ∈ l.host.containers ∨ k ∈ l.removed → ∀ epoch, k.origin = .rank epoch →
    ∃ c, Action.frame (.commit epoch) c ∈ as
  stopped : ∀ k ∈ l.removed, k.origin.isRank = false → StopsStranger host as

theorem Traced.step (traced : Traced host as l) (run : Run (step host) Free .start as l)
    (h : step host l a = some l') : Traced host (as ++ [a]) l' where
  distinct := step_distinct h traced.distinct
  lodged := by
    intro k hk notRank
    obtain ⟨k', hk', named, from_, keeps⟩ | ⟨starts, _⟩ | ⟨epoch, c, _, rank⟩ :=
      step_origin h traced.distinct hk
    · have before := traced.lodged k' hk' (from_ ▸ notRank)
      exact (named ▸ before).keep h keeps
    · exact ⟨as, a, [], l, l', rfl, run, starts, h, .nil l'⟩
    · rw [rank] at notRank
      cases notRank
  committed := by
    intro k held epoch rank
    have known : (∃ c, Action.frame (.commit epoch) c ∈ as) →
        ∃ c, Action.frame (.commit epoch) c ∈ as ++ [a] :=
      fun ⟨c, hc⟩ => ⟨c, List.mem_append_left _ hc⟩
    cases held with
    | inl here =>
        obtain ⟨k', hk', _, from_, _⟩ | ⟨_, notRank⟩ | ⟨e, c, rfl, new⟩ :=
          step_origin h traced.distinct here
        · exact known (traced.committed k' (Or.inl hk') epoch (from_ ▸ rank))
        · rw [rank] at notRank
          cases notRank
        · cases new.symm.trans rank
          exact ⟨c, List.mem_append_right _ List.mem_cons_self⟩
    | inr gone =>
        cases step_removed h with
        | inl same => exact known (traced.committed k (Or.inr (same ▸ gone)) epoch rank)
        | inr stop =>
            obtain ⟨name, c, rfl⟩ := stop
            cases (stop_removed h k).mp gone with
            | inl old => exact known (traced.committed k (Or.inr old) epoch rank)
            | inr new => exact known (traced.committed k (Or.inl new.1) epoch rank)
  stopped := by
    intro k hk notRank
    cases step_removed h with
    | inl same => exact (traced.stopped k (same ▸ hk) notRank).append _
    | inr stop =>
        obtain ⟨name, c, rfl⟩ := stop
        cases (stop_removed h k).mp hk with
        | inl old => exact (traced.stopped k old notRank).append _
        | inr new =>
            obtain ⟨held, rfl, executed⟩ := new
            exact ⟨as, k.name, c, [], l, rfl, traced.lodged k held notRank, executed⟩

end Steps

section Fixed

/-- A machine whose runtime does as it is asked. -/
def obliging : Conditions := ⟨0, true, true, .ok ⟨0, "", ""⟩, .ran, .ok ⟨0, "true", ""⟩⟩

def chat : RecipeId := ⟨"chat", by decide⟩

end Fixed

end LocalRank
end Metralectl
