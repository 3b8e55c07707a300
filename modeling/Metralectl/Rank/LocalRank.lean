import Metralectl.Peer.RankChannel
import Metralectl.Rank.Reservation

/-!
The rank service of one machine as its peers reach it, a call at a time, beside
the machine's own solo launches. Every container remembers who started it. What
the runtime comes to is settled beforehand, for each call; a name that is in use
is never given to a second container.
-/
namespace Metralectl
namespace LocalRank
open Peer Docker

/-- Who started a container: a commit of an epoch, a solo launch of the agent, the
operator at the command line, or somebody else. -/
inductive Origin where
  | rank (epoch : String)
  | solo (recipe : RecipeId)
  | cli (recipe : RecipeId) (placement : Docker.Placement)
  | foreign
deriving DecidableEq

def Origin.isRank : Origin → Bool
  | .rank _ => true
  | .solo _ | .cli _ _ | .foreign => false

structure Container where
  name : String
  origin : Origin
  /-- `--rm`. -/
  autoRemove : Bool
  running : Bool
deriving DecidableEq

structure Host where
  reserved : Option Reservation
  containers : List Container
deriving DecidableEq

/-- What a machine's surroundings come to while one call is served. -/
structure Conditions where
  now : Nat
  dockerOk : Bool
  canReach : Bool
  /-- `docker rm -f`, of a container to be replaced or to be stopped. -/
  rm : Except String Output
  run : RunOutcome
  inspect : Except String Output

namespace Host

def held (m : Host) (name : String) : Bool := m.containers.any (·.name = name)

/-- `docker rm -f`: it removes the container exactly if it succeeds. -/
def remove (m : Host) (name : String) (rm : Except String Output) : Host :=
  match rm with
  | .ok out =>
      if out.success then { m with containers := m.containers.filter (·.name ≠ name) } else m
  | .error _ => m

/-- `docker run --name`. -/
def run (m : Host) (name : String) (origin : Origin) (autoRemove : Bool) (outcome : RunOutcome) :
    Host × RunOutcome :=
  match outcome with
  | .ran =>
      if m.held name then (m, .failed 125 s!"Conflict. The container name {name} is in use")
      else ({ m with containers := m.containers ++ [⟨name, origin, autoRemove, true⟩] }, .ran)
  | .unstartable _ | .failed _ _ => (m, outcome)

end Host

def prepare (host : RankHost) (c : Conditions) (m : Host) (epoch : String)
    (assignment : RankAssignment) : Host × PrepareReply :=
  match host.check m.reserved c.now epoch with
  | .error reply => (m, reply)
  | .ok slot =>
      match host.probe assignment c.dockerOk c.canReach with
      | .error reply => ({ m with reserved := slot }, reply)
      | .ok plan =>
          ({ m with reserved := some (reserve epoch assignment plan c.now) }, .prepared)

def commit (c : Conditions) (m : Host) (epoch : String) : Host × Except String String :=
  match takeReserved m.reserved epoch with
  | .error e => (m, .error e)
  | .ok r =>
      let cleared := { m with reserved := none }.remove r.plan.name c.rm
      let (m, outcome) := cleared.run r.plan.name (.rank epoch) false c.run
      (m, commitReply r.plan outcome)

def stop (c : Conditions) (m : Host) (container : String) : Host × Except String Unit :=
  (if isOurContainer container then m.remove container c.rm else m, stopReply container c.rm)

/-- `LocalRankService`. What `render` shows is not followed any further. -/
def service (host : RankHost) (c : Conditions) : RankService Host where
  render _ assignment := (host.planFor assignment).map fun plan => (" ".intercalate plan.argv, [])
  prepare := prepare host c
  commit := commit c
  alive _ container := aliveReply container c.inspect
  stop := stop c
  abort m epoch := { m with reserved := releaseReserved m.reserved epoch }

/-- A solo launch of the agent that has passed its gates: a running container of its
name is left alone, a stopped one is cleared away. The agent never asks for `--rm`. -/
def launchSolo (c : Conditions) (m : Host) (recipe : RecipeId) : Host :=
  let name := containerName recipe.text .solo
  if m.containers.any (fun k => k.name = name && k.running) then m
  else ((m.remove name c.rm).run name (.solo recipe) false c.run).1

/-- `metralectl run`: whatever has the name is cleared away first, and the container
is started with `--rm` unless the operator asks for it to be kept. -/
def launchCli (c : Conditions) (m : Host) (recipe : RecipeId) (placement : Docker.Placement)
    (noRm : Bool) : Host :=
  let name := containerName recipe.text placement
  ((m.remove name c.rm).run name (.cli recipe placement) (!noRm) c.run).1

/-- A container stops: with `--rm` it is removed with that, else it keeps its name. -/
def exit (m : Host) (name : String) : Host :=
  { m with containers := m.containers.filterMap fun k =>
      if k.name = name then
        if k.autoRemove then none else some { k with running := false }
      else some k }

/-- Every gate of a prepare lets the assignment through. -/
def Accepts (host : RankHost) (c : Conditions) (m : Host) (epoch : String)
    (assignment : RankAssignment) : Prop :=
  (∃ slot, host.check m.reserved c.now epoch = .ok slot) ∧
    ∃ plan, host.probe assignment c.dockerOk c.canReach = .ok plan

def Host.Holds (m : Host) (epoch : String) : Prop := ∃ r, m.reserved = some r ∧ r.epoch = epoch

/-- A prepare stores a reservation for its epoch exactly if its gates let it, and
says so. -/
theorem prepare_accepted {host : RankHost} {c : Conditions} {m : Host} {epoch : String}
    {assignment : RankAssignment} (h : Accepts host c m epoch assignment) :
    (prepare host c m epoch assignment).2 = .prepared ∧
      (prepare host c m epoch assignment).1.Holds epoch := by
  obtain ⟨⟨slot, checked⟩, plan, probed⟩ := h
  simp only [prepare, checked, probed]
  exact ⟨trivial, _, rfl, rfl⟩

theorem prepare_refused {host : RankHost} {c : Conditions} {m : Host} {epoch : String}
    {assignment : RankAssignment} (h : ¬ Accepts host c m epoch assignment) :
    (∃ reason, (prepare host c m epoch assignment).2 = .refused reason) ∧
      ((prepare host c m epoch assignment).1.Holds epoch → m.Holds epoch) := by
  cases checked : host.check m.reserved c.now epoch with
  | error reply =>
      obtain ⟨reason, rfl⟩ := Rank.check_error checked
      simp only [prepare, checked]
      exact ⟨⟨reason, rfl⟩, id⟩
  | ok slot =>
      cases probed : host.probe assignment c.dockerOk c.canReach with
      | ok plan => exact absurd ⟨⟨slot, checked⟩, plan, probed⟩ h
      | error reply =>
          obtain ⟨reason, rfl⟩ := Rank.probe_error probed
          simp only [prepare, checked, probed]
          refine ⟨⟨reason, rfl⟩, ?_⟩
          rintro ⟨r, held, same⟩
          cases Rank.check_ok checked with
          | inl kept => exact ⟨r, kept ▸ held, same⟩
          | inr lapsed =>
              obtain ⟨_, _, _, gone⟩ := lapsed
              cases gone.symm.trans held

theorem prepare_iff {host : RankHost} {c : Conditions} {m : Host} {epoch : String}
    {assignment : RankAssignment} :
    (prepare host c m epoch assignment).2 = .prepared ↔ Accepts host c m epoch assignment := by
  constructor
  · intro stored
    by_contra not
    obtain ⟨reason, refused⟩ := (prepare_refused not).1
    rw [refused] at stored
    cases stored
  · exact fun accepted => (prepare_accepted accepted).1

theorem abort_released (m : Host) (epoch : String) :
    ¬ ({ m with reserved := releaseReserved m.reserved epoch } : Host).Holds epoch := by
  rintro ⟨r, held, same⟩
  simp only [releaseReserved] at held
  split at held
  · cases held
  · next other => exact other (by simp [held, same])

end LocalRank
end Metralectl
