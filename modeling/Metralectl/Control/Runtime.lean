import Metralectl.Control.DockerLauncher

/-!
The containers one runtime holds, whoever asks it for them. A container is
running, has exited, or has been removed; it never goes back. The runtime gives
no id twice and gives a name to one container at a time.
-/
namespace Metralectl
namespace Docker

inductive Status where
  | running
  | exited
  | removed
deriving DecidableEq

/-- A container ends, or goes, but what is gone stays gone. -/
def Status.down : Status → Status → Status
  | .running, goal => goal
  | .exited, .running => .exited
  | .exited, goal => goal
  | .removed, _ => .removed

structure Held where
  container : Container
  status : Status
deriving DecidableEq

def Held.present (h : Held) : Bool := h.status ≠ .removed

structure Engine where
  held : List Held
  ids : (held.map (·.container.id)).Nodup
  names : ((held.filter Held.present).map (·.container.name)).Nodup
deriving DecidableEq

namespace Engine

/-- A runtime that has never held a container. -/
def empty : Engine := ⟨[], List.nodup_nil, List.nodup_nil⟩

def running (e : Engine) : List Container :=
  (e.held.filter (·.status = .running)).map (·.container)

/-- What is left of containers that are not running. -/
def left (e : Engine) : List Container :=
  (e.held.filter (·.status = .exited)).map (·.container)

/-- Every container the runtime has ever held. -/
def known (e : Engine) : List Container := e.held.map (·.container)

/-- What `docker ps` lists: the running containers. -/
def rows (e : Engine) : List PsRow := e.running.map psRow

def lowered (p : Container → Bool) (goal : Status) (h : Held) : Held :=
  if p h.container then { h with status := h.status.down goal } else h

@[simp] theorem lowered_container {p : Container → Bool} {goal : Status} {h : Held} :
    (lowered p goal h).container = h.container := by
  unfold lowered
  split <;> rfl

theorem present_lowered {p : Container → Bool} {goal : Status} {h : Held}
    (here : (lowered p goal h).present = true) : h.present = true := by
  cases h with
  | mk c status =>
      cases status with
      | running | exited => rfl
      | removed =>
          have stays : lowered p goal ⟨c, .removed⟩ = ⟨c, .removed⟩ := by
            unfold lowered
            split <;> rfl
          rw [stays] at here
          exact here

theorem sublist_lowered (p : Container → Bool) (goal : Status) (held : List Held) :
    (((held.map (lowered p goal)).filter Held.present).map (·.container.name)).Sublist
      ((held.filter Held.present).map (·.container.name)) := by
  induction held with
  | nil => exact .slnil
  | cons h held ih =>
      rw [List.map_cons, List.filter_cons, List.filter_cons]
      split
      · next here =>
          rw [if_pos (present_lowered here), List.map_cons, List.map_cons, lowered_container]
          exact ih.cons_cons _
      · split
        · exact ih.cons _
        · exact ih

/-- Every container that meets `p` ends, or goes. -/
def lower (e : Engine) (p : Container → Bool) (goal : Status) : Engine where
  held := e.held.map (lowered p goal)
  ids := by
    rw [List.map_map]
    simpa only [Function.comp_def, lowered_container] using e.ids
  names := e.names.sublist (sublist_lowered p goal e.held)

/-- `docker run` of a container: its id must be new and its name free. -/
def start (e : Engine) (c : Container) : Option Engine :=
  if fresh : c.id ∉ e.held.map (·.container.id) ∧
      c.name ∉ (e.held.filter Held.present).map (·.container.name) then
    some
      { held := e.held ++ [⟨c, .running⟩]
        ids := by
          rw [List.map_append, List.map_singleton, List.nodup_append]
          refine ⟨e.ids, List.nodup_singleton _, ?_⟩
          intro id old id' new same
          rw [List.mem_singleton.mp new] at same
          exact fresh.1 (same ▸ old)
        names := by
          rw [List.filter_append, List.map_append, List.nodup_append]
          refine ⟨e.names, List.nodup_singleton _, ?_⟩
          intro name old name' new same
          obtain rfl := List.mem_singleton.mp new
          change name = c.name at same
          exact fresh.2 (same ▸ old) }
  else none

section Laws
variable {e f : Engine} {c d : Container} {p : Container → Bool} {goal : Status}

theorem mem_running : c ∈ e.running ↔ ⟨c, .running⟩ ∈ e.held := by
  simp only [running, List.mem_map, List.mem_filter, decide_eq_true_eq]
  constructor
  · intro h
    obtain ⟨h, ⟨hm, status⟩, rfl⟩ := h
    cases h with
    | mk c s =>
        cases status
        exact hm
  · intro h
    exact ⟨_, ⟨h, rfl⟩, rfl⟩

/-- Of the running containers, a name names one. -/
theorem running_name (hc : c ∈ e.running) (hd : d ∈ e.running) (same : c.name = d.name) :
    c = d := by
  have here {x : Container} (hx : x ∈ e.running) :
      ⟨x, .running⟩ ∈ e.held.filter Held.present :=
    List.mem_filter.mpr ⟨mem_running.mp hx, rfl⟩
  have held := List.inj_on_of_nodup_map e.names (here hc) (here hd) same
  cases held
  rfl

/-- What ends or goes is not running any more; everything else runs on. -/
theorem running_lower (ends : goal ≠ .running) :
    c ∈ (e.lower p goal).running ↔ c ∈ e.running ∧ p c = false := by
  simp only [mem_running, lower, List.mem_map]
  constructor
  · intro h
    obtain ⟨h, hm, low⟩ := h
    cases h with
    | mk d s =>
        unfold lowered at low
        split at low
        · cases s with
          | running => exact absurd (congrArg Held.status low) ends
          | exited =>
              cases goal with
              | running => exact absurd rfl ends
              | exited | removed => cases low
          | removed => cases low
        · next spared =>
            cases low
            exact ⟨hm, Bool.not_eq_true _ ▸ spared⟩
  · intro h
    refine ⟨⟨c, .running⟩, h.1, ?_⟩
    simp [lowered, h.2]

/-- Nothing runs again. -/
theorem running_of_lower (h : c ∈ (e.lower p goal).running) : c ∈ e.running := by
  simp only [mem_running, lower, List.mem_map] at h ⊢
  obtain ⟨h, hm, low⟩ := h
  cases h with
  | mk d s =>
      unfold lowered at low
      split at low
      · cases s with
        | running =>
            cases low
            exact hm
        | exited => cases goal <;> cases low
        | removed => cases low
      · cases low
        exact hm

theorem running_start (h : e.start c = some f) : f.running = e.running ++ [c] := by
  unfold start at h
  split at h
  · cases h
    simp [running]
  · cases h

theorem known_of_running (h : c ∈ e.running) : c ∈ e.known :=
  List.mem_map.mpr ⟨_, mem_running.mp h, rfl⟩

theorem known_id (hc : c ∈ e.known) (hd : d ∈ e.known) (same : c.id = d.id) : c = d := by
  obtain ⟨h, hm, rfl⟩ := List.mem_map.mp hc
  obtain ⟨k, km, rfl⟩ := List.mem_map.mp hd
  rw [List.inj_on_of_nodup_map e.ids hm km same]

@[simp] theorem known_lower (p : Container → Bool) (goal : Status) :
    (e.lower p goal).known = e.known := by
  simp only [known, lower, List.map_map, Function.comp_def, lowered_container]

theorem known_start (h : e.start c = some f) : f.known = e.known ++ [c] := by
  unfold start at h
  split at h
  · cases h
    simp [known]
  · cases h

end Laws
end Engine

end Docker
end Metralectl
