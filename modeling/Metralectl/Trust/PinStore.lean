import Metralectl.Library.Interleaving
import Metralectl.Protocol.Ids

/-!
The set of peers this machine trusts: one file, read whole and written whole by
every operation, with no lock between the two. `remember_address` reads the
file, clones one pin, and adds the clone back, reading the file once more. What
a revocation is worth is decided by the copies in flight when it is saved.
-/
namespace Metralectl
namespace Trust
open Runs Interleaving

/-- One paired peer. Its name is display text, sanitised where it is read. -/
structure Pin where
  id : NodeId
  publicKey : String
  name : String
  pairedAt : Nat
  lastAddress : Option String
  controller : Bool
  bench : Bool
deriving DecidableEq

/-- The content of the file: at most one pin for an id, in no particular order. -/
abbrev Pins := List Pin

def get? (pins : Pins) (id : NodeId) : Option Pin := pins.find? (fun p => p.id = id)

def erase (pins : Pins) (id : NodeId) : Pins := pins.filter (fun p => p.id ≠ id)

/-- Insert a pin, replacing any other for its id. -/
def insert (pins : Pins) (pin : Pin) : Pins := pin :: erase pins pin.id

inductive Op where
  | add (pin : Pin)
  | remove (id : NodeId)
  | setController (id : NodeId) (granted : Bool)
  | setBench (id : NodeId) (granted : Bool)
  | rememberAddress (id : NodeId) (addr : String)
deriving DecidableEq

/-- What an operation does with the file it has read: it has a whole file to
save, a cloned pin to add, or nothing left to do but answer. -/
inductive Plan where
  | save (copy : Pins)
  | readd (pin : Pin)
  | answer (found : Bool)
deriving DecidableEq

def setOn (pins : Pins) (id : NodeId) (set : Pin → Pin) : Plan :=
  match get? pins id with
  | some pin => .save (insert pins (set pin))
  | none => .answer false

def Op.load (pins : Pins) : Op → Plan
  | .add pin => .save (insert pins pin)
  | .remove id =>
      match get? pins id with
      | some _ => .save (erase pins id)
      | none => .answer false
  | .setController id granted => setOn pins id fun pin => { pin with controller := granted }
  | .setBench id granted => setOn pins id fun pin => { pin with bench := granted }
  | .rememberAddress id addr =>
      match get? pins id with
      | some pin =>
          if pin.lastAddress ≠ some addr then .readd { pin with lastAddress := some addr }
          else .answer true
      | none => .answer true

inductive Task where
  | saving (op : Op) (copy : Pins)
  | readding (op : Op) (pin : Pin)
  | done (op : Op) (found : Bool)
  | failed (op : Op)
deriving DecidableEq

/-- Whether the next file operation of a call succeeds. -/
inductive Reply where
  | proceed
  | fail
deriving DecidableEq

def enter (file : Pins) (op : Op) : Option (Pins × Task) :=
  match op.load file with
  | .save copy => some (file, .saving op copy)
  | .readd pin => some (file, .readding op pin)
  | .answer found => some (file, .done op found)

def resume (file : Pins) : Task → Reply → Option (Pins × Task)
  | .saving op copy, .proceed => some (copy, .done op true)
  | .readding op pin, .proceed => some (file, .saving op (insert file pin))
  | .saving op _, .fail => some (file, .failed op)
  | .readding op _, .fail => some (file, .failed op)
  | .done _ _, _ => none
  | .failed _, _ => none

def store : Object Pins Task Op Reply := ⟨enter, resume⟩

abbrev State := Pool Pins Task
abbrev Action := Act Op Reply

/-- What a pin can say of a peer: that it is trusted at all, and two rights. -/
inductive Right where
  | pinned
  | controller
  | bench
deriving DecidableEq

def Right.of (pin : Pin) : Right → Bool
  | .pinned => true
  | .controller => pin.controller
  | .bench => pin.bench

/-- What a load of the file would say. -/
def shows (pins : Pins) (id : NodeId) (right : Right) : Bool := (get? pins id).any right.of

/-- The operations whose save takes a right away. -/
def Op.Revokes (id : NodeId) (right : Right) : Op → Prop
  | .remove other => other = id
  | .setController other granted => other = id ∧ granted = false ∧ right = .controller
  | .setBench other granted => other = id ∧ granted = false ∧ right = .bench
  | _ => False

/-- The operations that give it: an add of a pin that carries it, or a grant. -/
def Op.Grants (id : NodeId) (right : Right) : Op → Prop
  | .add pin => pin.id = id ∧ right.of pin = true
  | .setController other granted => other = id ∧ granted = true ∧ right = .controller
  | .setBench other granted => other = id ∧ granted = true ∧ right = .bench
  | _ => False

/-- A copy or a cloned pin in flight that still carries the right. -/
def Task.Carries (id : NodeId) (right : Right) : Task → Prop
  | .saving _ copy => shows copy id right = true
  | .readding _ pin => pin.id = id ∧ right.of pin = true
  | _ => False

/-- No call but the `i`th has the right in flight. -/
def Alone (p : State) (i : Nat) (id : NodeId) (right : Right) : Prop :=
  ∀ (j : Nat) t, p.tasks[j]? = some t → j ≠ i → ¬ t.Carries id right

/-- Nothing shows the right, and nothing in flight carries it. -/
structure Gone (id : NodeId) (right : Right) (p : State) : Prop where
  file : shows p.shared id right = false
  tasks : ∀ t ∈ p.tasks, ¬ t.Carries id right

/-- Every file a run may come to, from a state on, until an operation that gives
the right begins. -/
def StaysRevoked (p : State) (id : NodeId) (right : Right) : Prop :=
  ∀ as q, Run store.step Free p as q →
    (∀ op, .enter op ∈ as → ¬ op.Grants id right) → shows q.shared id right = false

section Lookup
variable {pins : Pins} {pin : Pin} {id : NodeId} {right : Right}

theorem get?_id (h : get? pins id = some pin) : pin.id = id := by
  simpa [get?] using List.find?_some h

theorem get?_erase (other : NodeId) :
    get? (erase pins other) id = if id = other then none else get? pins id := by
  simp only [get?, erase]
  split
  · next same =>
      apply List.find?_eq_none.mpr
      intro p hp
      have := (List.mem_filter.mp hp).2
      simpa [same] using this
  · next differs =>
      rw [List.find?_filter]
      congr 1
      funext p
      by_cases h : p.id = id
      · simp [h, differs]
      · simp [h]

theorem get?_insert : get? (insert pins pin) id = if id = pin.id then some pin else get? pins id := by
  by_cases same : id = pin.id
  · simp [get?, insert, same]
  · have tail : get? (insert pins pin) id = get? (erase pins pin.id) id := by
      simp [get?, insert, Ne.symm same]
    rw [tail, get?_erase, if_neg same, if_neg same]

@[simp] theorem shows_erase (other : NodeId) :
    shows (erase pins other) id right = if id = other then false else shows pins id right := by
  simp only [shows, get?_erase]
  split <;> rfl

@[simp] theorem shows_insert :
    shows (insert pins pin) id right = if id = pin.id then right.of pin else shows pins id right := by
  simp only [shows, get?_insert]
  split <;> rfl

theorem shows_of_get? (h : get? pins id = some pin) : shows pins id right = right.of pin := by
  simp [shows, h]

end Lookup

section Steps
variable {id : NodeId} {right : Right} {p q : State}

/-- The plan of an operation, in flight as a task. -/
def Plan.Carries (id : NodeId) (right : Right) : Plan → Prop
  | .save copy => shows copy id right = true
  | .readd pin => pin.id = id ∧ right.of pin = true
  | .answer _ => False

theorem setOn_carries {file : Pins} {other : NodeId} (set : Pin → Pin)
    (keeps : ∀ pin, (set pin).id = pin.id) (h : (setOn file other set).Carries id right) :
    (id = other ∧ ∃ pin, get? file id = some pin ∧ right.of (set pin) = true) ∨
      (id ≠ other ∧ shows file id right = true) := by
  simp only [setOn] at h
  split at h
  · next pin hget =>
      have same := (keeps pin).trans (get?_id hget)
      simp only [Plan.Carries, shows_insert, same] at h
      split at h
      · next here => exact Or.inl ⟨here, pin, by rw [here]; exact hget, h⟩
      · next there => exact Or.inr ⟨there, h⟩
  · exact h.elim

/-- Only a grant puts into its plan what the file it read does not show. -/
theorem load_carries {file : Pins} {op : Op} (h : shows file id right = false)
    (carries : (op.load file).Carries id right) : op.Grants id right := by
  cases op with
  | add pin =>
      simp only [Op.load, Plan.Carries, shows_insert] at carries
      split at carries
      · next same => exact ⟨same.symm, carries⟩
      · rw [h] at carries
        cases carries
  | remove other =>
      simp only [Op.load] at carries
      split at carries
      · simp only [Plan.Carries, shows_erase] at carries
        split at carries
        · cases carries
        · rw [h] at carries
          cases carries
      · exact carries.elim
  | setController other granted =>
      rcases setOn_carries (fun pin => { pin with controller := granted })
          (fun _ => rfl) carries with ⟨same, pin, hget, has⟩ | ⟨_, before⟩
      · rw [shows_of_get? hget] at h
        cases right with
        | pinned => cases h
        | controller => exact ⟨same.symm, has, rfl⟩
        | bench => exact absurd (h.symm.trans has) Bool.false_ne_true
      · rw [h] at before
        cases before
  | setBench other granted =>
      rcases setOn_carries (fun pin => { pin with bench := granted })
          (fun _ => rfl) carries with ⟨same, pin, hget, has⟩ | ⟨_, before⟩
      · rw [shows_of_get? hget] at h
        cases right with
        | pinned => cases h
        | controller => exact absurd (h.symm.trans has) Bool.false_ne_true
        | bench => exact ⟨same.symm, has, rfl⟩
      · rw [h] at before
        cases before
  | rememberAddress other addr =>
      simp only [Op.load] at carries
      split at carries
      · next pin hget =>
          split at carries
          · obtain ⟨same, has⟩ := carries
            have before : right.of pin = false := by
              rw [← shows_of_get? hget, ← get?_id hget, show pin.id = id from same]
              exact h
            have kept : right.of pin = true := by
              cases right <;> exact has
            rw [before] at kept
            cases kept
          · exact carries.elim
      · exact carries.elim

/-- A revocation's own copy does not show what it revokes. -/
theorem load_revokes {file : Pins} {op : Op} (revokes : op.Revokes id right) :
    ¬ (op.load file).Carries id right := by
  intro carries
  cases op with
  | add | rememberAddress => exact revokes.elim
  | remove other =>
      simp only [Op.load] at carries
      split at carries
      · simp only [Plan.Carries, shows_erase, if_pos (show id = other from revokes.symm)] at carries
        cases carries
      · exact carries.elim
  | setController other granted =>
      obtain ⟨same, rfl, rfl⟩ := revokes
      rcases setOn_carries (fun pin => { pin with controller := false })
          (fun _ => rfl) carries with ⟨_, pin, _, has⟩ | ⟨differs, _⟩
      · cases has
      · exact differs same.symm
  | setBench other granted =>
      obtain ⟨same, rfl, rfl⟩ := revokes
      rcases setOn_carries (fun pin => { pin with bench := false })
          (fun _ => rfl) carries with ⟨_, pin, _, has⟩ | ⟨differs, _⟩
      · cases has
      · exact differs same.symm

/-- A call begins by reading the file. -/
theorem enter_file {file file' : Pins} {op : Op} {t : Task}
    (h : enter file op = some (file', t)) : file' = file := by
  simp only [enter] at h
  split at h <;> cases h <;> rfl

/-- The task a call becomes carries what its plan does. -/
theorem enter_carries {file file' : Pins} {op : Op} {t : Task}
    (h : enter file op = some (file', t)) :
    file' = file ∧ (t.Carries id right ↔ (op.load file).Carries id right) := by
  simp only [enter] at h
  split at h
  · next copy hplan =>
      cases h
      exact ⟨rfl, by rw [hplan]; rfl⟩
  · next pin hplan =>
      cases h
      exact ⟨rfl, by rw [hplan]; rfl⟩
  · next found hplan =>
      cases h
      exact ⟨rfl, by rw [hplan]; rfl⟩

/-- Going on with a task that does not carry a right keeps it away. -/
theorem resume_gone {file file' : Pins} {t t' : Task} {rep : Reply}
    (h : resume file t rep = some (file', t')) (gone : shows file id right = false)
    (ht : ¬ t.Carries id right) : shows file' id right = false ∧ ¬ t'.Carries id right := by
  cases t with
  | done | failed => cases rep <;> cases h
  | saving op copy =>
      cases rep with
      | proceed =>
          cases h
          exact ⟨by simpa [Task.Carries] using ht, not_false⟩
      | fail =>
          cases h
          exact ⟨gone, not_false⟩
  | readding op pin =>
      cases rep with
      | proceed =>
          cases h
          refine ⟨gone, ?_⟩
          intro carries
          simp only [Task.Carries, shows_insert] at carries
          split at carries
          · next same => exact ht ⟨same.symm, carries⟩
          · rw [gone] at carries
            cases carries
      | fail =>
          cases h
          exact ⟨gone, not_false⟩

/-- One step keeps a right gone, unless it begins an operation that gives it. -/
theorem Gone.step {a : Action} (hp : Gone id right p) (h : store.step p a = some q)
    (quiet : ∀ op, a = .enter op → ¬ op.Grants id right) : Gone id right q := by
  cases a with
  | enter op =>
      obtain ⟨file, t, he, rfl⟩ := Object.step_enter h
      have entered : _ ∧ (t.Carries id right ↔ _) := enter_carries he
      obtain ⟨rfl, carries⟩ := entered
      refine ⟨hp.file, ?_⟩
      intro u hu
      cases List.mem_append.mp hu with
      | inl old => exact hp.tasks u old
      | inr new =>
          rw [List.mem_singleton.mp new, carries]
          exact fun planned => quiet op rfl (load_carries hp.file planned)
  | resume i rep =>
      obtain ⟨t, file, t', ht, hr, rfl⟩ := Object.step_resume h
      obtain ⟨hfile, ht'⟩ := resume_gone hr hp.file (hp.tasks t (List.mem_of_getElem? ht))
      refine ⟨hfile, ?_⟩
      intro u hu
      rcases List.mem_or_eq_of_mem_set hu with old | rfl
      · exact hp.tasks u old
      · exact ht'

end Steps

section Revocation
variable {id : NodeId} {right : Right} {p q : State} {i : Nat} {op : Op} {copy : Pins}

/-- A copy to be saved for a revocation does not show what is revoked; what
clones a pin revokes nothing. -/
def Task.Honest : Task → Prop
  | .saving op copy => ∀ id right, op.Revokes id right → shows copy id right = false
  | .readding op _ => ∀ id right, ¬ op.Revokes id right
  | _ => True

theorem load_readd {file : Pins} {pin : Pin} (h : op.load file = .readd pin) :
    ¬ op.Revokes id right := by
  cases op with
  | add | rememberAddress => exact not_false
  | remove other =>
      simp only [Op.load] at h
      split at h <;> cases h
  | setController other granted | setBench other granted =>
      simp only [Op.load, setOn] at h
      split at h <;> cases h

theorem enter_honest {file file' : Pins} {t : Task} (h : enter file op = some (file', t)) :
    t.Honest := by
  simp only [enter] at h
  split at h
  · next copy hplan =>
      cases h
      intro id right revokes
      have kept : ¬ (op.load file).Carries id right := load_revokes revokes
      rw [hplan] at kept
      simpa [Plan.Carries] using kept
  · next pin hplan =>
      cases h
      exact fun id right => load_readd hplan
  · cases h
    trivial

theorem resume_honest {file file' : Pins} {t t' : Task} {rep : Reply} (ht : t.Honest)
    (h : resume file t rep = some (file', t')) : t'.Honest := by
  cases t with
  | done | failed => cases rep <;> cases h
  | saving op copy => cases rep <;> cases h <;> trivial
  | readding op pin =>
      cases rep with
      | proceed =>
          cases h
          exact fun id right revokes => absurd revokes (ht id right)
      | fail =>
          cases h
          trivial

theorem run_honest {file : Pins} {as : List Action}
    (run : Run store.step Free (Pool.start file) as p) : ∀ t ∈ p.tasks, t.Honest := by
  refine Run.invariant (I := fun p => ∀ t ∈ p.tasks, t.Honest) run ?_ ?_
  · intro t ht
    cases ht
  · intro p a q hp _ h
    cases a with
    | enter op =>
        obtain ⟨file, t, he, rfl⟩ := Object.step_enter h
        intro u hu
        cases List.mem_append.mp hu with
        | inl old => exact hp u old
        | inr new =>
            rw [List.mem_singleton.mp new]
            exact enter_honest he
    | resume i rep =>
        obtain ⟨t, file, t', ht, hr, rfl⟩ := Object.step_resume h
        intro u hu
        rcases List.mem_or_eq_of_mem_set hu with old | rfl
        · exact hp u old
        · exact resume_honest (hp t (List.mem_of_getElem? ht)) hr

/-- Nothing in flight and nothing in the file: the right stays away. -/
theorem Gone.stays (h : Gone id right p) : StaysRevoked p id right := by
  intro as q run quiet
  have gone : Gone id right q := by
    induction run with
    | nil _ => exact h
    | @cons p m q a as hstep _ ih =>
        refine ih (h.step hstep.2 ?_) fun op hop => quiet op (List.mem_cons_of_mem _ hop)
        intro op ha
        exact quiet op (by rw [ha]; exact List.mem_cons_self)
  exact gone.file

/-- A call that still carries the right brings it back with its next one or two
file operations. -/
theorem carried_comes_back {j : Nat} {t : Task} (ht : p.tasks[j]? = some t)
    (carries : t.Carries id right) : ¬ StaysRevoked p id right := by
  have inside := (List.getElem?_eq_some_iff.mp ht).1
  intro stays
  cases t with
  | done | failed => exact carries.elim
  | saving op copy =>
      have step : store.step p (.resume j .proceed) =
          some ⟨copy, p.tasks.set j (.done op true)⟩ := Object.resume_step ht rfl
      have after := stays [.resume j .proceed] _ (.cons ⟨trivial, step⟩ (.nil _)) (by simp)
      rw [show shows copy id right = true from carries] at after
      cases after
  | readding op pin =>
      have first : store.step p (.resume j .proceed) =
          some ⟨p.shared, p.tasks.set j (.saving op (insert p.shared pin))⟩ :=
        Object.resume_step ht rfl
      have there : (p.tasks.set j (.saving op (insert p.shared pin)))[j]? =
          some (.saving op (insert p.shared pin)) := by
        simp [inside]
      have second : store.step ⟨p.shared, p.tasks.set j (.saving op (insert p.shared pin))⟩
          (.resume j .proceed) = some ⟨insert p.shared pin, _⟩ := Object.resume_step there rfl
      have after := stays [.resume j .proceed, .resume j .proceed] _
        (.cons ⟨trivial, first⟩ (.cons ⟨trivial, second⟩ (.nil _))) (by simp)
      obtain ⟨same, has⟩ := carries
      simp only [shows_insert, same, if_pos, has] at after
      cases after

/-- A revocation, as it is saved, holds against everything that comes after,
until the right is given again, exactly when no other operation in flight still
carries what it revokes: a copy of the file, or a pin cloned from one. -/
theorem revocation_stands_iff (file : Pins) (as : List Action) (p q : State) (i : Nat) (op : Op)
    (copy : Pins) (id : NodeId) (right : Right)
    (run : Run store.step Free (Pool.start file) as p)
    (saving : p.tasks[i]? = some (.saving op copy)) (revokes : op.Revokes id right)
    (saved : store.step p (.resume i .proceed) = some q) :
    StaysRevoked q id right ↔ Alone p i id right := by
  have after : store.step p (.resume i .proceed) =
      some ⟨copy, p.tasks.set i (.done op true)⟩ := Object.resume_step saving rfl
  rw [saved] at after
  cases after
  constructor
  · intro stays j t ht hji carries
    have there : (p.tasks.set i (.done op true))[j]? = some t := by
      rw [List.getElem?_set_ne (Ne.symm hji)]
      exact ht
    exact carried_comes_back (p := ⟨copy, p.tasks.set i (.done op true)⟩) there carries stays
  · intro alone
    apply Gone.stays
    have honest : Task.Honest (.saving op copy) := run_honest run _ (List.mem_of_getElem? saving)
    refine ⟨honest id right revokes, ?_⟩
    intro t ht
    obtain ⟨j, hj⟩ := List.getElem?_of_mem ht
    rcases task_of_set hj with ⟨_, rfl⟩ | ⟨hji, old⟩
    · exact not_false
    · exact alone j t old hji

end Revocation

section Fixed

def laptop : Pin := ⟨7, "ab", "laptop", 0, none, true, false⟩

def phone : Pin := ⟨9, "cd", "phone", 0, none, true, false⟩

/-- The poll of another machine, which has cloned that one's pin. -/
def polling : Task := .readding (.rememberAddress 9 "10.0.0.4") { phone with lastAddress := some "10.0.0.4" }

/-- A machine is unpaired while another is polled: no later file shows that the first may
control this one. -/
theorem revocation_stands_iff_unpair :
    StaysRevoked ⟨[phone], [polling, .done (.remove 7) true]⟩ 7 .controller := by
  have run : Run store.step Free (Pool.start [laptop, phone])
      [.enter (.rememberAddress 9 "10.0.0.4"), .enter (.remove 7)]
      ⟨[laptop, phone], [polling, .saving (.remove 7) [phone]]⟩ := Run.of_replay rfl
  apply (revocation_stands_iff [laptop, phone] _ _ ⟨[phone], [polling, .done (.remove 7) true]⟩
    1 (.remove 7) [phone] 7 .controller run rfl rfl rfl).mpr
  intro j t ht hj
  have within := (List.getElem?_eq_some_iff.mp ht).1
  simp only [List.length_cons, List.length_nil] at within
  obtain rfl : j = 0 := by omega
  cases ht
  rintro ⟨same, -⟩
  exact absurd same (by decide)

/-- The poll of a machine clones its pin, the machine is removed, and the poll
adds the clone back: it is trusted again, with the right to control. -/
theorem not_revoked_remember_address :
    ∃ as q, Run store.step Free (Pool.start [laptop]) as q ∧
      q.tasks[1]? = some (Task.done (.remove 7) true) ∧ shows q.shared 7 .pinned = false ∧
      ¬ StaysRevoked q 7 .pinned := by
  refine ⟨[.enter (.rememberAddress 7 "10.0.0.9"), .enter (.remove 7), .resume 1 .proceed],
    ⟨[], [.readding (.rememberAddress 7 "10.0.0.9") { laptop with lastAddress := some "10.0.0.9" },
      .done (.remove 7) true]⟩, Run.of_replay rfl, rfl, rfl, ?_⟩
  intro stays
  have back := stays [.resume 0 .proceed, .resume 0 .proceed] _ (Run.of_replay rfl) (by simp)
  exact absurd back (by decide)

end Fixed

end Trust
end Metralectl
