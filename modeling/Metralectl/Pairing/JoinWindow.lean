import Metralectl.Library.Interleaving

/-!
The window in which this machine accepts a new member, and the ceremonies that
go through it. `begin_attempt` hands out the code of whatever invitation is in
the slot; `consume` takes whatever is in the slot by then. A mint and a revoke
can come between the two. Times are nanoseconds.
-/
namespace Metralectl
namespace Joining
open Runs Interleaving

/-- How long a minted invitation stays open. -/
def joinTtl : Nat := 10 * 60 * 1000000000

def maxAttempts : Nat := 3

/-- An outstanding invitation. -/
structure Pending where
  code : String
  opened : Nat
  attempts : Nat
  allowControl : Bool
deriving DecidableEq

/-- What a spent invitation granted. -/
structure Consumed where
  allowControl : Bool
deriving DecidableEq

abbrev Slot := Option Pending

/-- Open a window, replacing any invitation already outstanding. -/
def mint (_ : Slot) (now : Nat) (code : String) (allowControl : Bool) : Slot :=
  some ⟨code, now, 0, allowControl⟩

def revoke (_ : Slot) : Slot := none

def isOpen (slot : Slot) (now : Nat) : Bool :=
  slot.any fun p => now - p.opened < joinTtl && p.attempts < maxAttempts

/-- Reserve one attempt and return the code, or nothing if none remain. An
expired invitation is cleared, an exhausted one is not. -/
def beginAttempt (slot : Slot) (now : Nat) : Slot × Option String :=
  match slot with
  | none => (none, none)
  | some p =>
      if joinTtl ≤ now - p.opened then (none, none)
      else if maxAttempts ≤ p.attempts then (some p, none)
      else (some { p with attempts := p.attempts + 1 }, some p.code)

/-- Close the window because it was used. -/
def consume (slot : Slot) : Slot × Option Consumed :=
  (none, slot.map fun p => ⟨p.allowControl⟩)

inductive Call where
  | mint (code : String) (allowControl : Bool)
  | revoke
  | join
  | tick (elapsed : Nat)
deriving DecidableEq

/-- How the exchange of one ceremony ended. -/
inductive Reply where
  | failed
  | paired
deriving DecidableEq

/-- A ceremony remembers which mint of the run its code came from. The code
itself keeps no such number. -/
inductive Task where
  | handed (minted : Nat) (code : String)
  | turnedAway
  | failed (minted : Nat)
  | lost (minted : Nat)
  | admitted (minted : Nat) (allowControl : Bool)
  | finished
deriving DecidableEq

/-- The window and the clock; and, of the run so far, the grant of every mint
and the mints that were outstanding when a revoke came. -/
structure Shared where
  slot : Slot
  now : Nat
  mints : List Bool
  revoked : List Nat
deriving DecidableEq

/-- The newest mint, the only one whose invitation can be in the slot. -/
def Shared.newest (s : Shared) : Nat := s.mints.length - 1

def enter (s : Shared) : Call → Option (Shared × Task)
  | .mint code allowControl =>
      some ({ s with slot := mint s.slot s.now code allowControl
                     mints := s.mints ++ [allowControl] }, .finished)
  | .revoke =>
      some ({ s with slot := revoke s.slot
                     revoked := if s.slot.isSome then s.newest :: s.revoked else s.revoked },
        .finished)
  | .join =>
      match beginAttempt s.slot s.now with
      | (slot, some code) => some ({ s with slot }, .handed s.newest code)
      | (slot, none) => some ({ s with slot }, .turnedAway)
  | .tick elapsed => some ({ s with now := s.now + elapsed }, .finished)

/-- The rest of a ceremony: a failed exchange has been charged already; a
completed one spends the invitation that is in the slot. -/
def resume (s : Shared) : Task → Reply → Option (Shared × Task)
  | .handed minted _, .failed => some (s, .failed minted)
  | .handed minted _, .paired =>
      match consume s.slot with
      | (slot, none) => some ({ s with slot }, .lost minted)
      | (slot, some c) => some ({ s with slot }, .admitted minted c.allowControl)
  | _, _ => none

def window : Object Shared Task Call Reply := ⟨enter, resume⟩

abbrev State := Pool Shared Task
abbrev Action := Act Call Reply

def closed : State := Pool.start ⟨none, 0, [], []⟩

/-- The mint is the last one so far and has not been revoked. -/
def Current (s : Shared) (minted : Nat) : Prop :=
  minted + 1 = s.mints.length ∧ minted ∉ s.revoked

def Admits (p : State) (i minted : Nat) (allowControl : Bool) : Prop :=
  p.tasks[i]? = some (.admitted minted allowControl)

/-- One invitation, one machine, its own grant: no two ceremonies handed one
mint's code are admitted, and each is admitted while its mint is the current
one, with the grant that mint was given. -/
def OneInvitation (as : List Action) : Prop :=
  (∀ pre post p, as = pre ++ post → Run window.step Free closed pre p →
    ∀ i j minted g g', Admits p i minted g → Admits p j minted g' → i = j) ∧
  (∀ pre a post p q, as = pre ++ a :: post → Run window.step Free closed pre p →
    window.step p a = some q → ∀ i minted g, Admits q i minted g → ¬ Admits p i minted g →
    p.shared.mints[minted]? = some g ∧ Current p.shared minted)

/-- A completed ceremony finds the slot empty, or the invitation in it is still
the one whose code it was handed. -/
def SpendsOwn (p : State) : Action → Prop
  | .resume i .paired =>
      match p.tasks[i]? with
      | some (.handed minted _) => p.shared.slot.isSome → minted = p.shared.newest
      | _ => True
  | _ => True

instance (p : State) (a : Action) : Decidable (SpendsOwn p a) := by
  unfold SpendsOwn
  repeat' split
  all_goals infer_instance

/-- The mint a ceremony was handed the code of. -/
def Task.minted? : Task → Option Nat
  | .handed minted _ => some minted
  | .failed minted => some minted
  | .lost minted => some minted
  | .admitted minted _ => some minted
  | .turnedAway => none
  | .finished => none

/-- What any run keeps: an invitation in the slot is that of the newest mint,
with its grant, and no revoke has met it; no number is ahead of the mints. -/
structure Sound (p : State) : Prop where
  granted : ∀ w ∈ p.shared.slot, p.shared.mints.getLast? = some w.allowControl
  unrevoked : p.shared.slot.isSome → p.shared.newest ∉ p.shared.revoked
  revoked_lt : ∀ k ∈ p.shared.revoked, k < p.shared.mints.length
  minted_lt : ∀ t ∈ p.tasks, ∀ k ∈ t.minted?, k < p.shared.mints.length

/-- What the runs keep in which completed ceremonies spend their own. -/
structure Single (p : State) : Prop where
  unspent : p.shared.slot.isSome → ∀ i g, ¬ Admits p i p.shared.newest g
  once : ∀ i j minted g g', Admits p i minted g → Admits p j minted g' → i = j

theorem Sound.current {p : State} (h : Sound p) (open_ : p.shared.slot.isSome) :
    Current p.shared p.shared.newest := by
  obtain ⟨w, hw⟩ := Option.isSome_iff_exists.mp open_
  have last := h.granted w hw
  refine ⟨?_, h.unrevoked open_⟩
  have : p.shared.mints ≠ [] := by
    intro none
    rw [none] at last
    cases last
  have := List.length_pos_iff.mpr this
  simp only [Shared.newest]
  omega

theorem Sound.grant {p : State} (h : Sound p) {w : Pending} (hw : p.shared.slot = some w) :
    p.shared.mints[p.shared.newest]? = some w.allowControl := by
  rw [← h.granted w hw, List.getLast?_eq_getElem?]
  rfl

theorem beginAttempt_some {slot slot' : Slot} {now : Nat} {code : String}
    (h : beginAttempt slot now = (slot', some code)) :
    ∃ w, slot = some w ∧ slot' = some { w with attempts := w.attempts + 1 } ∧ code = w.code := by
  cases slot with
  | none => cases h
  | some w =>
      simp only [beginAttempt] at h
      split at h
      · cases h
      · split at h
        · cases h
        · cases h
          exact ⟨w, rfl, rfl, rfl⟩

theorem beginAttempt_none {slot slot' : Slot} {now : Nat}
    (h : beginAttempt slot now = (slot', none)) : slot' = none ∨ slot' = slot := by
  cases slot with
  | none =>
      cases h
      exact Or.inl rfl
  | some w =>
      simp only [beginAttempt] at h
      split at h
      · cases h
        exact Or.inl rfl
      · split at h
        · cases h
          exact Or.inr rfl
        · cases h

/-- No new invitation, no new grant: what is in the slot was there before. -/
structure Narrows (p q : State) : Prop where
  slot : ∀ w' ∈ q.shared.slot, ∃ w ∈ p.shared.slot, w'.allowControl = w.allowControl
  mints : q.shared.mints = p.shared.mints
  revoked : q.shared.revoked = p.shared.revoked

theorem Narrows.of_slot {p q : State} (slot : q.shared.slot = none ∨ q.shared.slot = p.shared.slot)
    (mints : q.shared.mints = p.shared.mints) (revoked : q.shared.revoked = p.shared.revoked) :
    Narrows p q := by
  refine ⟨?_, mints, revoked⟩
  intro w hw
  cases slot with
  | inl emptied =>
      rw [emptied] at hw
      cases hw
  | inr kept => exact ⟨w, kept ▸ hw, rfl⟩

/-- What one segment of one call does to the window, and to who is admitted. -/
inductive Moves (p : State) (a : Action) (q : State) : Prop
  | minted {allowControl} : q.shared.slot.map (·.allowControl) = some allowControl →
      q.shared.mints = p.shared.mints ++ [allowControl] → q.shared.revoked = p.shared.revoked →
      q.tasks = p.tasks ++ [Task.finished] → Moves p a q
  | revoked : q.shared.slot = none → q.shared.mints = p.shared.mints →
      (∀ k ∈ q.shared.revoked, k ∈ p.shared.revoked ∨ p.shared.slot.isSome ∧ k = p.shared.newest) →
      q.tasks = p.tasks ++ [Task.finished] → Moves p a q
  | entered {t} : Narrows p q → (∀ k ∈ t.minted?, p.shared.slot.isSome ∧ k = p.shared.newest) →
      (∀ k b, t ≠ Task.admitted k b) → q.tasks = p.tasks ++ [t] → Moves p a q
  | ended {i k code t} : p.tasks[i]? = some (.handed k code) → Narrows p q →
      t.minted? = some k → (∀ k b, t ≠ Task.admitted k b) → q.tasks = p.tasks.set i t → Moves p a q
  | admitted {i k code w} : a = .resume i .paired → p.tasks[i]? = some (.handed k code) →
      p.shared.slot = some w → q.shared.slot = none → Narrows p q →
      q.tasks = p.tasks.set i (.admitted k w.allowControl) → Moves p a q

theorem enter_moves {p : State} {c : Call} {s : Shared} {t : Task}
    (h : enter p.shared c = some (s, t)) : Moves p (.enter c) ⟨s, p.tasks ++ [t]⟩ := by
  cases c with
  | mint code allowControl =>
      cases h
      exact .minted rfl rfl rfl rfl
  | revoke =>
      cases h
      refine .revoked rfl rfl ?_ rfl
      intro k hk
      simp only at hk
      split at hk
      · next open_ =>
          cases List.mem_cons.mp hk with
          | inl new => exact Or.inr ⟨open_, new⟩
          | inr old => exact Or.inl old
      · exact Or.inl hk
  | join =>
      simp only [enter] at h
      split at h
      · next slot code hb =>
          cases h
          obtain ⟨w, hw, rfl, _⟩ := beginAttempt_some hb
          refine .entered ⟨?_, rfl, rfl⟩ ?_ (fun _ _ => Task.noConfusion) rfl
          · intro w' hw'
            cases hw'
            exact ⟨w, hw, rfl⟩
          · intro k hk
            cases hk
            exact ⟨Option.isSome_iff_exists.mpr ⟨w, hw⟩, rfl⟩
      · next slot hb =>
          cases h
          refine .entered (.of_slot (beginAttempt_none hb) rfl rfl) ?_
            (fun _ _ => Task.noConfusion) rfl
          intro k hk
          cases hk
  | tick elapsed =>
      cases h
      refine .entered (.of_slot (Or.inr rfl) rfl rfl) ?_ (fun _ _ => Task.noConfusion) rfl
      intro k hk
      cases hk

theorem resume_moves {p : State} {i : Nat} {rep : Reply} {s : Shared} {t t' : Task}
    (ht : p.tasks[i]? = some t) (h : resume p.shared t rep = some (s, t')) :
    Moves p (.resume i rep) ⟨s, p.tasks.set i t'⟩ := by
  cases t with
  | turnedAway | failed | lost | admitted | finished => cases rep <;> cases h
  | handed k code =>
      cases rep with
      | failed =>
          cases h
          exact .ended ht (.of_slot (Or.inr rfl) rfl rfl) rfl (fun _ _ => Task.noConfusion) rfl
      | paired =>
          cases hslot : p.shared.slot with
          | none =>
              simp only [resume, consume, hslot] at h
              cases h
              exact .ended ht (.of_slot (Or.inl rfl) rfl rfl) rfl
                (fun _ _ => Task.noConfusion) rfl
          | some w =>
              simp only [resume, consume, hslot] at h
              cases h
              exact .admitted rfl ht hslot rfl (.of_slot (Or.inl rfl) rfl rfl) rfl

theorem step_moves {p q : State} {a : Action} (h : window.step p a = some q) : Moves p a q := by
  cases a with
  | enter c =>
      obtain ⟨s, t, he, rfl⟩ := Object.step_enter h
      exact enter_moves he
  | resume i rep =>
      obtain ⟨t, s, t', ht, hr, rfl⟩ := Object.step_resume h
      exact resume_moves ht hr

section Steps
variable {p q : State} {a : Action}

theorem Shared.newest_mint {s s' : Shared} {b : Bool} (h : s'.mints = s.mints ++ [b]) :
    s'.newest = s.mints.length := by
  simp [Shared.newest, h]

theorem Narrows.isSome (h : Narrows p q) (open_ : q.shared.slot.isSome) :
    p.shared.slot.isSome := by
  obtain ⟨w', hw'⟩ := Option.isSome_iff_exists.mp open_
  obtain ⟨w, hw, _⟩ := h.slot w' hw'
  exact Option.isSome_iff_exists.mpr ⟨w, hw⟩

theorem Narrows.newest (h : Narrows p q) : q.shared.newest = p.shared.newest := by
  simp only [Shared.newest, h.mints]

/-- A segment that brings no new invitation leaves the window sound, if the
tasks it leaves are. -/
theorem Narrows.sound (h : Narrows p q) (hp : Sound p)
    (tasks : ∀ t ∈ q.tasks, ∀ k ∈ t.minted?, k < p.shared.mints.length) : Sound q := by
  refine ⟨?_, ?_, ?_, ?_⟩
  · intro w' hw'
    obtain ⟨w, hw, same⟩ := h.slot w' hw'
    rw [h.mints, same]
    exact hp.granted w hw
  · intro open_
    rw [h.newest, h.revoked]
    exact hp.unrevoked (h.isSome open_)
  · rw [h.revoked, h.mints]
    exact hp.revoked_lt
  · rw [h.mints]
    exact tasks

theorem minted_lt_append {ts : List Task} {t : Task} {n : Nat}
    (h : ∀ u ∈ ts, ∀ k ∈ u.minted?, k < n) (ht : ∀ k ∈ t.minted?, k < n) :
    ∀ u ∈ ts ++ [t], ∀ k ∈ u.minted?, k < n := by
  intro u hu
  cases List.mem_append.mp hu with
  | inl old => exact h u old
  | inr new =>
      rw [List.mem_singleton.mp new]
      exact ht

theorem minted_lt_set {ts : List Task} {t : Task} {i k n : Nat} {code : String}
    (h : ∀ u ∈ ts, ∀ k ∈ u.minted?, k < n) (hi : ts[i]? = some (.handed k code))
    (ht : t.minted? = some k) : ∀ u ∈ ts.set i t, ∀ k ∈ u.minted?, k < n := by
  intro u hu m hm
  rcases List.mem_or_eq_of_mem_set hu with old | rfl
  · exact h u old m hm
  · rw [ht] at hm
    cases hm
    exact h _ (List.mem_of_getElem? hi) k rfl

theorem Moves.sound (h : Moves p a q) (hp : Sound p) : Sound q := by
  cases h with
  | minted hslot hmints hrevoked htasks =>
      have longer : p.shared.mints.length < q.shared.mints.length := by
        rw [hmints, List.length_append, List.length_singleton]
        exact Nat.lt_succ_self _
      refine ⟨?_, ?_, ?_, ?_⟩
      · intro w hw
        rw [hw] at hslot
        cases hslot
        rw [hmints, List.getLast?_concat]
      · intro _
        rw [Shared.newest_mint hmints, hrevoked]
        intro hk
        exact Nat.lt_irrefl _ (hp.revoked_lt _ hk)
      · intro k hk
        rw [hrevoked] at hk
        exact Nat.lt_trans (hp.revoked_lt k hk) longer
      · rw [htasks]
        apply minted_lt_append
        · intro t ht k hk
          exact Nat.lt_trans (hp.minted_lt t ht k hk) longer
        · intro k hk
          cases hk
  | revoked hslot hmints hrevoked htasks =>
      have emptied : ¬ q.shared.slot.isSome := by simp [hslot]
      refine ⟨?_, fun open_ => absurd open_ emptied, ?_, ?_⟩
      · intro w hw
        rw [hslot] at hw
        cases hw
      · intro k hk
        rw [hmints]
        rcases hrevoked k hk with old | ⟨open_, rfl⟩
        · exact hp.revoked_lt k old
        · have := (hp.current open_).1
          omega
      · rw [htasks, hmints]
        apply minted_lt_append hp.minted_lt
        intro k hk
        cases hk
  | entered narrows handed _ htasks =>
      apply narrows.sound hp
      rw [htasks]
      apply minted_lt_append hp.minted_lt
      intro k hk
      obtain ⟨open_, rfl⟩ := handed k hk
      have := (hp.current open_).1
      omega
  | ended hi narrows ht _ htasks =>
      apply narrows.sound hp
      rw [htasks]
      exact minted_lt_set hp.minted_lt hi ht
  | admitted _ hi _ _ narrows htasks =>
      apply narrows.sound hp
      rw [htasks]
      exact minted_lt_set hp.minted_lt hi rfl

/-- Whoever is admitted after a segment was admitted before it, or is the
ceremony it resumed, and is admitted on the invitation in the slot. -/
theorem Moves.admits (h : Moves p a q) {j minted : Nat} {g : Bool} (hj : Admits q j minted g) :
    Admits p j minted g ∨ ∃ code w, a = .resume j .paired ∧
      p.tasks[j]? = some (.handed minted code) ∧ p.shared.slot = some w ∧
      g = w.allowControl ∧ q.shared.slot = none := by
  have entered {t : Task} (ht : ∀ k b, t ≠ .admitted k b) (htasks : q.tasks = p.tasks ++ [t]) :
      Admits p j minted g := by
    simp only [Admits, htasks] at hj
    cases task_of_append hj with
    | inl old => exact old
    | inr new => exact absurd new.symm (ht minted g)
  cases h with
  | minted _ _ _ htasks | revoked _ _ _ htasks =>
      exact Or.inl (entered (fun _ _ => Task.noConfusion) htasks)
  | entered _ _ ht htasks => exact Or.inl (entered ht htasks)
  | ended _ _ _ ht htasks =>
      simp only [Admits, htasks] at hj
      rcases task_of_set hj with ⟨_, new⟩ | ⟨_, old⟩
      · exact absurd new.symm (ht minted g)
      · exact Or.inl old
  | admitted ha hi hslot hslot' _ htasks =>
      simp only [Admits, htasks] at hj
      rcases task_of_set hj with ⟨rfl, new⟩ | ⟨_, old⟩
      · cases new
        exact Or.inr ⟨_, _, ha, hi, hslot, rfl, hslot'⟩
      · exact Or.inl old

theorem spendsOwn_newest {i minted : Nat} {code : String} {w : Pending}
    (own : SpendsOwn p (.resume i .paired)) (hi : p.tasks[i]? = some (.handed minted code))
    (hw : p.shared.slot = some w) : minted = p.shared.newest := by
  simp only [SpendsOwn, hi, hw] at own
  exact own rfl

/-- Where completed ceremonies spend their own, no mint admits twice. -/
theorem Moves.single (h : Moves p a q) (hp : Sound p) (single : Single p) (own : SpendsOwn p a) :
    Single q := by
  constructor
  · intro open_ i g hi
    rcases h.admits hi with old | ⟨_, _, _, _, _, _, emptied⟩
    · cases h with
      | minted _ hmints _ _ =>
          rw [Shared.newest_mint hmints] at old
          have := hp.minted_lt _ (List.mem_of_getElem? old) _ rfl
          exact Nat.lt_irrefl _ this
      | revoked emptied =>
          rw [emptied] at open_
          cases open_
      | entered narrows | ended _ narrows | admitted _ _ _ _ narrows =>
          rw [narrows.newest] at old
          exact single.unspent (narrows.isSome open_) i g old
    · rw [emptied] at open_
      cases open_
  · intro i j minted g g' hi hj
    rcases h.admits hi with oldi | ⟨code, w, ha, handed, hw, _⟩
    · rcases h.admits hj with oldj | ⟨code, w, ha, handed, hw, _⟩
      · exact single.once i j minted g g' oldi oldj
      · subst ha
        rw [spendsOwn_newest own handed hw] at oldi
        exact absurd oldi (single.unspent (by rw [hw]; rfl) i g)
    · rcases h.admits hj with oldj | ⟨_, _, ha', _⟩
      · subst ha
        rw [spendsOwn_newest own handed hw] at oldj
        exact absurd oldj (single.unspent (by rw [hw]; rfl) j g')
      · rw [ha] at ha'
        cases ha'
        rfl

end Steps

section Whole
variable {as : List Action} {p q : State}

theorem sound_closed : Sound closed := by
  refine ⟨?_, ?_, ?_, ?_⟩
  · intro w hw
    cases hw
  · intro open_
    cases open_
  · intro k hk
    cases hk
  · intro t ht
    cases ht

theorem run_sound (run : Run window.step Free closed as p) : Sound p :=
  Run.invariant run sound_closed fun _ _ _ hs _ h => (step_moves h).sound hs

theorem single_closed : Single closed := by
  constructor
  · intro open_
    cases open_
  · intro i j minted g g' hi
    cases hi

theorem run_single (run : Run window.step SpendsOwn closed as p) : Single p := by
  have both : Sound p ∧ Single p :=
    Run.invariant (I := fun p => Sound p ∧ Single p) run ⟨sound_closed, single_closed⟩
      fun _ _ _ hs own h => ⟨(step_moves h).sound hs.1, (step_moves h).single hs.1 hs.2 own⟩
  exact both.2

/-- A run whose completed ceremonies spend their own keeps every invitation to
one machine and its grant. -/
theorem oneInvitation_of_own (run : Run window.step SpendsOwn closed as q) :
    OneInvitation as := by
  constructor
  · intro pre post p has before
    subst has
    obtain ⟨p', before', _⟩ := Run.split run
    obtain rfl : p = p' := before.deterministic before'
    exact (run_single before').once
  · intro pre a post p m has before hstep i minted g after fresh
    subst has
    obtain ⟨p', before', rest⟩ := Run.split run
    obtain rfl : p = p' := before.deterministic before'
    have sound := run_sound before
    cases rest with
    | cons hstep' _ =>
        rcases (step_moves hstep).admits after with old | ⟨code, w, rfl, handed, hw, rfl, _⟩
        · exact absurd old fresh
        · rw [spendsOwn_newest hstep'.1 handed hw]
          exact ⟨sound.grant hw, sound.current (by rw [hw]; rfl)⟩

/-- One ceremony that spends another's invitation breaks the run: it is admitted
on a mint that is no longer the current one. -/
theorem own_of_oneInvitation (run : Run window.step Free closed as q)
    (one : OneInvitation as) : Run window.step SpendsOwn closed as q := by
  apply Run.strengthen run
  intro pre a post p m has before hstep
  cases a with
  | enter c => trivial
  | resume i rep =>
      cases rep with
      | failed => trivial
      | paired =>
          simp only [SpendsOwn]
          split
          case h_2 => trivial
          next minted code handed =>
          intro open_
          obtain ⟨w, hw⟩ := Option.isSome_iff_exists.mp open_
          have admitted : window.step p (.resume i .paired) =
              some ⟨{ p.shared with slot := none },
                p.tasks.set i (.admitted minted w.allowControl)⟩ := by
            apply Object.resume_step handed
            simp only [window, resume, consume, hw]
            rfl
          rw [hstep] at admitted
          cases admitted
          have after : Admits ⟨{ p.shared with slot := none },
              p.tasks.set i (.admitted minted w.allowControl)⟩ i minted w.allowControl := by
            have inside := (List.getElem?_eq_some_iff.mp handed).1
            simp [Admits, inside]
          have fresh : ¬ Admits p i minted w.allowControl := by
            intro old
            rw [Admits, handed] at old
            cases old
          have current := (one.2 pre _ post p _ has before.free hstep i _ _ after fresh).2.1
          simp only [Shared.newest]
          omega

/-- Exactly the runs whose completed ceremonies find their own invitation, or
none, in the slot admit one machine for an invitation, with its own grant. -/
theorem oneInvitation_iff_own (as : List Action) (q : State)
    (run : Run window.step Free closed as q) :
    OneInvitation as ↔ Run window.step SpendsOwn closed as q :=
  ⟨own_of_oneInvitation run, oneInvitation_of_own⟩

end Whole

/-- Two ceremonies on one invitation that grants control: the first to finish
is admitted with it, the other finds the slot empty. -/
theorem oneInvitation_iff_own_race :
    OneInvitation [.enter (.mint "12345678" true), .enter .join, .enter .join,
      .resume 2 .paired, .resume 1 .paired] := by
  have run : Run window.step SpendsOwn closed [.enter (.mint "12345678" true), .enter .join,
      .enter .join, .resume 2 .paired, .resume 1 .paired] _ := Run.of_replay rfl
  exact (oneInvitation_iff_own _ _ run.free).mpr run

/-- An invitation without control is replaced by one with it while a machine is
in its ceremony: that machine completes on the replaced code, spends the other
invitation, and is granted control. -/
theorem not_oneInvitation_replaced :
    ∃ q, Run window.step Free closed [.enter (.mint "12345678" false), .enter .join,
      .enter (.mint "87654321" true), .resume 1 .paired] q ∧
      Admits q 1 0 true ∧ q.shared.mints[0]? = some false ∧
      ¬ OneInvitation [.enter (.mint "12345678" false), .enter .join,
        .enter (.mint "87654321" true), .resume 1 .paired] := by
  let p : State := ⟨⟨some ⟨"87654321", 0, 0, true⟩, 0, [false, true], []⟩,
    [.finished, .handed 0 "12345678", .finished]⟩
  let q : State := ⟨⟨none, 0, [false, true], []⟩, [.finished, .admitted 0 true, .finished]⟩
  have before : Run window.step Free closed [.enter (.mint "12345678" false), .enter .join,
      .enter (.mint "87654321" true)] p := Run.of_replay rfl
  have last : window.step p (.resume 1 .paired) = some q := rfl
  refine ⟨q, before.append (.cons ⟨trivial, last⟩ (.nil q)), rfl, rfl, ?_⟩
  intro one
  have fresh : ¬ Admits p 1 0 true := by
    intro h
    cases h
  obtain ⟨grant, _⟩ := one.2 _ _ [] p q rfl before last 1 0 true rfl fresh
  exact absurd grant (by decide)

end Joining
end Metralectl
