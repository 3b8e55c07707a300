import Metralectl.Fleet.DisplayNames
import Metralectl.Library.Budgets
import Metralectl.Pairing.Attempts
import Metralectl.Pairing.Binding
import Metralectl.Trust.PinStore

/-!
The peer listener, and how another machine comes to be pinned by this one. A connection is let
through its handshake by its pin or by an open invitation; who it is, is looked up once more, and it
is served as a peer or put through the ceremony. Any number of connections are under way, and between
two steps of one of them an invitation may be minted or revoked and the pins may be written by others.
-/
namespace Metralectl
namespace Onboarding
open Runs Interleaving Joining Utf8
open Fleet (DisplayName)
open Trust (Pin Pins get? insert)

/-- What a connection shows: its certificate, and the key its handshake was signed with. -/
structure Handshake where
  certificate : Bytes
  key : Bytes

/-- The certificate is about that key, an Ed25519 one. -/
def Handshake.Own (h : Handshake) : Prop :=
  ∃ before after, h.certificate = before ++ (spkiPrefix ++ (h.key ++ after)) ∧ h.key.length = 32

/-- A machine that joined: what it showed, the code it was tried with, and the pin it got. -/
structure Joined where
  handshake : Handshake
  code : String
  pin : Pin

/-- What let a connection through its handshake, and what that was read from. -/
inductive Entrance where
  | pinned (asOf : Pins)
  | invited (uses : List (Nat × Use)) (now : Nat)

/-- The pins and the window with its clock; and, of the run so far, what was done with the window,
what others wrote into the store, and who joined. -/
structure Shared where
  file : Pins
  slot : Slot
  now : Nat
  uses : List (Nat × Use)
  written : List Pins
  joined : List Joined

def Shared.use (s : Shared) (u : Use) : Shared :=
  { s with slot := u.next s.slot s.now, uses := s.uses ++ [(s.now, u)] }

inductive Call where
  | mint (code : String) (allowControl : Bool)
  | revoke
  /-- Somebody else writes the store. -/
  | write (pins : Pins)
  | tick (elapsed : Nat)
  | accept (h : Handshake)

inductive Reply where
  /-- The handshake fails, the ceremony runs out of time, or a write does not succeed. -/
  | fails
  /-- The store is read, or cannot be. -/
  | read (readable : Bool)
  | proceed
  /-- The ceremony runs to its end over such frames. -/
  | exchanged (unix : Nat) (binding : Bytes) (network : Peer)

inductive Task where
  | finished
  | turnedAway
  /-- No invitation stands: the handshake goes by the pins. -/
  | checking (h : Handshake) (id : NodeId)
  | admitted (h : Handshake) (id : NodeId) (entrance : Entrance)
  | serving (h : Handshake) (id : NodeId) (asOf : Pins)
  | stranger (h : Handshake) (id : NodeId)
  | pairing (h : Handshake) (id : NodeId) (code : String)
  | recording (j : Joined)
  | saving (j : Joined) (copy : Pins)

/-- A connection comes in, with what its certificate tells of who it is. -/
def accept (s : Shared) (h : Handshake) : Except (List String) NodeId → Shared × Task
  | .error _ => (s, .turnedAway)
  | .ok id =>
      (s.use .isOpen,
        if isOpen s.slot s.now then .admitted h id (.invited s.uses s.now) else .checking h id)

section Listener
variable (d : Dialler)

def enter (s : Shared) : Call → Option (Shared × Task)
  | .mint code allowControl => some (s.use (.mint code allowControl), .finished)
  | .revoke => some (s.use .revoke, .finished)
  | .write pins => some ({ s with file := pins, written := pins :: s.written }, .finished)
  | .tick elapsed => some ({ s with now := s.now + elapsed }, .finished)
  | .accept h => some (accept s h (peerIdentity d.toStd h.certificate))

/-- What is written for a machine that went through the ceremony. -/
def pinOf (paired : Paired) (unix : Nat) (granted : Consumed) : Pin where
  id := paired.node
  publicKey := paired.publicKey
  name := (DisplayName.new paired.name).text
  pairedAt := unix
  lastAddress := none
  controller := granted.allowControl
  bench := false

def resume (s : Shared) : Task → Reply → Option (Shared × Task)
  | .checking h id, .read readable =>
      some (s, if readable && (get? s.file id).isSome then .admitted h id (.pinned s.file)
        else .turnedAway)
  | .admitted h id _, .read readable =>
      some (s, if readable && (get? s.file id).isSome then .serving h id s.file else .stranger h id)
  | .admitted _ _ _, .fails => some (s, .turnedAway)
  | .stranger h id, .proceed =>
      match (beginAttempt s.slot s.now).2 with
      | some code => some (s.use .beginAttempt, .pairing h id code)
      | none => some (s.use .beginAttempt, .turnedAway)
  | .pairing h id code, .exchanged unix binding network =>
      match Side.outcome ⟨d, .responder, id, code, binding, network⟩ with
      | .error _ => some (s, .turnedAway)
      | .ok paired =>
          match (consume s.slot).2 with
          | none => some (s.use .consume, .turnedAway)
          | some granted =>
              some (s.use .consume, .recording ⟨h, code, pinOf paired unix granted⟩)
  | .pairing _ _ _, .fails => some (s, .turnedAway)
  | .recording j, .read readable =>
      some (s, if readable then .saving j (insert s.file j.pin) else .turnedAway)
  | .saving j copy, .proceed =>
      some ({ s with file := copy, joined := s.joined ++ [j] }, .finished)
  | .saving _ _, .fails => some (s, .turnedAway)
  | _, _ => none

def listener : Object Shared Task Call Reply := ⟨enter d, resume d⟩

end Listener

abbrev State := Pool Shared Task
abbrev Action := Act Call Reply

/-- A listener as it starts, over such pins. -/
def opened (file : Pins) : State := .start ⟨file, none, 0, [], [file], []⟩

/-- A handshake that is through was signed with the key its certificate is about. -/
def Genuine (p : State) : Action → Prop
  | .resume i (.read _) => ∀ h id e, p.tasks[i]? = some (.admitted h id e) → h.Own
  | _ => True

/-- The newest invitation was minted with this code and grant, and neither used nor revoked. -/
def Outstanding (uses : List (Nat × Use)) (opened : Nat) (code : String) (allowControl : Bool) :
    Prop :=
  ∃ before later, uses = before ++ (opened, Use.mint code allowControl) :: later ∧ Untouched later

/-- An attempt with this code was reserved within the time of its invitation. -/
def Invited (uses : List (Nat × Use)) (code : String) : Prop :=
  ∃ early now rest opened allowControl, uses = early ++ (now, Use.beginAttempt) :: rest ∧
    Outstanding early opened code allowControl ∧ now - opened < joinTtl

/-- An invitation with this grant was used. -/
def Granted (uses : List (Nat × Use)) (allowControl : Bool) : Prop :=
  ∃ early now rest opened code, uses = early ++ (now, Use.consume) :: rest ∧
    Outstanding early opened code allowControl

/-- What stands behind a machine that joined. -/
structure Welcome (d : Dialler) (uses : List (Nat × Use)) (j : Joined) : Prop where
  proved : j.pin.id = d.digest j.handshake.key
  matched : verifyKeyMatches d.toStd j.pin.id j.pin.publicKey = .ok ()
  invited : Invited uses j.code
  granted : Granted uses j.pin.controller
  bench : j.pin.bench = false

/-- Where a pin may come from. -/
def Known (s : Shared) (pin : Pin) : Prop :=
  (∃ pins ∈ s.written, pin ∈ pins) ∨ ∃ j ∈ s.joined, j.pin = pin

/-- It was pinned when that was looked up, or came while an invitation was outstanding. -/
def Entrance.Right (s : Shared) (id : NodeId) : Entrance → Prop
  | .pinned asOf => (get? asOf id).isSome
  | .invited uses now => uses <+: s.uses ∧ ∃ opened code allowControl,
      Outstanding uses opened code allowControl ∧ now - opened < joinTtl

def Task.Right (d : Dialler) (s : Shared) : Task → Prop
  | .finished | .turnedAway => True
  | .checking h id => peerIdentity d.toStd h.certificate = .ok id
  | .admitted h id entrance =>
      peerIdentity d.toStd h.certificate = .ok id ∧ entrance.Right s id
  | .serving h id asOf => id = d.digest h.key ∧ (get? asOf id).isSome
  | .stranger h id => id = d.digest h.key
  | .pairing h id code => id = d.digest h.key ∧ Invited s.uses code
  | .recording j => Welcome d s.uses j
  | .saving j copy => Welcome d s.uses j ∧ ∀ pin ∈ copy, pin = j.pin ∨ Known s pin

/-- What the store holds was written by others, or is of a machine that joined as it may. -/
structure Kept (d : Dialler) (s : Shared) : Prop where
  slot : s.slot = after none s.uses
  known : ∀ pin ∈ s.file, Known s pin
  welcome : ∀ j ∈ s.joined, Welcome d s.uses j

/-- Nothing of the run so far is forgotten. -/
structure Grows (s s' : Shared) : Prop where
  uses : s.uses <+: s'.uses
  written : ∀ pins ∈ s.written, pins ∈ s'.written
  joined : ∀ j ∈ s.joined, j ∈ s'.joined

section Certificates
variable {std : Std} {h : Handshake} {id : NodeId}

/-- The one key a certificate may carry is the key it is about. -/
theorem peerIdentity_own (own : h.Own) (named : peerIdentity std h.certificate = .ok id) :
    id = std.digest h.key := by
  obtain ⟨before, after, whole, width⟩ := own
  have size : spkiPrefix.length = 12 := rfl
  have there : before.length ∈ (List.range (h.certificate.length - 11)).filter
      fun i => (h.certificate.drop i).take 12 = spkiPrefix := by
    refine List.mem_filter.mpr ⟨List.mem_range.mpr ?_, decide_eq_true ?_⟩
    · rw [whole]
      simp only [List.length_append, size]
      omega
    · rw [whole, List.drop_left, List.take_left' size]
  rw [peerIdentity] at named
  dsimp only at named
  split at named
  · cases named
  · next start alone =>
      rw [alone, List.mem_singleton] at there
      subst there
      have key : (h.certificate.drop (before.length + 12)).take 32 = h.key := by
        rw [whole, ← List.drop_drop, List.drop_left, List.drop_left' size, List.take_left' width]
      rw [key, if_neg (by omega)] at named
      split at named
      · cases named
      · exact (Except.ok.inj named).symm
  · cases named

end Certificates

section Windows
variable {uses more : List (Nat × Use)} {now opened : Nat} {code : String} {allowControl : Bool}

theorem outstanding_of_after {p : Pending} (there : after none uses = some p) :
    Outstanding uses p.opened p.code p.allowControl := by
  obtain ⟨before, later, split, untouched, _⟩ := minted_of_after there
  exact ⟨before, later, split, untouched⟩

/-- A code is handed out of an invitation that is in its time. -/
theorem invited_of_attempt (handed : (beginAttempt (after none uses) now).2 = some code) :
    ∃ opened allowControl, Outstanding uses opened code allowControl ∧ now - opened < joinTtl := by
  obtain ⟨p, there, _, rfl⟩ := beginAttempt_some (Prod.ext rfl handed)
  refine ⟨p.opened, p.allowControl, outstanding_of_after there, ?_⟩
  rw [there, beginAttempt] at handed
  split at handed
  · cases handed
  · next fresh => exact Nat.lt_of_not_le fresh

theorem invited_of_open (open_ : isOpen (after none uses) now = true) :
    ∃ opened code allowControl, Outstanding uses opened code allowControl ∧
      now - opened < joinTtl := by
  obtain ⟨code, handed⟩ := isOpen_iff.mp open_
  obtain ⟨opened, allowControl, outstanding, fresh⟩ := invited_of_attempt handed
  exact ⟨opened, code, allowControl, outstanding, fresh⟩

theorem Invited.append (invited : Invited uses code) (more : List (Nat × Use)) :
    Invited (uses ++ more) code := by
  obtain ⟨early, now, rest, opened, allowControl, split, outstanding, fresh⟩ := invited
  exact ⟨early, now, rest ++ more, opened, allowControl, by rw [split]; simp, outstanding, fresh⟩

theorem Granted.append (granted : Granted uses allowControl) (more : List (Nat × Use)) :
    Granted (uses ++ more) allowControl := by
  obtain ⟨early, now, rest, opened, code, split, outstanding⟩ := granted
  exact ⟨early, now, rest ++ more, opened, code, by rw [split]; simp, outstanding⟩

end Windows

section Growth
variable {d : Dialler} {s s' : Shared} {u : Use} {t : Task} {j : Joined} {pin : Pin}

theorem Grows.refl (s : Shared) : Grows s s := ⟨List.prefix_rfl, fun _ => id, fun _ => id⟩

theorem Grows.use (s : Shared) (u : Use) : Grows s (s.use u) :=
  ⟨List.prefix_append _ _, fun _ => id, fun _ => id⟩

theorem Grows.welcome (grows : Grows s s') (welcome : Welcome d s.uses j) :
    Welcome d s'.uses j := by
  obtain ⟨more, same⟩ := grows.uses
  rw [← same]
  exact { welcome with
    invited := welcome.invited.append more
    granted := welcome.granted.append more }

theorem Grows.known (grows : Grows s s') (known : Known s pin) : Known s' pin := by
  cases known with
  | inl by_ =>
      obtain ⟨pins, there, holds⟩ := by_
      exact .inl ⟨pins, grows.written pins there, holds⟩
  | inr came =>
      obtain ⟨j, there, same⟩ := came
      exact .inr ⟨j, grows.joined j there, same⟩

/-- What is right of one connection stays so, whatever others do. -/
theorem Grows.right (grows : Grows s s') (right : t.Right d s) : t.Right d s' := by
  cases t with
  | finished | turnedAway | checking _ _ | serving _ _ _ | stranger _ _ => exact right
  | admitted h id entrance =>
      refine ⟨right.1, ?_⟩
      cases entrance with
      | pinned asOf => exact right.2
      | invited uses now => exact ⟨right.2.1.trans grows.uses, right.2.2⟩
  | pairing h id code =>
      obtain ⟨more, same⟩ := grows.uses
      exact ⟨right.1, same ▸ right.2.append more⟩
  | recording j => exact grows.welcome right
  | saving j copy =>
      exact ⟨grows.welcome right.1, fun pin there => (right.2 pin there).imp_right grows.known⟩

/-- A use of the window leaves the store and who joined as they were. -/
theorem Kept.use (kept : Kept d s) (u : Use) : Kept d (s.use u) where
  slot := by
    rw [Shared.use, after_append, ← kept.slot]
    rfl
  known pin there := (Grows.use s u).known (kept.known pin there)
  welcome j there := (Grows.use s u).welcome (kept.welcome j there)

theorem mem_insert {pins : Pins} (there : pin ∈ insert pins j.pin) : pin = j.pin ∨ pin ∈ pins :=
  (List.mem_cons.mp there).imp_right fun old => (List.mem_filter.mp old).1

end Growth

section Steps
variable {d : Dialler} {s s' : Shared} {t t' : Task} {p q : State}

/-- What one call leaves behind. -/
theorem enter_kept (kept : Kept d s) {c : Call} (entered : enter d s c = some (s', t)) :
    Grows s s' ∧ Kept d s' ∧ t.Right d s' := by
  cases c with
  | mint code allowControl =>
      cases entered
      exact ⟨.use s _, kept.use _, trivial⟩
  | revoke =>
      cases entered
      exact ⟨.use s _, kept.use _, trivial⟩
  | write pins =>
      cases entered
      have grows : Grows s { s with file := pins, written := pins :: s.written } :=
        ⟨List.prefix_rfl, fun _ => List.mem_cons_of_mem _, fun _ => id⟩
      exact ⟨grows, ⟨kept.slot, fun pin there => .inl ⟨pins, List.mem_cons_self, there⟩,
        kept.welcome⟩, trivial⟩
  | tick elapsed =>
      cases entered
      exact ⟨⟨List.prefix_rfl, fun _ => id, fun _ => id⟩, ⟨kept.slot, kept.known, kept.welcome⟩,
        trivial⟩
  | accept h =>
      have same : accept s h (peerIdentity d.toStd h.certificate) = (s', t) := Option.some.inj entered
      cases named : peerIdentity d.toStd h.certificate with
      | error why =>
          rw [named, accept] at same
          cases same
          exact ⟨.refl s, kept, trivial⟩
      | ok id =>
          rw [named, accept] at same
          cases same
          refine ⟨.use s _, kept.use _, ?_⟩
          split
          · next open_ =>
              rw [kept.slot] at open_
              exact ⟨named, List.prefix_append _ _, invited_of_open open_⟩
          · exact named

/-- What goes on in one connection leaves behind. -/
theorem resume_kept (kept : Kept d s) (right : t.Right d s) {r : Reply}
    (own : ∀ h id e, t = .admitted h id e → ∀ readable, r = .read readable → h.Own)
    (resumed : resume d s t r = some (s', t')) : Grows s s' ∧ Kept d s' ∧ t'.Right d s' := by
  unfold resume at resumed
  split at resumed
  · next h id readable =>
      cases resumed
      refine ⟨.refl s, kept, ?_⟩
      split
      · next found => exact ⟨right, (Bool.and_eq_true_iff.mp found).2⟩
      · trivial
  · next h id e readable =>
      cases resumed
      have named := peerIdentity_own (own h id e rfl readable rfl) right.1
      refine ⟨.refl s, kept, ?_⟩
      split
      · next found => exact ⟨named, (Bool.and_eq_true_iff.mp found).2⟩
      · exact named
  · cases resumed
    exact ⟨.refl s, kept, trivial⟩
  · next h id =>
      split at resumed
      · next code handed =>
          cases resumed
          refine ⟨.use s _, kept.use _, right, ?_⟩
          rw [kept.slot] at handed
          obtain ⟨opened, allowControl, outstanding, fresh⟩ := invited_of_attempt handed
          exact ⟨s.uses, s.now, [], opened, allowControl, rfl, outstanding, fresh⟩
      · cases resumed
        exact ⟨.use s _, kept.use _, trivial⟩
  · next h id code unix binding network =>
      split at resumed
      · cases resumed
        exact ⟨.refl s, kept, trivial⟩
      · next paired done =>
          obtain ⟨key, _, _, _, node, _, matched⟩ := outcome_ok done
          split at resumed
          · cases resumed
            exact ⟨.use s _, kept.use _, trivial⟩
          · next granted spent =>
              cases resumed
              obtain ⟨p, there, rfl⟩ := Option.map_eq_some_iff.mp spent
              rw [kept.slot] at there
              refine ⟨.use s _, kept.use _, ?_⟩
              exact {
                proved := node.trans right.1
                matched := by
                  rw [show (pinOf paired unix ⟨p.allowControl⟩).id = id from node]
                  exact matched
                invited := right.2.append _
                granted := ⟨s.uses, s.now, [], p.opened, p.code, rfl, outstanding_of_after there⟩
                bench := rfl }
  · cases resumed
    exact ⟨.refl s, kept, trivial⟩
  · next j readable =>
      cases resumed
      refine ⟨.refl s, kept, ?_⟩
      split
      · exact ⟨right, fun pin there => (mem_insert there).imp_right (kept.known pin)⟩
      · trivial
  · next j copy =>
      cases resumed
      have grows : Grows s { s with file := copy, joined := s.joined ++ [j] } :=
        ⟨List.prefix_rfl, fun _ => id, fun _ => List.mem_append_left _⟩
      refine ⟨grows, ⟨kept.slot, fun pin there => ?_, fun k there => ?_⟩, trivial⟩
      · cases right.2 pin there with
        | inl new => exact .inr ⟨j, List.mem_append_right _ List.mem_cons_self, new.symm⟩
        | inr old => exact grows.known old
      · cases List.mem_append.mp there with
        | inl old => exact kept.welcome k old
        | inr new => exact List.mem_singleton.mp new ▸ right.1
  · cases resumed
    exact ⟨.refl s, kept, trivial⟩
  · cases resumed

theorem listener_preserves : (listener d).Preserves Genuine (Kept d) fun s t => t.Right d s where
  enter p c s t here _ entered := by
    obtain ⟨grows, kept, right⟩ := enter_kept here.1 entered
    exact ⟨kept, right, fun u there => grows.right (here.2 u there)⟩
  resume p i r t s t' here genuine at_ resumed := by
    have own : ∀ h id e, t = .admitted h id e → ∀ readable, r = .read readable → h.Own := by
      rintro h id e rfl readable rfl
      exact genuine h id e at_
    obtain ⟨grows, kept, right⟩ := resume_kept here.1 (here.2 t (List.mem_of_getElem? at_)) own resumed
    refine ⟨kept, right, fun u there other => ?_⟩
    have old : u ∈ p.tasks := (List.mem_or_eq_of_mem_set there).resolve_right other
    exact grows.right (here.2 u old)

end Steps

section Counting
variable {d : Dialler} {slot : Slot} {now : Nat} {s s' : Shared}

/-- How many invitations a connection has taken without a pin to show for it. -/
def Task.taken : Task → Nat
  | .recording _ | .saving _ _ => 1
  | _ => 0

def Shared.invitations (s : Shared) : Nat := (minted s.uses).length

/-- Who joined, and the invitation that is left. -/
def Shared.placed (s : Shared) : Nat := s.joined.length + s.slot.toList.length

theorem use_slot (u : Use) :
    (u.next slot now).toList.length ≤ slot.toList.length + u.mints.toList.length := by
  cases u with
  | mint _ _ => exact Nat.le_add_left _ _
  | revoke | consume => exact Nat.zero_le _
  | isOpen => exact Nat.le_refl _
  | beginAttempt =>
      cases slot with
      | none => exact Nat.le_refl _
      | some p =>
          simp only [Use.next, beginAttempt]
          split
          · exact Nat.zero_le _
          · split
            · exact Nat.le_refl _
            · exact Nat.le_refl _

theorem use_invitations (s : Shared) (u : Use) :
    (s.use u).invitations = s.invitations + u.mints.toList.length := by
  rw [Shared.invitations, Shared.use, minted, List.filterMap_append, List.length_append]
  cases u <;> rfl

/-- No use of the window makes more places than invitations. -/
theorem use_placed (s : Shared) (u : Use) :
    (s.use u).placed + s.invitations ≤ s.placed + (s.use u).invitations := by
  have room := @use_slot s.slot s.now u
  rw [use_invitations]
  simp only [Shared.placed, Shared.use] at room ⊢
  omega

/-- Nobody takes an invitation that is not there. -/
theorem listener_spends : (listener d).Spends Shared.invitations Shared.placed Task.taken where
  enter {s c s' t} entered := by
    cases c with
    | mint code allowControl =>
        cases entered
        exact use_placed s _
    | revoke =>
        cases entered
        exact use_placed s _
    | write pins =>
        cases entered
        exact Nat.le_refl _
    | tick elapsed =>
        cases entered
        exact Nat.le_refl _
    | accept h =>
        have same : accept s h (peerIdentity d.toStd h.certificate) = (s', t) := Option.some.inj entered
        cases named : peerIdentity d.toStd h.certificate with
        | error why =>
            rw [named, accept] at same
            cases same
            exact Nat.le_refl _
        | ok id =>
            rw [named, accept] at same
            cases same
            split
            · exact use_placed s _
            · exact use_placed s _
  resume {s t r s' t'} resumed := by
    simp only [listener, resume] at resumed
    split at resumed
    · cases resumed
      split
      · exact Nat.le_refl _
      · exact Nat.le_refl _
    · cases resumed
      split
      · exact Nat.le_refl _
      · exact Nat.le_refl _
    · cases resumed
      exact Nat.le_refl _
    · split at resumed
      · cases resumed
        exact use_placed s _
      · cases resumed
        exact use_placed s _
    · split at resumed
      · cases resumed
        exact Nat.le_refl _
      · split at resumed
        · cases resumed
          exact use_placed s _
        · next spent =>
            cases resumed
            obtain ⟨p, there, _⟩ := Option.map_eq_some_iff.mp spent
            rw [use_invitations]
            simp only [Shared.placed, Shared.use, Use.next, Use.mints, consume, there, Task.taken]
            simp only [Option.toList_none, Option.toList_some, List.length_nil, List.length_cons]
            omega
    · cases resumed
      exact Nat.le_refl _
    · cases resumed
      split
      · exact Nat.le_refl _
      · simp only [Task.taken]
        omega
    · cases resumed
      simp only [Shared.placed, Shared.invitations, Task.taken, List.length_append,
        List.length_cons, List.length_nil]
      omega
    · cases resumed
      simp only [Task.taken]
      omega
    · cases resumed

end Counting

section Runs_
variable {d : Dialler} {file : Pins} {as : List Action} {p : State}

/-- Nobody joins uninvited. Whatever becomes of any number of connections, what the store holds was
there, was written by others, or is of a machine that held the key its id is the digest of, was tried
with the code of an invitation in its time, and got the grant of one that was used up; no more
machines join than invitations are minted; and who is served as a peer is pinned. -/
theorem nobody_joins_uninvited (run : Run (listener d).step Genuine (opened file) as p) :
    (∀ pin ∈ p.shared.file, Known p.shared pin) ∧
    (∀ j ∈ p.shared.joined, Welcome d p.shared.uses j) ∧
    p.shared.joined.length ≤ (minted p.shared.uses).length ∧
    (∀ h id entrance, .admitted h id entrance ∈ p.tasks → entrance.Right p.shared id) ∧
    ∀ h id asOf, .serving h id asOf ∈ p.tasks → id = d.digest h.key ∧ (get? asOf id).isSome := by
  have start : (opened file).Holds (Kept d) fun s t => t.Right d s := by
    refine ⟨⟨rfl, fun pin there => .inl ⟨file, List.mem_cons_self, there⟩, ?_⟩, ?_⟩
    · exact List.forall_mem_nil _
    · exact List.forall_mem_nil _
  obtain ⟨kept, right⟩ := listener_preserves.run start run
  have counted := listener_spends.run run (Nat.le_refl 0)
  refine ⟨kept.known, kept.welcome, ?_, fun h id entrance there => (right _ there).2,
    fun h id asOf there => right _ there⟩
  have within : p.shared.placed + (p.tasks.map Task.taken).sum ≤ p.shared.invitations := counted
  rw [Shared.placed, Shared.invitations] at within
  omega

end Runs_

section Instances

/-- A connection of the laptop: its certificate carries its key and nothing else. -/
def fromLaptop : Handshake := ⟨spkiPrefix ++ laptop.publicKey, laptop.publicKey⟩

theorem fromLaptop_own : fromLaptop.Own := ⟨[], [], rfl, rfl⟩

/-- An invitation is minted, and the laptop comes with its code. -/
def invitedLaptop : List Action :=
  [.enter (.mint "12345678" true), .enter (.accept fromLaptop), .resume 1 (.read true),
    .resume 1 .proceed,
    .resume 1 (.exchanged 1700000000 (List.replicate 32 7) (ends true).network),
    .resume 1 (.read true), .resume 1 .proceed]

def attempted : List (Nat × Use) := [(0, .mint "12345678" true), (0, .isOpen), (0, .beginAttempt)]

/-- Once the laptop has been given its attempt. -/
def tried : State :=
  ⟨⟨[], some ⟨"12345678", 0, 1, true⟩, 0, attempted, [[]], []⟩,
    [.finished, .pairing fromLaptop laptop.node "12345678"]⟩

def laptopJoined (paired : Paired) : Joined :=
  ⟨fromLaptop, "12345678", pinOf paired 1700000000 ⟨true⟩⟩

/-- Once the ceremony is through. -/
def spent (paired : Paired) : State :=
  ⟨⟨[], none, 0, attempted ++ [(0, Use.consume)], [[]], []⟩,
    [.finished, .recording (laptopJoined paired)]⟩

theorem nobody_joins_uninvited_laptop : ∃ p,
    Run (listener dgx).step Genuine (opened []) invitedLaptop p ∧
      ∃ j, p.shared.joined = [j] ∧ p.shared.file = [j.pin] ∧ Welcome dgx p.shared.uses j := by
  obtain ⟨paired, done⟩ := end_outcome true
  have own {h : Handshake} {id : NodeId} {e : Entrance}
      (here : (some (.admitted fromLaptop laptop.node (.invited [(0, .mint "12345678" true)] 0)) :
        Option Task) = some (.admitted h id e)) : h.Own := by
    cases here
    exact fromLaptop_own
  have arrives : Run (listener dgx).step Genuine (opened []) (invitedLaptop.take 4) tried :=
    .cons ⟨trivial, rfl⟩ (.cons ⟨trivial, rfl⟩ (.cons ⟨fun _ _ _ => own, rfl⟩
      (.cons ⟨trivial, rfl⟩ (.nil _))))
  have pairs : (listener dgx).step tried
      (.resume 1 (.exchanged 1700000000 (List.replicate 32 7) (ends true).network)) =
        some (spent paired) := by
    have outcome : Side.outcome ⟨dgx, .responder, laptop.node, "12345678", List.replicate 32 7,
        (ends true).network⟩ = .ok paired := done
    refine Object.resume_step rfl ?_
    simp only [listener, resume, outcome]
    rfl
  have run : Run (listener dgx).step Genuine (opened []) invitedLaptop
      ⟨⟨[(laptopJoined paired).pin], none, 0, attempted ++ [(0, Use.consume)], [[]],
        [laptopJoined paired]⟩, [.finished, .finished]⟩ := by
    refine arrives.append (.cons ⟨trivial, pairs⟩ (.cons ⟨?_, rfl⟩ (.cons ⟨trivial, rfl⟩ (.nil _))))
    intro h id e here
    cases here
  exact ⟨_, run, _, rfl, rfl, (nobody_joins_uninvited run).2.1 _ List.mem_cons_self⟩

end Instances

end Onboarding
end Metralectl
