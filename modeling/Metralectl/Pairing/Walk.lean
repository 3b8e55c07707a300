import Metralectl.Pairing.Ceremony

/-!
The walk over the addresses a machine may be reached at. Another address is free only where the
last one never answered, and the walk reads that off the chain of causes the dial ends with.
-/
namespace Metralectl
namespace Joining
open Programs

section Walking
variable {σ A T : Type} [ToString A] (dial : σ → A → Except Chain T × σ)

def ended (allUnreachable : Bool) (why : List String) : Chain :=
  if allUnreachable then [.said ("; ".intercalate why), .neverReached] else [.said ("; ".intercalate why)]

def walkFrom : σ → Bool → List String → List A → Except Chain (A × T) × σ
  | s, allUnreachable, why, [] => (.error (ended allUnreachable why), s)
  | s, allUnreachable, why, addr :: rest =>
      match dial s addr with
      | (.ok v, s) => (.ok (addr, v), s)
      | (.error e, s) =>
          let keepGoing := neverReached e
          let allUnreachable := allUnreachable && keepGoing
          let why := why ++ [s!"{addr}: {Chain.shown e}"]
          if keepGoing then walkFrom s allUnreachable why rest else (.error (ended allUnreachable why), s)

/-- The addresses in turn, until a machine answers, whether it says yes or no. -/
def walk (s : σ) (addrs : List A) : Except Chain (A × T) × σ :=
  if addrs.isEmpty then (.error [.said "no address to try"], s) else walkFrom dial s true [] addrs

/-- The same loop, where each dial is awaited. -/
def walkAsync (s : σ) (addrs : List A) : Except Chain (A × T) × σ :=
  if addrs.isEmpty then (.error [.said "no address to try"], s) else walkFrom dial s true [] addrs

end Walking

def Cause.isNeverReached : Cause → Bool
  | .neverReached => true
  | _ => false

def wasNeverReached (e : Chain) : Bool := e.any Cause.isNeverReached

/-- Whether an answer breaks off with a fault that reads as if nobody had answered; whether the
last word of a refusal is heard makes no difference. -/
def Breaks (peer : Peer) : Ask → Prop
  | .connect => ∃ e, peer .connect = .failed e ∧ e.kind.unanswered = true
  | .handshake => ∃ e, peer .handshake = .error e ∧ e.kind.unanswered = true
  | .write frame =>
      frame.isRefusal = false ∧ ∃ e, peer (.write frame) = .error e ∧ e.kind.unanswered = true
  | .read awaited => ∃ e, (peer (.read awaited) = .error (.length e) ∨
      peer (.read awaited) = .error (.body e)) ∧ e.kind.unanswered = true

/-- What a side dials: each address in turn behaves as its place in the list says. -/
structure Dials where
  dialler : Dialler
  code : String
  peers : Nat → Peer

namespace Dials
variable (w : Dials)

/-- What dialling the address at a place comes to. -/
def attempt (i : Nat) (addr : String) : Except Chain Paired :=
  (dialAndPair w.dialler addr w.code).under (w.peers i)

/-- What is asked of the address at a place. -/
def asked (i : Nat) (addr : String) : List Ask :=
  (dialAndPair w.dialler addr w.code).asked (w.peers i)

/-- A dial, with the addresses dialled as what it leaves. -/
def dial (log : List String) (addr : String) : Except Chain Paired × List String :=
  (w.attempt log.length addr, log ++ [addr])

/-- Whether a connection to the address at a place is established. -/
def accepts (i : Nat) : Prop :=
  w.dialler.config.isOk = true ∧ w.peers i .connect = .established

/-- Whether the address at a place is handed the code. -/
def handed (i : Nat) (addr : String) : Prop :=
  ∃ message, Ask.write (.pairStart message) ∈ w.asked i addr

/-- What is promised of a walk over addresses: of its result, and of what it dialled. -/
structure Lawful (addrs : List String) (result : Except Chain (String × Paired)) (dialled : List String) :
    Prop where
  in_order : dialled <+: addrs
  begun : addrs ≠ [] → dialled ≠ []
  goes_on : ∀ i, i < dialled.length → i + 1 < addrs.length →
    (i + 1 < dialled.length ↔ ¬w.accepts i)
  first_success : ∀ addr v, result = .ok (addr, v) ↔
    ∃ i, dialled.length = i + 1 ∧ addrs[i]? = some addr ∧ w.attempt i addr = .ok v
  tagged : ∀ e, result = .error e →
    (wasNeverReached e = true ↔ addrs ≠ [] ∧ ∀ i < addrs.length, ¬w.accepts i)
  one_handed : ∀ i j a b, dialled[i]? = some a → dialled[j]? = some b →
    w.handed i a → w.handed j b → i = j

/-- Of the addresses up to the first that accepts: one that does not accept fails with a fault
that means it, not by silence; the one that does is not lost to such a fault. -/
def Told (addrs : List String) : Prop :=
  ∀ i addr, addrs[i]? = some addr → (∀ j < i, ¬w.accepts j) →
    (w.accepts i → ∀ q ∈ w.asked i addr, ¬Breaks (w.peers i) q) ∧
      (¬w.accepts i → w.dialler.config.isOk = true ∧ Breaks (w.peers i) .connect)

end Dials

section Honesty
variable {α β : Type} {peer : Peer}

def lost : Except Chain α → Bool
  | .ok _ => false
  | .error e => neverReached e

/-- What it ends with reads as if nobody had answered just when an answer broke off so. -/
def Honest (p : Proc α) : Prop :=
  ∀ peer, lost (p.under peer) = true ↔ ∃ q ∈ p.asked peer, Breaks peer q

theorem neverReached_said (texts : List String) : neverReached (texts.map .said) = false := by
  induction texts with
  | nil => rfl
  | cons _ _ ih => exact ih

theorem honest_ret (a : α) : Honest (.ret a : Proc α) := by
  intro peer
  constructor
  · exact nofun
  · rintro ⟨q, asked, _⟩
    cases asked

theorem honest_failed (texts : List String) : Honest (failed texts : Proc α) := by
  intro peer
  constructor
  · intro lost
    have read : neverReached (texts.map .said) = true := lost
    rw [neverReached_said] at read
    cases read
  · rintro ⟨q, asked, _⟩
    cases asked

theorem honest_found (context : List String) (known : Except (List String) α) :
    Honest (found context known) := by
  cases known with
  | ok a => exact honest_ret a
  | error why => exact honest_failed _

theorem Honest.bind {p : Proc α} {f : α → Proc β} (first : Honest p) (rest : ∀ a, Honest (f a)) :
    Honest (p >>= f) := by
  intro peer
  have before := first peer
  rw [Prog.under_bind, Prog.asked_bind]
  cases done : p.under peer with
  | error e =>
      rw [done] at before
      simp only [List.append_nil]
      exact before
  | ok a =>
      rw [done] at before
      have whole : ∀ q ∈ p.asked peer, ¬Breaks peer q :=
        fun q asked broke => Bool.false_ne_true (before.mpr ⟨q, asked, broke⟩)
      refine (rest a peer).trans ⟨?_, ?_⟩
      · rintro ⟨q, asked, broke⟩
        exact ⟨q, List.mem_append_right _ asked, broke⟩
      · rintro ⟨q, asked, broke⟩
        cases List.mem_append.mp asked with
        | inl early => exact absurd broke (whole q early)
        | inr late => exact ⟨q, late, broke⟩

theorem honest_explained {p : Proc α} (h : Honest p) : Honest (p.mapStop explain) := by
  intro peer
  rw [Prog.under_mapStop, Prog.asked_mapStop, ← h peer]
  cases p.under peer with
  | ok a => rfl
  | error e =>
      have same : neverReached (explain e) = neverReached e := by
        simp only [explain]
        split <;> rfl
      exact Iff.of_eq (congrArg (· = true) same)

theorem honest_ask {q : Ask} {k : Answer q → Proc α}
    (broke : ∀ peer : Peer, Breaks peer q → lost ((k (peer q)).under peer) = true)
    (whole : ∀ peer : Peer, ¬Breaks peer q →
      (lost ((k (peer q)).under peer) = true ↔ ∃ r ∈ (k (peer q)).asked peer, Breaks peer r)) :
    Honest (.ask q k) := by
  intro peer
  by_cases here : Breaks peer q
  · exact ⟨fun _ => ⟨q, List.mem_cons_self, here⟩, fun _ => broke peer here⟩
  · refine (whole peer here).trans ⟨?_, ?_⟩
    · rintro ⟨r, asked, broke⟩
      exact ⟨r, List.mem_cons_of_mem _ asked, broke⟩
    · rintro ⟨r, asked, broke⟩
      cases List.mem_cons.mp asked with
      | inl same => exact absurd (same ▸ broke) here
      | inr later => exact ⟨r, later, broke⟩

theorem honest_write {frame : PeerFrame} (heard : frame.isRefusal = false) :
    Honest (writeFrame frame) := by
  refine honest_ask ?_ ?_
  · intro peer broke
    obtain ⟨_, e, answer, unanswered⟩ := broke
    rw [answer]
    exact (Bool.or_false _).trans unanswered
  · intro peer whole
    cases answer : peer (.write frame) with
    | ok _ => exact honest_ret () peer
    | error e =>
        have other : e.kind.unanswered = false :=
          Bool.eq_false_iff.mpr fun unanswered => whole ⟨heard, e, answer, unanswered⟩
        simp [lost, Prog.under, Prog.asked, neverReached, Cause.unanswered, other]

theorem honest_read (awaited : Awaited) : Honest (readFrame awaited) := by
  refine honest_ask ?_ ?_
  · intro peer broke
    obtain ⟨e, answer | answer, unanswered⟩ := broke <;>
    · rw [answer]
      simp [lost, Prog.under, neverReached, Cause.unanswered, unanswered]
  · intro peer whole
    cases answer : peer (.read awaited) with
    | ok frame => exact honest_ret frame peer
    | error fault =>
        cases fault with
        | length e =>
            have other : e.kind.unanswered = false :=
              Bool.eq_false_iff.mpr fun unanswered => whole ⟨e, .inl answer, unanswered⟩
            simp [lost, Prog.under, Prog.asked, neverReached, Cause.unanswered, other]
        | body e =>
            have other : e.kind.unanswered = false :=
              Bool.eq_false_iff.mpr fun unanswered => whole ⟨e, .inr answer, unanswered⟩
            simp [lost, Prog.under, Prog.asked, neverReached, Cause.unanswered, other]
        | tooLong len => exact honest_failed _ peer
        | undecodable why => exact honest_failed _ peer

end Honesty

section Stages
variable {d : Dialler}

theorem honest_hellos : Honest (hellos d) :=
  (honest_write rfl).bind fun _ => (honest_read _).bind fun _ => honest_found _ _

theorem honest_messages (spake : Spake) : Honest (messages d spake) := by
  refine (honest_write rfl).bind fun _ => (honest_read _).bind fun _ => ?_
  exact (honest_found _ _).bind fun _ => honest_found _ _

theorem honest_confirmations (peer : NodeId) (key binding : Utf8.Bytes) :
    Honest (confirmations d peer key binding) := by
  refine (honest_write rfl).bind fun _ => (honest_read _).bind fun _ => ?_
  refine (honest_found _ _).bind fun theirs => ?_
  split
  · exact honest_ret ()
  · -- Whether the last word is heard never shows in the failure.
    refine honest_ask (fun _ broke => Bool.noConfusion broke.1) fun peer _ => ?_
    exact honest_failed _ peer

theorem honest_acceptances (peer : NodeId) : Honest (acceptances d peer) := by
  refine (honest_write rfl).bind fun _ => (honest_read _).bind fun _ => ?_
  exact (honest_found _ _).bind fun _ => (honest_found _ _).bind fun _ => honest_ret _

theorem honest_run (peer : NodeId) (code : String) (binding : Utf8.Bytes) :
    Honest (run d peer code binding) := by
  unfold run
  split
  · refine honest_hellos.bind fun name => (honest_messages _).bind fun key => ?_
    refine (honest_confirmations _ _ _).bind fun _ => (honest_acceptances _).bind fun publicKey => ?_
    exact honest_ret _
  · exact honest_failed _

theorem honest_pairOver (code : String) (session : TlsSession) : Honest (pairOver d code session) := by
  unfold pairOver
  split
  · exact honest_failed _
  · refine (honest_found _ _).bind fun peer => (honest_found _ _).bind fun binding => ?_
    exact honest_explained (honest_run _ _ _)

theorem honest_dialAndPair (addr code : String) : Honest (dialAndPair d addr code) := by
  refine (honest_found _ _).bind fun _ => honest_ask ?_ ?_
  · intro peer broke
    obtain ⟨e, answer, unanswered⟩ := broke
    rw [answer]
    simp [lost, Prog.under, neverReached, Cause.unanswered, unanswered]
  · intro peer whole
    cases answer : peer .connect with
    | silent => exact honest_failed _ peer
    | failed e =>
        have other : e.kind.unanswered = false :=
          Bool.eq_false_iff.mpr fun unanswered => whole ⟨e, answer, unanswered⟩
        simp [lost, Prog.under, Prog.asked, neverReached, Cause.unanswered, other]
    | established =>
        refine Honest.bind (honest_found _ _) (fun _ => honest_ask ?_ ?_) peer
        · intro peer broke
          obtain ⟨e, answer, unanswered⟩ := broke
          rw [answer]
          simp [lost, Prog.under, neverReached, Cause.unanswered, unanswered]
        · intro peer whole
          cases answer : peer .handshake with
          | error e =>
              have other : e.kind.unanswered = false :=
                Bool.eq_false_iff.mpr fun unanswered => whole ⟨e, answer, unanswered⟩
              simp [lost, Prog.under, Prog.asked, neverReached, Cause.unanswered, other]
          | ok session => exact honest_pairOver _ session peer

end Stages

namespace Dials
variable {w : Dials} {addrs log dialled : List String} {result : Except Chain (String × Paired)}
  {i : Nat} {addr : String}

def goesPast (w : Dials) (i : Nat) (addr : String) : Prop := lost (w.attempt i addr) = true

theorem goesPast_iff : w.goesPast i addr ↔ ∃ q ∈ w.asked i addr, Breaks (w.peers i) q :=
  honest_dialAndPair addr w.code (w.peers i)

/-- Without a connection nothing is written, and the failure reads as what it is just when the
fault of the connecting means it. -/
theorem unaccepted (closed : ¬w.accepts i) (addr : String) :
    (∃ e, w.attempt i addr = .error e) ∧ (∀ frame, Ask.write frame ∉ w.asked i addr) ∧
      (w.goesPast i addr ↔ w.dialler.config.isOk = true ∧ Breaks (w.peers i) .connect) := by
  have reads := @goesPast_iff w i addr
  unfold attempt asked dialAndPair at *
  cases config : w.dialler.config with
  | error why =>
      rw [config] at reads
      refine ⟨⟨_, rfl⟩, fun frame written => ?_, reads.trans ⟨?_, ?_⟩⟩
      · cases written
      · rintro ⟨q, asked, _⟩
        cases asked
      · exact fun h => Bool.noConfusion h.1
  | ok _ =>
      rw [config] at reads
      cases answer : w.peers i .connect with
      | established => exact absurd ⟨by rw [config]; rfl, answer⟩ closed
      | silent | failed e =>
          simp only [found, Prog.ret_bind, Prog.under, Prog.asked, answer, failed] at reads ⊢
          refine ⟨⟨_, rfl⟩, fun frame written => ?_, reads.trans ⟨?_, ?_⟩⟩
          · cases List.mem_singleton.mp written
          · rintro ⟨q, asked, broke⟩
            rw [List.mem_singleton.mp asked] at broke
            exact ⟨rfl, broke⟩
          · exact fun h => ⟨_, List.mem_singleton_self _, h.2⟩

/-- How a walk ends: past every address, or at the first it does not go past. -/
inductive Ends (w : Dials) (first : Nat) (addrs : List String) :
    Except Chain (String × Paired) → List String → Prop
  | unanswered {why} : (∀ k a, addrs[k]? = some a → w.goesPast (first + k) a) →
      Ends w first addrs (.error (ended true why)) addrs
  | paired {k a v} : addrs[k]? = some a →
      (∀ j < k, ∀ b, addrs[j]? = some b → w.goesPast (first + j) b) →
      w.attempt (first + k) a = .ok v → Ends w first addrs (.ok (a, v)) (addrs.take (k + 1))
  | refused {k a why} : addrs[k]? = some a →
      (∀ j < k, ∀ b, addrs[j]? = some b → w.goesPast (first + j) b) →
      (∃ e, w.attempt (first + k) a = .error e) → ¬w.goesPast (first + k) a →
      Ends w first addrs (.error (ended false why)) (addrs.take (k + 1))

theorem Ends.cons {first : Nat} (past : w.goesPast first addr)
    (rest : Ends w (first + 1) addrs result dialled) : Ends w first (addr :: addrs) result (addr :: dialled) := by
  have before {k : Nat} (h : ∀ j < k, ∀ b, addrs[j]? = some b → w.goesPast (first + 1 + j) b) :
      ∀ j < k + 1, ∀ b, (addr :: addrs)[j]? = some b → w.goesPast (first + j) b := by
    intro j hj b there
    cases j with
    | zero =>
        cases there
        exact past
    | succ j =>
        have later := h j (Nat.lt_of_succ_lt_succ hj) b there
        rwa [Nat.add_assoc, Nat.add_comm 1 j] at later
  cases rest with
  | unanswered all =>
      refine .unanswered fun k a there => ?_
      exact before (fun j _ b there => all j b there) k (Nat.lt_succ_self k) a there
  | @paired k a v there earlier attempt =>
      rw [Nat.add_assoc, Nat.add_comm 1 k] at attempt
      exact @Ends.paired w first (addr :: addrs) (k + 1) a v there (before earlier) attempt
  | @refused k a why there earlier failed stops =>
      rw [Nat.add_assoc, Nat.add_comm 1 k] at failed stops
      exact @Ends.refused w first (addr :: addrs) (k + 1) a why there (before earlier) failed stops

theorem walkFrom_ends (w : Dials) (log : List String) (why : List String) (addrs : List String) :
    ∃ result dialled, walkFrom w.dial log true why addrs = (result, log ++ dialled) ∧
      Ends w log.length addrs result dialled := by
  induction addrs generalizing log why with
  | nil => exact ⟨_, [], by rw [List.append_nil]; rfl, .unanswered nofun⟩
  | cons addr rest ih =>
      cases attempt : w.attempt log.length addr with
      | ok v =>
          refine ⟨.ok (addr, v), [addr], ?_, ?_⟩
          · simp only [walkFrom, dial, attempt]
          · exact @Ends.paired w log.length (addr :: rest) 0 addr v rfl nofun attempt
      | error e =>
          cases past : neverReached e with
          | true =>
              have here : w.goesPast log.length addr := by rw [goesPast, attempt]; exact past
              obtain ⟨result, dialled, walked, ends⟩ := ih (log ++ [addr]) (why ++ [s!"{addr}: {Chain.shown e}"])
              refine ⟨result, addr :: dialled, ?_, ?_⟩
              · rw [List.append_cons]
                simp only [walkFrom, dial, attempt, past, Bool.and_self, if_true, walked]
              · rw [List.length_append] at ends
                exact ends.cons here
          | false =>
              refine ⟨.error (ended false (why ++ [s!"{addr}: {Chain.shown e}"])), [addr], ?_, ?_⟩
              · simp only [walkFrom, dial, attempt, past, Bool.and_false, Bool.false_eq_true, if_false]
              · refine @Ends.refused w log.length (addr :: rest) 0 addr _ rfl nofun ⟨e, attempt⟩ ?_
                rw [goesPast, Nat.add_zero, attempt]
                exact Bool.eq_false_iff.mp past

namespace Ends

theorem in_order {first : Nat} (ends : Ends w first addrs result dialled) : dialled <+: addrs := by
  cases ends with
  | unanswered _ => exact List.prefix_rfl
  | paired _ _ _ | refused _ _ _ _ => exact List.take_prefix ..

theorem length_take_succ {k : Nat} (there : addrs[k]? = some addr) : (addrs.take (k + 1)).length = k + 1 := by
  have inside := (List.getElem?_eq_some_iff.mp there).1
  rw [List.length_take]
  omega

theorem begun {first : Nat} (ends : Ends w first addrs result dialled) (some_ : addrs ≠ []) :
    0 < dialled.length := by
  cases ends with
  | unanswered _ => exact List.length_pos_iff.mpr some_
  | paired there _ _ | refused there _ _ _ =>
      rw [length_take_succ there]
      exact Nat.succ_pos _

/-- It goes past every address but the last it dials. -/
theorem past (ends : Ends w 0 addrs result dialled) (i : Nat) (more : i + 1 < dialled.length)
    (there : addrs[i]? = some addr) : w.goesPast i addr := by
  have at_ (k : Nat) : 0 + k = k := Nat.zero_add k
  cases ends with
  | unanswered all => exact at_ i ▸ all i addr there
  | paired other earlier _ | refused other earlier _ _ =>
      rw [length_take_succ other] at more
      exact at_ i ▸ earlier i (Nat.lt_of_succ_lt_succ more) addr there

/-- It dials one more just when it goes past the last. -/
theorem next_iff (ends : Ends w 0 addrs result dialled) (i : Nat) (here : i < dialled.length)
    (there : addrs[i]? = some addr) (left : i + 1 < addrs.length) :
    i + 1 < dialled.length ↔ w.goesPast i addr := by
  refine ⟨fun more => ends.past i more there, fun past => Nat.not_le.mp fun last => ?_⟩
  have at_ (k : Nat) : 0 + k = k := Nat.zero_add k
  cases ends with
  | unanswered all => omega
  | @paired k a v other _ attempt =>
      rw [length_take_succ other] at here last
      obtain rfl : k = i := by omega
      obtain rfl : a = addr := Option.some.inj (other.symm.trans there)
      rw [at_] at attempt
      rw [goesPast, attempt] at past
      cases past
  | @refused k a why other _ _ stops =>
      rw [length_take_succ other] at here last
      obtain rfl : k = i := by omega
      obtain rfl : a = addr := Option.some.inj (other.symm.trans there)
      rw [at_] at stops
      exact stops past

theorem first_success (ends : Ends w 0 addrs result dialled) (addr : String) (v : Paired) :
    result = .ok (addr, v) ↔
      ∃ i, dialled.length = i + 1 ∧ addrs[i]? = some addr ∧ w.attempt i addr = .ok v := by
  have at_ (k : Nat) : 0 + k = k := Nat.zero_add k
  constructor
  · intro it
    subst it
    cases ends with
    | @paired k _ _ there _ attempt =>
        exact ⟨k, length_take_succ there, there, at_ k ▸ attempt⟩
  · rintro ⟨i, last, there, attempt⟩
    cases ends with
    | unanswered all =>
        have past := all i addr there
        rw [goesPast, at_, attempt] at past
        cases past
    | @paired k a u other _ attempt' =>
        rw [length_take_succ other] at last
        obtain rfl : k = i := Nat.succ.inj last
        obtain rfl : a = addr := Option.some.inj (other.symm.trans there)
        rw [at_] at attempt'
        rw [Except.ok.inj (attempt'.symm.trans attempt)]
    | @refused k a why other _ failed _ =>
        rw [length_take_succ other] at last
        obtain rfl : k = i := Nat.succ.inj last
        obtain rfl : a = addr := Option.some.inj (other.symm.trans there)
        obtain ⟨e, failed⟩ := failed
        rw [at_] at failed
        cases failed.symm.trans attempt

/-- A walk that failed is tagged just when it went past every address. -/
theorem tagged_iff {e : Chain} (ends : Ends w 0 addrs result dialled) (failed : result = .error e) :
    wasNeverReached e = true ↔ ∀ i addr, addrs[i]? = some addr → w.goesPast i addr := by
  have at_ (k : Nat) : 0 + k = k := Nat.zero_add k
  cases ends with
  | unanswered all =>
      cases failed
      exact ⟨fun _ i addr there => at_ i ▸ all i addr there, fun _ => rfl⟩
  | paired _ _ _ => cases failed
  | @refused k a why there _ _ stops =>
      cases failed
      rw [at_] at stops
      refine ⟨?_, fun all => absurd (all k a there) stops⟩
      exact nofun

end Ends

/-- What the chain of causes says of each address, up to the first that accepts, is true. -/
def Reads (w : Dials) (addrs : List String) : Prop :=
  ∀ i addr, addrs[i]? = some addr → (∀ j < i, ¬w.accepts j) → (w.goesPast i addr ↔ ¬w.accepts i)

theorem told_iff_reads : w.Told addrs ↔ w.Reads addrs := by
  refine forall_congr' fun i => forall_congr' fun addr => imp_congr_right fun there =>
    imp_congr_right fun earlier => ?_
  by_cases here : w.accepts i
  · have kept : (∀ q ∈ w.asked i addr, ¬Breaks (w.peers i) q) ↔ ¬w.goesPast i addr := by
      rw [goesPast_iff]
      exact ⟨fun none_ h => h.elim fun q hq => none_ q hq.1 hq.2, fun none_ q asked broke => none_ ⟨q, asked, broke⟩⟩
    simp only [here, kept, true_imp_iff, not_true_eq_false, false_imp_iff, and_true, iff_false]
  · have reads := (unaccepted here addr).2.2
    simp only [here, reads, false_imp_iff, not_false_eq_true, true_imp_iff, true_and, iff_true]

/-- Where the chains of causes are true, an address is gone past just when it does not accept. -/
theorem Reads.unaccepted_before (reads : w.Reads addrs) (past : ∀ j < i, ∀ b, addrs[j]? = some b → w.goesPast j b)
    (inside : i ≤ addrs.length) : ∀ j < i, ¬w.accepts j := by
  induction i with
  | zero => exact nofun
  | succ i ih =>
      have earlier := ih (fun j hj => past j (Nat.lt_succ_of_lt hj)) (Nat.le_of_succ_le inside)
      intro j hj
      cases Nat.lt_succ_iff_lt_or_eq.mp hj with
      | inl before => exact earlier j before
      | inr last =>
          subst last
          obtain ⟨b, there⟩ : ∃ b, addrs[j]? = some b := ⟨_, List.getElem?_eq_getElem inside⟩
          exact (reads j _ there earlier).mp (past j hj _ there)

section Law
variable (ends : Ends w 0 addrs result dialled)
include ends

theorem lawful_of_reads (some_ : addrs ≠ []) (reads : w.Reads addrs) : w.Lawful addrs result dialled := by
  have fits : dialled.length ≤ addrs.length := ends.in_order.length_le
  have closed (i : Nat) (here : i < dialled.length) : ∀ j < i, ¬w.accepts j :=
    reads.unaccepted_before
      (fun j hj b there => ends.past j (Nat.lt_of_le_of_lt hj here) there)
      (Nat.le_trans (Nat.le_of_lt here) fits)
  have named (i : Nat) (inside : i < addrs.length) : ∃ a, addrs[i]? = some a :=
    ⟨_, List.getElem?_eq_getElem inside⟩
  refine ⟨ends.in_order, fun _ => List.length_pos_iff.mp (ends.begun some_), ?_, ends.first_success, ?_, ?_⟩
  · intro i here left
    obtain ⟨a, there⟩ := named i (Nat.lt_of_succ_lt left)
    rw [ends.next_iff i here there left]
    exact reads i a there (closed i here)
  · intro e failed
    rw [ends.tagged_iff failed]
    constructor
    · intro all
      refine ⟨some_, reads.unaccepted_before (fun j _ => all j) (Nat.le_refl _)⟩
    · rintro ⟨_, shut⟩ i a there
      have inside := (List.getElem?_eq_some_iff.mp there).1
      exact (reads i a there fun j hj => shut j (Nat.lt_trans hj inside)).mpr (shut i inside)
  · have last {i j : Nat} {a : String} (ha : dialled[i]? = some a) (other : j < dialled.length)
        (given : w.handed i a) : ¬i < j := by
      intro before
      obtain ⟨message, written⟩ := given
      have here : i < dialled.length := (List.getElem?_eq_some_iff.mp ha).1
      obtain ⟨b, there⟩ := named i (Nat.lt_of_lt_of_le here fits)
      have past := ends.past i (Nat.lt_of_le_of_lt before other) there
      exact (unaccepted ((reads i b there (closed i here)).mp past) a).2.1 _ written
    intro i j a b ha hb givenA givenB
    have before := last ha (List.getElem?_eq_some_iff.mp hb).1 givenA
    have after := last hb (List.getElem?_eq_some_iff.mp ha).1 givenB
    omega

theorem reads_of_lawful (some_ : addrs ≠ []) (law : w.Lawful addrs result dialled) : w.Reads addrs := by
  intro i addr there earlier
  have inside := (List.getElem?_eq_some_iff.mp there).1
  have fits : dialled.length ≤ addrs.length := ends.in_order.length_le
  -- The walk comes to every address before which none accepts.
  have comes (k : Nat) (upTo : k ≤ i) : k < dialled.length := by
    induction k with
    | zero => exact ends.begun some_
    | succ k ih =>
        have before := ih (Nat.le_of_succ_le upTo)
        exact (law.goes_on k before (Nat.lt_of_le_of_lt upTo inside)).mpr (earlier k upTo)
  have here := comes i (Nat.le_refl i)
  by_cases left : i + 1 < addrs.length
  · rw [← ends.next_iff i here there left]
    exact law.goes_on i here left
  · -- The last address decides what the failure is tagged with.
    have whole : dialled.length = i + 1 := by omega
    have all_past (past : w.goesPast i addr) : ∀ k b, addrs[k]? = some b → w.goesPast k b := by
      intro k b hb
      have within := (List.getElem?_eq_some_iff.mp hb).1
      by_cases before : k < i
      · exact ends.past k (by omega) hb
      · obtain rfl : k = i := by omega
        obtain rfl : addr = b := Option.some.inj (there.symm.trans hb)
        exact past
    cases done : result with
    | ok found =>
        obtain ⟨k, last, hk, attempt⟩ := (ends.first_success found.1 found.2).mp done
        obtain rfl : k = i := by omega
        obtain rfl : found.1 = addr := Option.some.inj (hk.symm.trans there)
        constructor
        · intro past
          rw [goesPast, attempt] at past
          cases past
        · intro shut
          obtain ⟨e, failed⟩ := (unaccepted shut found.1).1
          cases failed.symm.trans attempt
    | error e =>
        have tag := (ends.tagged_iff done).symm.trans (law.tagged e done)
        constructor
        · exact fun past => (tag.mp (all_past past)).2 i inside
        · intro shut
          refine tag.mpr ⟨some_, fun k hk => ?_⟩ i addr there
          by_cases before : k < i
          · exact earlier k before
          · obtain rfl : k = i := by omega
            exact shut

end Law

theorem lawful_iff_walk (w : Dials) (addrs : List String) :
    w.Lawful addrs (walk w.dial [] addrs).1 (walk w.dial [] addrs).2 ↔ w.Told addrs := by
  cases addrs with
  | nil =>
      refine ⟨fun _ => nofun, fun _ => ⟨List.prefix_rfl, fun h => absurd rfl h, nofun, ?_, ?_, nofun⟩⟩
      · intro addr v
        exact ⟨nofun, fun ⟨i, last, _⟩ => nomatch last⟩
      · intro e failed
        cases failed
        exact ⟨nofun, fun h => absurd rfl h.1⟩
  | cons addr rest =>
      obtain ⟨result, dialled, walked, ends⟩ := walkFrom_ends w [] [] (addr :: rest)
      have whole : walk w.dial [] (addr :: rest) = (result, dialled) := walked
      rw [whole, told_iff_reads]
      exact ⟨reads_of_lawful ends nofun, lawful_of_reads ends nofun⟩

/-- Both walks keep what they promise just when what each address is found to be is true. -/
theorem walks_lawful_iff (w : Dials) (addrs : List String) :
    (w.Lawful addrs (walk w.dial [] addrs).1 (walk w.dial [] addrs).2 ↔ w.Told addrs) ∧
      (w.Lawful addrs (walkAsync w.dial [] addrs).1 (walkAsync w.dial [] addrs).2 ↔ w.Told addrs) :=
  ⟨lawful_iff_walk w addrs, lawful_iff_walk w addrs⟩

section Instances

/-- A side to which every key, message and code of a pairing is the same. -/
def joiner : Dialler where
  decodeHex := fun _ => .ok (List.replicate 32 0)
  digest := fun _ => 0
  point := fun _ => .ok ()
  spake := fun _ _ => ⟨[], fun _ => .ok []⟩
  debug := fun _ => ""
  node := 1
  publicKey := []
  name := "laptop"
  os := "linux"
  config := .ok ()
  serverName := .ok ()

def silentPeer : Peer
  | .connect => .silent
  | .handshake => .error ⟨.other "UnexpectedEof", "tls handshake eof"⟩
  | .write _ => .ok ()
  | .read _ => .error (.undecodable "")

/-- The machine that minted the code, at an address that is reached. -/
def invitingPeer : Peer
  | .connect => .established
  | .handshake => .ok ⟨some (spkiPrefix ++ List.replicate 32 0), .ok []⟩
  | .write _ => .ok ()
  | .read .hello => .ok (.hello 1 "dgx" true "" "linux" none)
  | .read .message => .ok (.pairAnswer "")
  | .read .confirmation => .ok (.pairConfirm "")
  | .read .acceptance => .ok (.pairAccepted "")

/-- The first address is of a network this side is not on; the second is of one it is. -/
def multiHomed : Dials := ⟨joiner, "12345678", fun i => if i = 0 then silentPeer else invitingPeer⟩

theorem silence_strands : (multiHomed.attempt 1 "192.168.1.5:34334").isOk = true ∧
    ¬multiHomed.Lawful ["10.10.10.9:34334", "192.168.1.5:34334"]
      (walk multiHomed.dial [] ["10.10.10.9:34334", "192.168.1.5:34334"]).1
      (walk multiHomed.dial [] ["10.10.10.9:34334", "192.168.1.5:34334"]).2 := by
  refine ⟨by decide +kernel, fun law => ?_⟩
  have one : (walk multiHomed.dial [] ["10.10.10.9:34334", "192.168.1.5:34334"]).2.length = 1 := rfl
  have next_ := law.goes_on 0 (one ▸ Nat.zero_lt_one) (by decide)
  rw [one] at next_
  exact absurd (next_.mpr fun accepted => nomatch accepted.2) (Nat.lt_irrefl 1)

end Instances

end Dials

end Joining
end Metralectl
