import Metralectl.Peer.RankChannel

/-!
Whether the answer an agent takes is the answer to what it asked. A peer may send
anything at any moment: vitals, answers to an earlier question, answers to nobody's.
-/
namespace Metralectl
namespace Peer

/-- A question as it is put on a channel: what a frame is to it, and what is said when
nothing comes and when too much else does. -/
structure Question (T : Type) where
  late : String
  spent : String
  want : PeerFrame → Except String (Option T)

namespace Question
variable {T : Type} (q : Question T)

/-- Read for an answer so many times; what is left on the channel after it. -/
def readFrom : Nat → List Read → Except String T × List Read
  | 0, left => (.error q.spent, left)
  | _ + 1, [] => (.error q.late, [])
  | _ + 1, .failed why :: left => (.error why, left)
  | n + 1, .frame f :: left =>
      if f = .vitals then readFrom n left
      else
        match q.want f with
        | .error e => (.error e, left)
        | .ok (some v) => (.ok v, left)
        | .ok none => readFrom n left

def put (reads : List Read) : Except String T × List Read := q.readFrom skipBudget reads

/-- A frame the reader reads past, and one it takes an answer from. -/
def Skips (f : PeerFrame) : Prop := f = .vitals ∨ q.want f = .ok none
def Takes (f : PeerFrame) (v : T) : Prop := f ≠ .vitals ∧ q.want f = .ok (some v)

variable {q}

theorem readFrom_skips {n : Nat} {f : PeerFrame} (skips : q.Skips f) (left : List Read) :
    q.readFrom (n + 1) (.frame f :: left) = q.readFrom n left := by
  by_cases vitals : f = .vitals
  · rw [readFrom, if_pos vitals]
  · rw [readFrom, if_neg vitals, skips.resolve_left vitals]

theorem readFrom_takes {n : Nat} {f : PeerFrame} {v : T} (takes : q.Takes f v) (left : List Read) :
    q.readFrom (n + 1) (.frame f :: left) = (.ok v, left) := by
  rw [readFrom, if_neg takes.1, takes.2]

theorem readFrom_bounded (n : Nat) (reads : List Read) :
    reads.length ≤ (q.readFrom n reads).2.length + n := by
  induction n generalizing reads with
  | zero => exact Nat.le_refl _
  | succ n ih =>
      cases reads with
      | nil => exact Nat.zero_le _
      | cons r left =>
          have later := ih left
          cases r with
          | failed why => simp [readFrom]
          | frame f =>
              by_cases vitals : f = .vitals
              · rw [readFrom_skips (.inl vitals), List.length_cons]
                omega
              · cases wanted : q.want f with
                | error e => simp [readFrom, vitals, wanted]
                | ok found =>
                    cases found with
                    | some v => simp [readFrom, vitals, wanted]
                    | none =>
                        rw [readFrom_skips (.inr wanted), List.length_cons]
                        omega

/-- An answer was read behind skipped frames. -/
theorem readFrom_ok {n : Nat} {reads : List Read} {v : T} (ok : (q.readFrom n reads).1 = .ok v) :
    ∃ (skipped : List PeerFrame) (f : PeerFrame) (rest : List Read),
      reads = skipped.map Read.frame ++ .frame f :: rest ∧ skipped.length < n ∧
      (∀ g ∈ skipped, q.Skips g) ∧ q.Takes f v := by
  induction n generalizing reads with
  | zero => cases ok
  | succ n ih =>
      cases reads with
      | nil => cases ok
      | cons r left =>
          cases r with
          | failed why => cases ok
          | frame f =>
              have behind (skips : q.Skips f) : ∃ (skipped : List PeerFrame) (g : PeerFrame) (rest : List Read),
                  Read.frame f :: left = skipped.map Read.frame ++ .frame g :: rest ∧
                    skipped.length < n + 1 ∧ (∀ g ∈ skipped, q.Skips g) ∧ q.Takes g v := by
                rw [readFrom_skips skips] at ok
                obtain ⟨skipped, g, rest, same, few, all, takes⟩ := ih ok
                exact ⟨f :: skipped, g, rest, by rw [same]; rfl, Nat.succ_lt_succ few,
                  List.forall_mem_cons.mpr ⟨skips, all⟩, takes⟩
              by_cases vitals : f = .vitals
              · exact behind (.inl vitals)
              · cases wanted : q.want f with
                | error e => simp [readFrom, vitals, wanted] at ok
                | ok found =>
                    cases found with
                    | none => exact behind (.inr wanted)
                    | some w =>
                        have takes : q.Takes f w := ⟨vitals, wanted⟩
                        rw [readFrom_takes takes] at ok
                        cases ok
                        exact ⟨[], f, left, rfl, Nat.succ_pos n,
                          fun g hg => absurd hg List.not_mem_nil, takes⟩

/-- An answer behind few enough skipped frames is the one returned. -/
theorem readFrom_found {n : Nat} {skipped : List PeerFrame} {f : PeerFrame} {v : T}
    (few : skipped.length < n) (skips : ∀ g ∈ skipped, q.Skips g) (takes : q.Takes f v)
    (rest : List Read) :
    (q.readFrom n (skipped.map Read.frame ++ .frame f :: rest)).1 = .ok v := by
  induction skipped generalizing n with
  | nil =>
      obtain ⟨n, rfl⟩ := Nat.exists_eq_succ_of_ne_zero (Nat.ne_of_gt few)
      exact congrArg Prod.fst (readFrom_takes takes rest)
  | cons g skipped ih =>
      obtain ⟨n, rfl⟩ := Nat.exists_eq_succ_of_ne_zero (Nat.ne_of_gt (Nat.zero_lt_of_lt few))
      rw [List.map_cons, List.cons_append, readFrom_skips (skips g List.mem_cons_self)]
      exact ih (Nat.lt_of_succ_lt_succ few) fun h hh => skips h (List.mem_cons_of_mem _ hh)

end Question

/-- What an answer must be: taken from a reply of its kind that names what was asked
about, past frames that do not answer, in so many reads; and found if it is there. -/
structure Answering {T : Type} (q : Question T) (reads : List Read) (stale : PeerFrame → Prop)
    (answers : PeerFrame → T → Prop) : Prop where
  bounded : reads.length ≤ (q.put reads).2.length + skipBudget
  own : ∀ v, (q.put reads).1 = .ok v → ∃ (skipped : List PeerFrame) (f : PeerFrame) (rest : List Read),
    reads = skipped.map Read.frame ++ .frame f :: rest ∧ skipped.length < skipBudget ∧
      (∀ g ∈ skipped, g = .vitals ∨ stale g) ∧ answers f v
  found : ∀ (skipped : List PeerFrame) (f : PeerFrame) (rest : List Read) (v : T),
    reads = skipped.map Read.frame ++ .frame f :: rest →
    skipped.length < skipBudget → (∀ g ∈ skipped, g = .vitals ∨ stale g) → answers f v →
      (q.put reads).1 = .ok v

/-- A reader that skips what is stale and takes what answers, and nothing else. -/
theorem Answering.of_want {T : Type} {q : Question T} {stale : PeerFrame → Prop}
    {answers : PeerFrame → T → Prop}
    (skips : ∀ f, f ≠ .vitals → (q.want f = .ok none ↔ stale f))
    (takes : ∀ f v, q.Takes f v ↔ answers f v) (reads : List Read) :
    Answering q reads stale answers := by
  have past (g : PeerFrame) : q.Skips g ↔ g = .vitals ∨ stale g := by
    by_cases vitals : g = .vitals
    · exact iff_of_true (.inl vitals) (.inl vitals)
    · rw [Question.Skips, skips g vitals]
  constructor
  case bounded => exact Question.readFrom_bounded skipBudget reads
  case own =>
    intro v ok
    obtain ⟨skipped, f, rest, same, few, all, took⟩ := Question.readFrom_ok ok
    exact ⟨skipped, f, rest, same, few, fun g hg => (past g).mp (all g hg), (takes f v).mp took⟩
  case found =>
    intro skipped f rest v same few all there
    rw [same]
    exact Question.readFrom_found few (fun g hg => (past g).mpr (all g hg)) ((takes f v).mpr there)
      rest

section Verbs
variable (debug : PeerFrame → String) (addr : String)

/-- A rank verb's question. -/
def rankQuestion {T : Type} (what : String) (want : PeerFrame → Except String (Option T)) :
    Question T where
  late := s!"{addr} did not answer the {what} in time"
  spent := s!"{addr} kept sending vitals instead of answering the {what}"
  want

theorem answer_eq_put {T : Type} (what : String) (want : PeerFrame → Except String (Option T))
    (reads : List Read) :
    answer addr what want (.ok reads) = ((rankQuestion addr what want).put reads).1 := by
  have each (n : Nat) (reads : List Read) :
      answerFrom addr what want n reads = ((rankQuestion addr what want).readFrom n reads).1 := by
    induction n generalizing reads with
    | zero => rfl
    | succ n ih =>
        cases reads with
        | nil => rfl
        | cons r left =>
            cases r with
            | failed why => rfl
            | frame f =>
                by_cases vitals : f = .vitals
                · rw [answerFrom, Question.readFrom, if_pos vitals, if_pos vitals, ih]
                · rw [answerFrom, Question.readFrom, if_neg vitals, if_neg vitals]
                  cases wanted : want f with
                  | error e => simp [rankQuestion, wanted]
                  | ok found => cases found <;> simp [rankQuestion, wanted, ih]
  exact each skipBudget reads

def preparing (epoch : String) : Question PrepareReply :=
  rankQuestion addr "prepare" fun
    | .prepared e reply => .ok (if e = epoch then some reply else none)
    | .rankRefused reason => .ok (some (.refused reason))
    | f => .error s!"expected a prepare result, got {debug f}"

def committing (epoch : String) : Question String :=
  rankQuestion addr "commit" fun
    | .committed e container => .ok (if e = epoch then some container else none)
    | .rankRefused reason => .error reason
    | f => .error s!"expected a commit result, got {debug f}"

def aborting (epoch : String) : Question Unit :=
  rankQuestion addr "abort" fun
    | .aborted e => .ok (if e = epoch then some () else none)
    | f => .error s!"expected an abort acknowledgement, got {debug f}"

def asking (container : String) : Question Bool :=
  rankQuestion addr "liveness" fun
    | .rankLiveness c running => .ok (if c = container then some running else none)
    | f => .error s!"expected a liveness answer, got {debug f}"

def stopping (container : String) : Question Unit :=
  rankQuestion addr "stop" fun
    | .rankStopped c => .ok (if c = container then some () else none)
    | f => .error s!"expected a stop acknowledgement, got {debug f}"

/-- Read exactly one control reply. One that echoes another attempt than the one sent
is not this request's answer; one that echoes nothing is taken as it is. -/
def controlReply (budget : String) (sent : Option ControlTrace) : Question ControlRep where
  late := s!"{addr} did not answer the control request within {budget}"
  spent := s!"{addr} kept sending vitals instead of answering the control request"
  want
    | .controlReply rep trace =>
        match sent, trace with
        | some sent, some echoed =>
            if sent = echoed then .ok (some rep)
            else
              .error (s!"{addr} answered attempt {String.ofList (hexDigits 32 echoed.attempt.toNat)}, "
                ++ s!"not this request's {String.ofList (hexDigits 32 sent.attempt.toNat)}")
        | _, _ => .ok (some rep)
    | f => .error s!"expected a control reply from {addr}, got {debug f}"

/-- A reply of the kind asked for that names something else. -/
def stalePrepare (epoch : String) (f : PeerFrame) : Prop :=
  ∃ e reply, f = .prepared e reply ∧ e ≠ epoch
def staleCommit (epoch : String) (f : PeerFrame) : Prop :=
  ∃ e container, f = .committed e container ∧ e ≠ epoch
def staleAbort (epoch : String) (f : PeerFrame) : Prop := ∃ e, f = .aborted e ∧ e ≠ epoch
def staleLiveness (container : String) (f : PeerFrame) : Prop :=
  ∃ c running, f = .rankLiveness c running ∧ c ≠ container
def staleStop (container : String) (f : PeerFrame) : Prop := ∃ c, f = .rankStopped c ∧ c ≠ container

/-- A refusal names no epoch, and a prepare returns it as the answer it is. -/
def preparedAs (epoch : String) (f : PeerFrame) (reply : PrepareReply) : Prop :=
  f = .prepared epoch reply ∨ ∃ reason, f = .rankRefused reason ∧ reply = .refused reason

/-- A control reply that echoes this request, or none. -/
def repliedAs (sent : Option ControlTrace) (f : PeerFrame) (rep : ControlRep) : Prop :=
  ∃ trace, f = .controlReply rep trace ∧ (trace = none ∨ trace = sent)

section Rank
variable (reads : List Read) (epoch container : String)

theorem preparing_answers :
    Answering (preparing debug addr epoch) reads (stalePrepare epoch) (preparedAs epoch) := by
  apply Answering.of_want
  · intro f _
    dsimp only [preparing, rankQuestion]
    split
    · simp [stalePrepare]
    · simp [stalePrepare]
    · next other _ => exact ⟨nofun, fun ⟨e, reply, same, _⟩ => absurd same (other e reply)⟩
  · intro f v
    dsimp only [Question.Takes, preparing, rankQuestion]
    split
    · simp [preparedAs, eq_comm]
    · simp [preparedAs, eq_comm]
    · next other refused =>
        constructor
        · rintro ⟨_, ⟨⟩⟩
        · rintro (same | ⟨reason, same, _⟩)
          · exact absurd same (other epoch v)
          · exact absurd same (refused reason)

theorem committing_answers :
    Answering (committing debug addr epoch) reads (staleCommit epoch)
      fun f container => f = .committed epoch container := by
  apply Answering.of_want
  · intro f _
    dsimp only [committing, rankQuestion]
    split
    · simp [staleCommit]
    · simp [staleCommit]
    · next other _ => exact ⟨nofun, fun ⟨e, container, same, _⟩ => absurd same (other e container)⟩
  · intro f v
    dsimp only [Question.Takes, committing, rankQuestion]
    split
    · simp
    · simp
    · next other _ =>
        constructor
        · rintro ⟨_, ⟨⟩⟩
        · exact fun same => absurd same (other epoch v)

theorem aborting_answers :
    Answering (aborting debug addr epoch) reads (staleAbort epoch) fun f _ => f = .aborted epoch := by
  apply Answering.of_want
  · intro f _
    dsimp only [aborting, rankQuestion]
    split
    · simp [staleAbort]
    · next other => exact ⟨nofun, fun ⟨e, same, _⟩ => absurd same (other e)⟩
  · intro f v
    dsimp only [Question.Takes, aborting, rankQuestion]
    split
    · simp
    · next other =>
        constructor
        · rintro ⟨_, ⟨⟩⟩
        · exact fun same => absurd same (other epoch)

theorem asking_answers :
    Answering (asking debug addr container) reads (staleLiveness container)
      fun f running => f = .rankLiveness container running := by
  apply Answering.of_want
  · intro f _
    dsimp only [asking, rankQuestion]
    split
    · simp [staleLiveness]
    · next other => exact ⟨nofun, fun ⟨c, running, same, _⟩ => absurd same (other c running)⟩
  · intro f v
    dsimp only [Question.Takes, asking, rankQuestion]
    split
    · simp
    · next other =>
        constructor
        · rintro ⟨_, ⟨⟩⟩
        · exact fun same => absurd same (other container v)

theorem stopping_answers :
    Answering (stopping debug addr container) reads (staleStop container)
      fun f _ => f = .rankStopped container := by
  apply Answering.of_want
  · intro f _
    dsimp only [stopping, rankQuestion]
    split
    · simp [staleStop]
    · next other => exact ⟨nofun, fun ⟨c, same, _⟩ => absurd same (other c)⟩
  · intro f v
    dsimp only [Question.Takes, stopping, rankQuestion]
    split
    · simp
    · next other =>
        constructor
        · rintro ⟨_, ⟨⟩⟩
        · exact fun same => absurd same (other container)

end Rank

section Control
variable (budget : String) {sent : Option ControlTrace} {reads : List Read}

/-- The first frame that is not vitals, among those that are read. -/
def firstAnswer (reads : List Read) : Option Read :=
  (reads.take skipBudget).find? fun r => r ≠ .frame .vitals

/-- The trace that frame echoes, if it is a control reply. -/
def echoed (reads : List Read) : Option ControlTrace :=
  match firstAnswer reads with
  | some (.frame (.controlReply _ trace)) => trace
  | _ => none

theorem firstAnswer_eq {skipped : List PeerFrame} {f : PeerFrame} {rest : List Read}
    (few : skipped.length < skipBudget) (vitals : ∀ g ∈ skipped, g = .vitals) (solicited : f ≠ .vitals) :
    firstAnswer (skipped.map Read.frame ++ .frame f :: rest) = some (.frame f) := by
  obtain ⟨n, budget⟩ : ∃ n, skipBudget = skipped.length + (n + 1) :=
    ⟨skipBudget - skipped.length - 1, by omega⟩
  have none_before : (skipped.map Read.frame).find? (fun r => r ≠ .frame .vitals) = none := by
    rw [List.find?_eq_none]
    intro r hr
    obtain ⟨g, hg, rfl⟩ := List.mem_map.mp hr
    simp [vitals g hg]
  rw [firstAnswer, budget, ← List.length_map (f := Read.frame), List.take_length_add_append,
    List.take_succ_cons, List.find?_append, none_before]
  simp [solicited]

theorem firstAnswer_split {f : PeerFrame} (first : firstAnswer reads = some (.frame f)) :
    ∃ (skipped : List PeerFrame) (rest : List Read),
      reads = skipped.map Read.frame ++ .frame f :: rest ∧ skipped.length < skipBudget ∧
        (∀ g ∈ skipped, g = .vitals) ∧ f ≠ .vitals := by
  rw [firstAnswer, List.find?_eq_some_iff_append] at first
  obtain ⟨solicited, before, after, same, skips⟩ := first
  have vitals : before = (List.replicate before.length PeerFrame.vitals).map Read.frame := by
    rw [List.map_replicate, List.eq_replicate_iff]
    exact ⟨rfl, fun r hr => by simpa using skips r hr⟩
  have few : before.length < skipBudget := by
    have total := congrArg List.length same
    rw [List.length_take, List.length_append, List.length_cons] at total
    omega
  refine ⟨List.replicate before.length .vitals, after ++ reads.drop skipBudget, ?_, ?_, ?_, ?_⟩
  · rw [← vitals, ← List.cons_append, ← List.append_assoc, ← same, List.take_append_drop]
  · rwa [List.length_replicate]
  · exact fun g hg => (List.mem_replicate.mp hg).2
  · simpa using solicited

theorem controlReply_skips {f : PeerFrame} (skips : (controlReply debug addr budget sent).Skips f) :
    f = .vitals := by
  refine skips.resolve_right fun none => ?_
  cases f with
  | controlReply rep trace =>
      cases sent with
      | none => cases none
      | some s =>
          cases trace with
          | none => cases none
          | some e => by_cases same : s = e <;> simp [controlReply, same] at none
  | _ => cases none

/-- What is taken is a reply that is compared only if both sides carry a trace. -/
theorem controlReply_takes {f : PeerFrame} {rep : ControlRep} :
    (controlReply debug addr budget sent).Takes f rep ↔
      ∃ trace, f = .controlReply rep trace ∧ (sent = none ∨ trace = none ∨ trace = sent) := by
  dsimp only [Question.Takes, controlReply]
  split
  · next r trace =>
      cases sent with
      | none => simp
      | some s =>
          cases trace with
          | none => simp
          | some e => by_cases same : s = e <;> simp [same, eq_comm]
  · next other =>
      constructor
      · rintro ⟨_, ⟨⟩⟩
      · rintro ⟨trace, same, _⟩
        exact absurd same (other rep trace)

/-- A request that carried no trace takes a reply to another's. -/
theorem controlReply_answers :
    Answering (controlReply debug addr budget sent) reads (fun _ => False) (repliedAs sent) ↔
      (sent = none → echoed reads = none) := by
  constructor
  · intro answering traceless
    cases first : firstAnswer reads with
    | none => rw [echoed, first]
    | some r =>
        rw [echoed, first]
        cases r with
        | failed why => rfl
        | frame f =>
            cases f with
            | controlReply rep trace =>
                obtain ⟨skipped, rest, same, few, vitals, _⟩ := firstAnswer_split first
                have took : ((controlReply debug addr budget sent).put reads).1 = .ok rep := by
                  rw [same]
                  exact Question.readFrom_found few (fun g hg => .inl (vitals g hg))
                    ((controlReply_takes debug addr budget).mpr ⟨trace, rfl, .inl traceless⟩) rest
                obtain ⟨others, g, later, split, short, skips, e, rfl, own⟩ := answering.own rep took
                have here := @firstAnswer_eq others (.controlReply rep e) later short
                  (fun h hh => (skips h hh).resolve_right id) nofun
                rw [← split, first] at here
                cases here
                rw [traceless, or_self] at own
                exact own
            | _ => rfl
  · intro compared
    constructor
    case bounded => exact Question.readFrom_bounded skipBudget reads
    case own =>
      intro rep ok
      obtain ⟨skipped, f, rest, same, few, skips, takes⟩ := Question.readFrom_ok ok
      have vitals (g : PeerFrame) (hg : g ∈ skipped) : g = .vitals := controlReply_skips debug addr budget (skips g hg)
      obtain ⟨trace, rfl, matched⟩ := (controlReply_takes debug addr budget).mp takes
      refine ⟨skipped, .controlReply rep trace, rest, same, few, fun g hg => .inl (vitals g hg),
        trace, rfl, ?_⟩
      cases matched with
      | inl traceless =>
          have none := compared traceless
          rw [echoed, same, firstAnswer_eq few vitals takes.1] at none
          exact .inl none
      | inr own => exact own
    case found =>
      intro skipped f rest rep same few skips answers
      obtain ⟨trace, rfl, own⟩ := answers
      rw [same]
      exact Question.readFrom_found few (fun g hg => .inl ((skips g hg).resolve_right id))
        ((controlReply_takes debug addr budget).mpr ⟨trace, rfl, .inr own⟩) rest

end Control

/-- Every verb's answer belongs to its question: what the verb returns is what it read,
and what it read answers it. -/
structure AnswersBelong (budget : String) (epoch container : String) (sent : Option ControlTrace)
    (reads : List Read) : Prop where
  prepare : prepareRank debug addr (.ok reads) epoch = ((preparing debug addr epoch).put reads).1 ∧
    Answering (preparing debug addr epoch) reads (stalePrepare epoch) (preparedAs epoch)
  commit : commitRank debug addr (.ok reads) epoch = ((committing debug addr epoch).put reads).1 ∧
    Answering (committing debug addr epoch) reads (staleCommit epoch)
      fun f container => f = .committed epoch container
  abort : abortRank debug addr (.ok reads) epoch = ((aborting debug addr epoch).put reads).1 ∧
    Answering (aborting debug addr epoch) reads (staleAbort epoch) fun f _ => f = .aborted epoch
  alive : rankAlive debug addr (.ok reads) container = ((asking debug addr container).put reads).1 ∧
    Answering (asking debug addr container) reads (staleLiveness container)
      fun f running => f = .rankLiveness container running
  stop : stopRank debug addr (.ok reads) container = ((stopping debug addr container).put reads).1 ∧
    Answering (stopping debug addr container) reads (staleStop container)
      fun f _ => f = .rankStopped container
  control : Answering (controlReply debug addr budget sent) reads (fun _ => False) (repliedAs sent)

/-- Whatever a peer sends back, exactly when a control request that carries no trace
meets no reply that echoes one. -/
theorem answers_belong (budget : String) (epoch container : String) (sent : Option ControlTrace)
    (reads : List Read) :
    AnswersBelong debug addr budget epoch container sent reads ↔
      (sent = none → echoed reads = none) := by
  constructor
  · intro all
    exact (controlReply_answers debug addr budget).mp all.control
  · intro compared
    constructor
    case prepare => exact ⟨answer_eq_put addr _ _ reads, preparing_answers debug addr reads epoch⟩
    case commit => exact ⟨answer_eq_put addr _ _ reads, committing_answers debug addr reads epoch⟩
    case abort => exact ⟨answer_eq_put addr _ _ reads, aborting_answers debug addr reads epoch⟩
    case alive => exact ⟨answer_eq_put addr _ _ reads, asking_answers debug addr reads container⟩
    case stop => exact ⟨answer_eq_put addr _ _ reads, stopping_answers debug addr reads container⟩
    case control => exact (controlReply_answers debug addr budget).mpr compared

end Verbs

/-- A request sent without a trace takes what another one came to. -/
theorem answers_belong_traceless :
    ¬ AnswersBelong (fun _ => "") "10.0.0.2:7777" "60s" "e1" "metrale-m" none
      [.frame (.controlReply (.status []) (some ⟨1, 2⟩))] := by
  intro belong
  obtain ⟨skipped, f, rest, same, few, skips, trace, rfl, own⟩ := belong.control.own (.status []) rfl
  rw [or_self] at own
  have first := @firstAnswer_eq skipped (.controlReply (.status []) trace) rest few
    (fun g hg => (skips g hg).resolve_right id) nofun
  rw [← same, own] at first
  cases first

end Peer
end Metralectl
