import Metralectl.Control.Launcher
import Metralectl.Rank.RankService

/-!
The rank verbs between two agents: how a machine answers them, and how the agent
that asked reads the answer. Vitals are unsolicited, so a reader skips them, a
bounded number of times. A channel that has nothing more to read times out.
-/
namespace Metralectl
namespace Peer

/-- What one agent says to another. Hellos, pairing and benchmarking frames are
all out of place where these are read. -/
inductive PeerFrame where
  | previewRank (assignment : RankAssignment)
  | rankPreviewed (command : String) (unmapped : List String)
  | rankRefused (reason : String)
  | prepare (assignment : RankAssignment) (epoch : String)
  | prepared (epoch : String) (reply : PrepareReply)
  | commit (epoch : String)
  | committed (epoch container : String)
  | abort (epoch : String)
  | aborted (epoch : String)
  | isRankAlive (container : String)
  | rankLiveness (container : String) (running : Bool)
  | stopRank (container : String)
  | rankStopped (container : String)
  | vitals
  | controlTo (node : NodeId) (req : ControlReq) (trace : Option ControlTrace)
  | control (req : ControlReq) (trace : Option ControlTrace)
  | controlReply (rep : ControlRep) (trace : Option ControlTrace)
  | other
deriving DecidableEq

/-- A machine that serves rank requests. -/
structure RankService (σ : Type) where
  render : σ → RankAssignment → Except String (String × List String)
  prepare : σ → String → RankAssignment → σ × PrepareReply
  commit : σ → String → σ × Except String String
  alive : σ → String → Except String Bool
  stop : σ → String → σ × Except String Unit
  abort : σ → String → σ

/-- One turn of `serve_frames` on a rank verb. A stop is acknowledged whatever it
came to, and a rank that cannot be asked is not alive. -/
def serveRank {σ : Type} (svc : RankService σ) (s : σ) : PeerFrame → Option (σ × PeerFrame)
  | .previewRank assignment =>
      match svc.render s assignment with
      | .ok (command, unmapped) => some (s, .rankPreviewed command unmapped)
      | .error e => some (s, .rankRefused e)
  | .prepare assignment epoch =>
      let (s, reply) := svc.prepare s epoch assignment
      some (s, .prepared epoch reply)
  | .commit epoch =>
      match svc.commit s epoch with
      | (s, .ok container) => some (s, .committed epoch container)
      | (s, .error e) => some (s, .rankRefused e)
  | .isRankAlive container =>
      some (s, .rankLiveness container ((svc.alive s container).toOption.getD false))
  | .stopRank container => some ((svc.stop s container).1, .rankStopped container)
  | .abort epoch => some (svc.abort s epoch, .aborted epoch)
  | _ => none

/-- What comes off a channel: a frame, or the end of it. -/
inductive Read where
  | frame (f : PeerFrame)
  | failed (why : String)
deriving DecidableEq

def skipBudget : Nat := 8

section Answers
variable {T : Type} (addr what : String) (want : PeerFrame → Except String (Option T))

/-- Read until a frame answers the question; `want` maps a frame to an answer, or
to none if it was not one. -/
def answerFrom : Nat → List Read → Except String T
  | 0, _ => .error s!"{addr} kept sending vitals instead of answering the {what}"
  | _ + 1, [] => .error s!"{addr} did not answer the {what} in time"
  | _ + 1, .failed why :: _ => .error why
  | n + 1, .frame f :: rest =>
      if f = .vitals then answerFrom n rest
      else
        match want f with
        | .error e => .error e
        | .ok (some v) => .ok v
        | .ok none => answerFrom n rest

def answer (channel : Except String (List Read)) : Except String T :=
  match channel with
  | .error why => .error why
  | .ok reads => answerFrom addr what want skipBudget reads

/-- Unsolicited vitals cost one read each. -/
theorem answerFrom_skips (n k : Nat) (reads : List Read) :
    answerFrom addr what want (n + k) (List.replicate k (Read.frame .vitals) ++ reads) =
      answerFrom addr what want n reads := by
  induction k with
  | zero => rfl
  | succ k ih => exact ih

/-- A frame that answers the question is found behind vitals within the budget. -/
theorem answer_found {k : Nat} {f : PeerFrame} {v : T} (within : k < skipBudget)
    (solicited : f ≠ .vitals) (answers : want f = .ok (some v)) (rest : List Read) :
    answer addr what want (.ok (List.replicate k (Read.frame .vitals) ++ Read.frame f :: rest)) = .ok v := by
  obtain ⟨n, budget⟩ : ∃ n, skipBudget = n + 1 + k := ⟨skipBudget - k - 1, by omega⟩
  simp only [answer, budget, answerFrom_skips, answerFrom, if_neg solicited, answers]

end Answers

section Verbs
variable (debug : PeerFrame → String) (addr : String) (channel : Except String (List Read))

def prepareRank (epoch : String) : Except String PrepareReply :=
  let want : PeerFrame → Except String (Option PrepareReply)
    | .prepared e reply => .ok (if e = epoch then some reply else none)
    | .rankRefused reason => .ok (some (.refused reason))
    | f => .error s!"expected a prepare result, got {debug f}"
  answer addr "prepare" want channel

def commitRank (epoch : String) : Except String String :=
  let want : PeerFrame → Except String (Option String)
    | .committed e container => .ok (if e = epoch then some container else none)
    | .rankRefused reason => .error reason
    | f => .error s!"expected a commit result, got {debug f}"
  answer addr "commit" want channel

def abortRank (epoch : String) : Except String Unit :=
  let want : PeerFrame → Except String (Option Unit)
    | .aborted e => .ok (if e = epoch then some () else none)
    | f => .error s!"expected an abort acknowledgement, got {debug f}"
  answer addr "abort" want channel

def rankAlive (container : String) : Except String Bool :=
  let want : PeerFrame → Except String (Option Bool)
    | .rankLiveness c running => .ok (if c = container then some running else none)
    | f => .error s!"expected a liveness answer, got {debug f}"
  answer addr "liveness" want channel

def stopRank (container : String) : Except String Unit :=
  let want : PeerFrame → Except String (Option Unit)
    | .rankStopped c => .ok (if c = container then some () else none)
    | f => .error s!"expected a stop acknowledgement, got {debug f}"
  answer addr "stop" want channel

/-- What the asking side reads when a machine served the request: a sample of its
vitals, if it has one, and its answer. -/
def served (sampled : Bool) (reply : PeerFrame) : Except String (List Read) :=
  .ok ((if sampled then [Read.frame .vitals] else []) ++ [Read.frame reply])

theorem answer_served {T : Type} {what : String} {want : PeerFrame → Except String (Option T)}
    {f : PeerFrame} {v : T} (sampled : Bool) (solicited : f ≠ .vitals)
    (answers : want f = .ok (some v)) : answer addr what want (served sampled f) = .ok v := by
  cases sampled with
  | false => exact answer_found addr what want (k := 0) (by decide) solicited answers []
  | true => exact answer_found addr what want (k := 1) (by decide) solicited answers []

section Served
variable {σ : Type} (svc : RankService σ) (s : σ) (sampled : Bool) (epoch container : String)

/-- A prepare carries what the machine answered; -/
theorem prepareRank_served (assignment : RankAssignment) :
    ∃ reply, serveRank svc s (.prepare assignment epoch) =
        some ((svc.prepare s epoch assignment).1, reply) ∧
      prepareRank debug addr (served sampled reply) epoch =
        .ok (svc.prepare s epoch assignment).2 := by
  refine ⟨_, rfl, ?_⟩
  apply answer_served
  · exact PeerFrame.noConfusion
  · simp only [if_true]

/-- a stop is acknowledged, whatever became of it. -/
theorem stopRank_served :
    ∃ reply, serveRank svc s (.stopRank container) = some ((svc.stop s container).1, reply) ∧
      stopRank debug addr (served sampled reply) container = .ok () := by
  refine ⟨_, rfl, ?_⟩
  apply answer_served
  · exact PeerFrame.noConfusion
  · simp only [if_true]

end Served

end Verbs
end Peer
end Metralectl
