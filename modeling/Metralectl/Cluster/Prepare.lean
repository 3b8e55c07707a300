import Metralectl.Cluster.Commit
import Metralectl.Cluster.Plan
import Metralectl.Peer.RankChannel

/-!
One prepare, followed on the head and on the machine of each rank. A machine that
could not be reached and one whose answer was lost are the same to the head: a
refusal. Every abort it sends is delivered.
-/
namespace Metralectl
namespace Prepare
open Cluster Peer Launch

def unreachable (why : String) : PrepareReply := .refused s!"could not be reached: {why}"

/-- What the head reads after it has asked a peer. -/
def heard (delivery : Delivery) (sampled : Bool) (reply : PeerFrame) :
    Except String (List Read) :=
  match delivery with
  | .undelivered why => .error why
  | .answered => served sampled reply
  | .replyLost why => .ok [.failed why]

def arrives : Delivery → Bool
  | .undelivered _ => false
  | .answered | .replyLost _ => true

section Preparing
variable {σ : Type} (svc : NodeId → RankService σ) (delivery : NodeId → Delivery)
  (sampled : NodeId → Bool) (debug : PeerFrame → String)

/-- `PeerTransport::prepare`: whatever fails on the way is a refusal. -/
def sendPrepare (addr : SocketAddr) (epoch : String) (a : RankAssignment) (s : σ) :
    σ × PrepareReply :=
  match serveRank (svc a.node) s (.prepare a epoch) with
  | none => (s, unreachable "")
  | some (s', reply) =>
      let reads := heard (delivery a.node) (sampled a.node) reply
      (if arrives (delivery a.node) then s' else s,
        match prepareRank debug addr.text reads epoch with
        | .ok answer => answer
        | .error why => unreachable why)

def askPrepare (epoch : String) (t : Target) (s : σ) : σ × PrepareReply :=
  match t.addr with
  | none => (svc t.node).prepare s epoch t.assignment
  | some addr => sendPrepare svc delivery sampled debug addr epoch t.assignment s

def prepareRanks (epoch : String) (w : NodeId → σ) (accepted : List Target)
    (answers : List RankPrepare) :
    List Target → (NodeId → σ) × List Target × List RankPrepare
  | [] => (w, accepted, answers)
  | t :: rest =>
      match askPrepare svc delivery sampled debug epoch t (w t.node) with
      | (s, reply) =>
          prepareRanks epoch (Function.update w t.node s)
            (if reply = .prepared then accepted ++ [t] else accepted)
            (answers ++ [rankPrepare t reply]) rest

def rollBack (epoch : String) (w : NodeId → σ) (targets : List Target) : NodeId → σ :=
  targets.foldl
    (fun w t => Function.update w t.node ((svc t.node).abort (w t.node) epoch)) w

/-- What a prepare left, and what it told the operator. -/
structure Outcome (σ : Type) where
  world : NodeId → σ
  pending : Option Pending
  answer : Except String (String × List RankPrepare × Bool)

/-- `prepare_inner`, under the epoch it has drawn. -/
def prepareInner (h : Head) (running : Option Running) (slot : Option Pending)
    (recipe : RecipeId) (nodes : List NodeId) (head : NodeId) (settings : Settings)
    (epoch : String) (w : NodeId → σ) : Outcome σ :=
  match running with
  | some r => ⟨w, slot, .error (alreadyRunning r)⟩
  | none =>
      match h.resolve recipe nodes head settings epoch with
      | .error e => ⟨w, slot, .error e⟩
      | .ok pending =>
          let (w, accepted, answers) :=
            prepareRanks svc delivery sampled debug epoch w [] [] pending.targets
          let mayCommit := answers.all (·.prepared)
          if mayCommit then ⟨w, some pending, .ok (epoch, answers, mayCommit)⟩
          else ⟨rollBack svc epoch w accepted, slot, .ok (epoch, answers, mayCommit)⟩

variable {svc delivery sampled debug} {epoch : String}

/-- What a peer did and what the head heard of it. -/
theorem sendPrepare_eq (addr : SocketAddr) (a : RankAssignment) (s : σ) :
    sendPrepare svc delivery sampled debug addr epoch a s =
      match delivery a.node with
      | .undelivered why => (s, unreachable why)
      | .answered => (svc a.node).prepare s epoch a
      | .replyLost why => (((svc a.node).prepare s epoch a).1, unreachable why) := by
  obtain ⟨reply, did, read⟩ :=
    prepareRank_served debug addr.text (svc a.node) s (sampled a.node) epoch a
  cases way : delivery a.node with
  | undelivered why => simp only [sendPrepare, did, way]; rfl
  | answered =>
      simp only [sendPrepare, did, way, heard, read, arrives, if_true]
  | replyLost why => simp only [sendPrepare, did, way]; rfl

/-- The loop asks each machine once, in the state it was in before; by induction
over the ranks still to ask, whose machines are distinct. -/
theorem prepareRanks_spec {w w' : NodeId → σ} {accepted accepted' : List Target}
    {answers answers' : List RankPrepare} {targets : List Target}
    (distinct : (targets.map Target.node).Nodup)
    (h : prepareRanks svc delivery sampled debug epoch w accepted answers targets =
      (w', accepted', answers')) :
    accepted' = accepted ++ targets.filter (fun t =>
        (askPrepare svc delivery sampled debug epoch t (w t.node)).2 = .prepared) ∧
      answers' = answers ++ targets.map (fun t =>
        rankPrepare t (askPrepare svc delivery sampled debug epoch t (w t.node)).2) ∧
      (∀ t ∈ targets, w' t.node = (askPrepare svc delivery sampled debug epoch t (w t.node)).1) ∧
      ∀ n, n ∉ targets.map Target.node → w' n = w n := by
  induction targets generalizing w accepted answers with
  | nil =>
      cases h
      simp
  | cons t rest ih =>
      rw [List.map_cons, List.nodup_cons] at distinct
      obtain ⟨first, distinct⟩ := distinct
      cases asked : askPrepare svc delivery sampled debug epoch t (w t.node) with
      | mk s reply =>
      simp only [prepareRanks, asked] at h
      have same : ∀ u ∈ rest, Function.update w t.node s u.node = w u.node := by
        intro u hu
        apply Function.update_of_ne
        intro eq
        exact first (eq ▸ List.mem_map_of_mem hu)
      obtain ⟨kept, told, left, others⟩ := ih distinct h
      have agree : ∀ u ∈ rest, askPrepare svc delivery sampled debug epoch u
          (Function.update w t.node s u.node) =
            askPrepare svc delivery sampled debug epoch u (w u.node) := by
        intro u hu
        rw [same u hu]
      refine ⟨?_, ?_, ?_, ?_⟩
      · rw [kept, List.filter_cons, asked]
        have later : rest.filter (fun u => (askPrepare svc delivery sampled debug epoch u
            (Function.update w t.node s u.node)).2 = .prepared) = rest.filter (fun u =>
              (askPrepare svc delivery sampled debug epoch u (w u.node)).2 = .prepared) :=
          List.filter_congr fun u hu => by rw [agree u hu]
        rw [later]
        by_cases ready : reply = .prepared <;> simp [ready]
      · rw [told, List.map_cons, asked, List.append_assoc, List.singleton_append]
        congr 2
        exact List.map_congr_left fun u hu => by rw [agree u hu]
      · intro u hu
        cases hu with
        | head => rw [others _ first, Function.update_self, asked]
        | tail _ hu => rw [left u hu, agree u hu]
      · intro n away
        rw [List.map_cons, List.mem_cons, not_or] at away
        rw [others n away.2, Function.update_of_ne away.1]

variable (svc epoch) in
/-- A rollback releases exactly the machines it is sent to. -/
theorem rollBack_spec (w : NodeId → σ) {targets : List Target}
    (distinct : (targets.map Target.node).Nodup) :
    (∀ t ∈ targets, rollBack svc epoch w targets t.node =
        (svc t.node).abort (w t.node) epoch) ∧
      ∀ n, n ∉ targets.map Target.node → rollBack svc epoch w targets n = w n := by
  induction targets generalizing w with
  | nil => simp [rollBack]
  | cons t rest ih =>
      rw [List.map_cons, List.nodup_cons] at distinct
      obtain ⟨first, distinct⟩ := distinct
      obtain ⟨sent, others⟩ :=
        ih (Function.update w t.node ((svc t.node).abort (w t.node) epoch)) distinct
      constructor
      · intro u hu
        cases hu with
        | head =>
            rw [rollBack, List.foldl_cons]
            exact (others _ first).trans (Function.update_self _ _ _)
        | tail _ hu =>
            have away : u.node ≠ t.node := fun eq => first (eq ▸ List.mem_map_of_mem hu)
            rw [rollBack, List.foldl_cons]
            exact (sent u hu).trans (by rw [Function.update_of_ne away])
      · intro n away
        rw [List.map_cons, List.mem_cons, not_or] at away
        rw [rollBack, List.foldl_cons]
        exact (others n away.2).trans (Function.update_of_ne away.1 _ _)

theorem rankPrepare_prepared (t : Target) (reply : PrepareReply) :
    (rankPrepare t reply).prepared = true ↔ reply = .prepared := by
  cases reply <;> simp [rankPrepare]

variable (svc delivery sampled debug) in
/-- A prepare that got as far as asking: the ranks may be committed exactly if
each said so, and otherwise those that did are released. -/
theorem prepareInner_resolved {h : Head} (slot : Option Pending) {recipe : RecipeId}
    {nodes : List NodeId} {head : NodeId} {settings : Settings} (w : NodeId → σ)
    {pending : Pending} (resolved : h.resolve recipe nodes head settings epoch = .ok pending) :
    let asked (t : Target) := askPrepare svc delivery sampled debug epoch t (w t.node)
    let o := prepareInner svc delivery sampled debug h none slot recipe nodes head settings epoch w
    ∃ may, o.answer =
        .ok (epoch, pending.targets.map (fun t => rankPrepare t (asked t).2), may) ∧
      (may = true ↔ ∀ t ∈ pending.targets, (asked t).2 = .prepared) ∧
      (may = false → ∀ t ∈ pending.targets, o.world t.node =
        if (asked t).2 = .prepared then (svc t.node).abort (asked t).1 epoch
        else (asked t).1) ∧
      ∀ n, n ∉ pending.targets.map Target.node → o.world n = w n := by
  intro asked o
  have distinct := (Head.resolve_ok resolved).distinct
  cases loop : prepareRanks svc delivery sampled debug epoch w [] [] pending.targets with
  | mk w' rest =>
  obtain ⟨accepted, answers⟩ := rest
  obtain ⟨kept, told, left, others⟩ := prepareRanks_spec distinct loop
  rw [List.nil_append] at kept told
  have may : answers.all (·.prepared) = true ↔ ∀ t ∈ pending.targets, (asked t).2 = .prepared := by
    rw [told, List.all_map, List.all_eq_true]
    exact forall₂_congr fun t _ => rankPrepare_prepared t _
  have sub : accepted.Sublist pending.targets := kept ▸ List.filter_sublist
  obtain ⟨sent, unsent⟩ := rollBack_spec svc epoch w' (distinct.sublist (sub.map Target.node))
  have outcome : o = if answers.all (·.prepared) then
      ⟨w', some pending, .ok (epoch, answers, answers.all (·.prepared))⟩
      else ⟨rollBack svc epoch w' accepted, slot, .ok (epoch, answers,
        answers.all (·.prepared))⟩ := by
    simp only [o, prepareInner, resolved, loop]
  refine ⟨answers.all (·.prepared), ?_, may, ?_, ?_⟩
  · rw [outcome, ← told]
    split <;> rfl
  · intro refused t ht
    rw [outcome, refused]
    show rollBack svc epoch w' accepted t.node = _
    have mine : (t ∈ accepted) ↔ (asked t).2 = .prepared := by
      rw [kept, List.mem_filter, decide_eq_true_iff]
      exact and_iff_right ht
    by_cases ready : (asked t).2 = .prepared
    · rw [if_pos ready, sent t (mine.mpr ready), left t ht]
    · rw [if_neg ready, unsent, left t ht]
      intro member
      obtain ⟨u, hu, eq⟩ := List.mem_map.mp member
      have same := List.inj_on_of_nodup_map distinct (sub.subset hu) ht eq
      exact ready (mine.mp (same ▸ hu))
  · intro n away
    have unaccepted : n ∉ accepted.map Target.node :=
      fun member => away ((sub.map Target.node).subset member)
    rw [outcome]
    split
    · exact others n away
    · exact (unsent n unaccepted).trans (others n away)

end Preparing
end Prepare
end Metralectl
