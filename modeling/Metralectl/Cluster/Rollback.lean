import Metralectl.Cluster.Prepare
import Metralectl.Rank.LocalRank

/-!
What a refused prepare leaves behind, with the rank service of each machine. The
head releases the ranks it heard accept; a rank whose answer was lost has accepted
unheard.
-/
namespace Metralectl
namespace Prepare
open Cluster Peer Launch LocalRank

section Rollback
variable (hosts : NodeId → RankHost) (conditions : NodeId → Conditions)
  (delivery : NodeId → Delivery) (sampled : NodeId → Bool) (debug : PeerFrame → String)

/-- The rank service of every machine. -/
def services (n : NodeId) : RankService Host := service (hosts n) (conditions n)

variable (h : Head) (running : Option Running) (slot : Option Pending) (recipe : RecipeId)
  (nodes : List NodeId) (head : NodeId) (settings : Settings) (epoch : String) (w : NodeId → Host)

/-- A prepare that may not be committed leaves no reservation of its epoch. -/
def LeavesNone : Prop :=
  let o := prepareInner (services hosts conditions) delivery sampled debug h running slot recipe
    nodes head settings epoch w
  ∀ answers, o.answer = .ok (epoch, answers, false) → ∀ n, ¬ (o.world n).Holds epoch

/-- The head does not hear that a rank on another machine has accepted. -/
def Unheard (t : Target) : Prop :=
  t.addr ≠ none ∧ (∃ why, delivery t.node = .replyLost why) ∧
    Accepts (hosts t.node) (conditions t.node) (w t.node) epoch t.assignment

variable {hosts conditions delivery sampled debug epoch w}

/-- What one rank holds after it was asked, and whether the head heard it accept. -/
theorem ask_held (fresh : ∀ n, ¬ (w n).Holds epoch) (t : Target) :
    let asked := askPrepare (services hosts conditions) delivery sampled debug epoch t (w t.node)
    asked.2 ≠ .prepared → (asked.1.Holds epoch ↔ Unheard hosts conditions delivery epoch w t) := by
  intro asked refused
  have own : (prepare (hosts t.node) (conditions t.node) (w t.node) epoch t.assignment).1.Holds
      epoch ↔ Accepts (hosts t.node) (conditions t.node) (w t.node) epoch t.assignment := by
    by_cases accepts : Accepts (hosts t.node) (conditions t.node) (w t.node) epoch t.assignment
    · exact iff_of_true (prepare_accepted accepts).2 accepts
    · exact iff_of_false (fun held => fresh _ ((prepare_refused accepts).2 held)) accepts
  cases addr : t.addr with
  | none =>
      have heard : asked = prepare (hosts t.node) (conditions t.node) (w t.node) epoch
          t.assignment := by
        simp only [asked, askPrepare, addr]
        rfl
      rw [heard] at refused ⊢
      rw [Ne, prepare_iff] at refused
      exact iff_of_false (fun held => refused (own.mp held)) (fun unheard => unheard.1 addr)
  | some a =>
      have heard : asked = sendPrepare (services hosts conditions) delivery sampled debug a epoch
          t.assignment (w t.node) := by
        simp only [asked, askPrepare, addr]
      have away : t.addr ≠ none := by simp [addr]
      cases way : delivery t.node with
      | undelivered why =>
          have kept : asked.1 = w t.node := by
            rw [heard, sendPrepare_eq]
            simp only [Target.node] at way
            simp only [way, Target.node]
          rw [kept]
          refine iff_of_false (fresh _) ?_
          rintro ⟨_, ⟨_, lost⟩, _⟩
          simp only [way, reduceCtorEq] at lost
      | answered =>
          have same : asked = prepare (hosts t.node) (conditions t.node) (w t.node) epoch
              t.assignment := by
            rw [heard, sendPrepare_eq]
            simp only [Target.node] at way
            simp only [way, Target.node]
            rfl
          rw [same] at refused ⊢
          rw [Ne, prepare_iff] at refused
          refine iff_of_false (fun held => refused (own.mp held)) ?_
          exact fun unheard => refused unheard.2.2
      | replyLost why =>
          have did : asked.1 = (prepare (hosts t.node) (conditions t.node) (w t.node) epoch
              t.assignment).1 := by
            rw [heard, sendPrepare_eq]
            simp only [Target.node] at way
            simp only [way, Target.node]
            rfl
          rw [did, own]
          exact ⟨fun accepts => ⟨away, ⟨why, way⟩, accepts⟩, fun unheard => unheard.2.2⟩

variable (sampled debug) in
/-- A rank is heard to accept exactly if its gates let it and its answer arrives. -/
theorem ask_prepared (t : Target) :
    (askPrepare (services hosts conditions) delivery sampled debug epoch t (w t.node)).2 =
        .prepared ↔
      (t.addr ≠ none → delivery t.node = .answered) ∧
        Accepts (hosts t.node) (conditions t.node) (w t.node) epoch t.assignment := by
  cases addr : t.addr with
  | none =>
      simp only [askPrepare, addr, ne_eq, not_true_eq_false, false_implies, true_and]
      exact prepare_iff
  | some a =>
      simp only [askPrepare, addr, sendPrepare_eq]
      cases way : delivery t.node with
      | undelivered why =>
          simp only [Target.node] at way
          simp [way, unreachable]
      | answered =>
          simp only [Target.node] at way
          simp only [way, ne_eq, reduceCtorEq, not_false_eq_true, forall_const, true_and]
          exact prepare_iff
      | replyLost why =>
          simp only [Target.node] at way
          simp [way, unreachable]

variable (sampled debug) in
/-- An unheard acceptance is a refusal to the head. -/
theorem unheard_refused {t : Target}
    (unheard : Unheard hosts conditions delivery epoch w t) :
    (askPrepare (services hosts conditions) delivery sampled debug epoch t (w t.node)).2 ≠
      .prepared := by
  obtain ⟨away, ⟨why, way⟩, _⟩ := unheard
  rw [Ne, ask_prepared, way]
  rintro ⟨heard, _⟩
  cases heard away

/-- A refused prepare leaves no reservation exactly if no rank of it on another
machine accepts and is not heard. -/
theorem leavesNone_iff (hosts : NodeId → RankHost) (conditions : NodeId → Conditions)
    (delivery : NodeId → Delivery) (sampled : NodeId → Bool) (debug : PeerFrame → String)
    (h : Head) (running : Option Running) (slot : Option Pending) (recipe : RecipeId)
    (nodes : List NodeId) (head : NodeId) (settings : Settings) (epoch : String)
    (w : NodeId → Host) (fresh : ∀ n, ¬ (w n).Holds epoch) :
    LeavesNone hosts conditions delivery sampled debug h running slot recipe nodes head settings
        epoch w ↔
      ∀ pending, running = none → h.resolve recipe nodes head settings epoch = .ok pending →
        ∀ t ∈ pending.targets, ¬ Unheard hosts conditions delivery epoch w t := by
  constructor
  · rintro clean pending rfl resolved t ht unheard
    obtain ⟨may, told, all, left, _⟩ := prepareInner_resolved
      (services hosts conditions) delivery sampled debug slot w resolved
    have refused := unheard_refused sampled debug unheard
    have not : may = false := by
      rw [← Bool.not_eq_true]
      exact fun yes => refused (all.mp yes t ht)
    subst not
    apply clean _ told t.node
    rw [left rfl t ht, if_neg refused]
    exact (ask_held fresh t refused).mpr unheard
  · intro heard answers told n
    cases running with
    | some r => simp [prepareInner] at told
    | none =>
        cases resolved : h.resolve recipe nodes head settings epoch with
        | error e => simp [prepareInner, resolved] at told
        | ok pending =>
            obtain ⟨may, said, _, left, others⟩ := prepareInner_resolved
              (services hosts conditions) delivery sampled debug slot w resolved
            have refused : may = false := by
              rw [said] at told
              simp only [Except.ok.injEq, Prod.mk.injEq] at told
              exact told.2.2
            by_cases member : n ∈ pending.targets.map Target.node
            · obtain ⟨t, ht, rfl⟩ := List.mem_map.mp member
              rw [left refused t ht]
              by_cases ready : (askPrepare (services hosts conditions) delivery sampled debug epoch
                  t (w t.node)).2 = .prepared
              · rw [if_pos ready]
                exact abort_released _ _
              · rw [if_neg ready, ask_held fresh t ready]
                exact heard pending rfl resolved t ht
            · rw [others n member]
              exact fresh n

section Fixed

/-- A machine with one RoCE port on a shared fabric. -/
def sparkAt (id : NodeId) (name addr : String) (isLocal : Bool) : Fleet.NodeDescriptor :=
  ⟨id, name, isLocal, .paired, [⟨"enp1s0f0np0", addr, 24, .roce, some 200000, true⟩], .yes, "",
    "NVIDIA GB10", "Linux", none, [], none, none, none⟩

/-- A head with one paired peer. -/
def pairOfSparks (contentHash : String → Except String String) : Head where
  fleet :=
    ⟨sparkAt 1 "head" "10.0.0.1" true, [sparkAt 2 "peer" "10.0.0.2" false], rfl, by simp [sparkAt]⟩
  contentHash := contentHash
  recipePort _ := .ok none
  peerPort := 7443

theorem qwen_accepted : RecipeId.check "qwen3" = .ok () := by decide

def qwen : RecipeId := ⟨"qwen3", qwen_accepted⟩

def idling (_ : NodeId) : Host := ⟨none, []⟩

def answering (docker : Bool) (_ : NodeId) : Conditions :=
  ⟨0, docker, true, .ok ⟨0, "", ""⟩, .ran, .ok ⟨0, "true", ""⟩⟩

end Fixed

/-- The peer's refusal is heard, and what the head itself reserved is released. -/
theorem leavesNone_iff_answered :
    (∀ n, ¬ (idling n).Holds "e1") ∧
      LeavesNone (fun _ => Rank.spark) (fun n => answering (n ≠ 2) n) (fun _ => .answered)
        (fun _ => true) (fun _ => "frame") (pairOfSparks fun _ => .ok "f00d") none none qwen [1, 2] 1
        [] "e1" idling := by
  have fresh : ∀ n, ¬ (idling n).Holds "e1" := by
    rintro n ⟨_, held, _⟩
    cases held
  refine ⟨fresh, (leavesNone_iff _ _ _ _ _ _ _ _ _ _ _ _ _ _ fresh).mpr ?_⟩
  rintro pending _ _ t _ ⟨_, ⟨_, lost⟩, _⟩
  cases lost

/-- The peer reserves, its answer is lost, and it is never told to let go. -/
theorem not_leavesNone_lost :
    ¬ LeavesNone (fun _ => Rank.spark) (answering true)
      (fun n => if n = 2 then .replyLost "connection reset" else .answered) (fun _ => true)
      (fun _ => "frame") (pairOfSparks fun _ => .ok "f00d") none none qwen [1, 2] 1 [] "e1"
      idling := by
  intro clean
  have held := clean
    [⟨1, "head", 0, true, ""⟩, ⟨2, "peer", 1, false, "could not be reached: connection reset"⟩] rfl 2
  exact held ⟨_, rfl, rfl⟩

end Rollback
end Prepare
end Metralectl
