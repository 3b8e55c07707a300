import Metralectl.Fleet.LocalFleet
import Metralectl.Library.FirstBest

/-!
Second-hand knowledge of the fleet as the agent keeps it: by target, and under each target by
voucher. A digest takes the place of all its speaker claimed, wherever in the table that stands.
-/
namespace Metralectl
namespace Fleet
open Tables

/-- Everything currently claimed about one target. -/
abbrev ClaimsByVoucher := Table NodeId (VouchedPeer × Nat)

abbrev VouchTable := Table NodeId ClaimsByVoucher

namespace LocalFleet

/-- The rank this agent's own leg to a voucher has, and the voucher, if it can be heard and says
the target is reachable. -/
def candidate (f : LocalFleet) (claimed : NodeId × VouchedPeer) : Option (Nat × NodeId) :=
  if claimed.2.reachable then
    (f.reports.get? claimed.1).map fun report => (report.1.link.rank, claimed.1)
  else none

def outranks (a best : Nat × NodeId) : Bool := best.1 < a.1

theorem better_none (f : LocalFleet) (claimed : NodeId × VouchedPeer) :
    f.better none claimed = f.candidate claimed := by
  unfold better candidate
  cases claimed.2.reachable with
  | false => rfl
  | true => cases f.reports.get? claimed.1 <;> rfl

theorem better_some (f : LocalFleet) (best : Nat × NodeId) (claimed : NodeId × VouchedPeer) :
    f.better (some best) claimed =
      some (((f.candidate claimed).filter fun a => outranks a best).getD best) := by
  unfold better candidate
  cases claimed.2.reachable with
  | false => rfl
  | true =>
      cases f.reports.get? claimed.1 with
      | none => rfl
      | some report =>
          by_cases higher : best.1 < report.1.link.rank <;> simp [outranks, Option.filter, higher]

theorem foldl_better_some (f : LocalFleet) (claims : List (NodeId × VouchedPeer))
    (best : Nat × NodeId) :
    claims.foldl f.better (some best) =
      some (FirstBest.walk outranks best (claims.filterMap f.candidate)) := by
  induction claims generalizing best with
  | nil => rfl
  | cons claimed rest ih =>
      rw [List.foldl_cons, better_some, ih]
      cases here : f.candidate claimed with
      | none => rw [List.filterMap_cons_none here]; rfl
      | some a =>
          rw [List.filterMap_cons_some here]
          cases higher : outranks a best <;> simp [FirstBest.walk, Option.filter, higher]

theorem foldl_better (f : LocalFleet) (claims : List (NodeId × VouchedPeer)) :
    claims.foldl f.better none =
      match claims.filterMap f.candidate with
      | [] => none
      | best :: rest => some (FirstBest.walk outranks best rest) := by
  induction claims with
  | nil => rfl
  | cons claimed rest ih =>
      rw [List.foldl_cons, better_none]
      cases here : f.candidate claimed with
      | none => rw [List.filterMap_cons_none here, ih]
      | some a => rw [List.filterMap_cons_some here, foldl_better_some]

/-- A voucher that could be ridden: what it claims says the target is reachable, and this agent
has a report of it. -/
def Eligible (f : LocalFleet) (claims : NodeId → Option VouchedPeer) (rank : Nat)
    (voucher : NodeId) : Prop :=
  ∃ claim, claims voucher = some claim ∧ claim.reachable = true ∧
    ∃ report, f.reports.get? voucher = some report ∧ report.1.link.rank = rank

/-- Nobody is eligible, or `chosen` is, and every other who is has a lower rank or a greater id. -/
def Chosen (f : LocalFleet) (claims : NodeId → Option VouchedPeer) : Option NodeId → Prop
  | none => ∀ rank voucher, ¬ f.Eligible claims rank voucher
  | some chosen => ∃ best, f.Eligible claims best chosen ∧
      ∀ rank voucher, f.Eligible claims rank voucher →
        rank < best ∨ rank = best ∧ chosen ≤ voucher

theorem mem_candidates (f : LocalFleet) {cs : List (NodeId × VouchedPeer)}
    {claims : NodeId → Option VouchedPeer}
    (all : ∀ voucher claim, (voucher, claim) ∈ cs ↔ claims voucher = some claim)
    (c : Nat × NodeId) : c ∈ cs.filterMap f.candidate ↔ f.Eligible claims c.1 c.2 := by
  rw [List.mem_filterMap]
  constructor
  · rintro ⟨⟨voucher, claim⟩, member, here⟩
    unfold candidate at here
    split at here
    · next reachable =>
        obtain ⟨report, heard, rfl⟩ := Option.map_eq_some_iff.mp here
        exact ⟨claim, (all _ _).mp member, reachable, report, heard, rfl⟩
    · cases here
  · rintro ⟨claim, there, reachable, report, heard, rank⟩
    refine ⟨(c.2, claim), (all _ _).mpr there, ?_⟩
    simp [candidate, reachable, heard, rank]

theorem Chosen.unique {f : LocalFleet} {claims : NodeId → Option VouchedPeer}
    {a b : Option NodeId} (first : f.Chosen claims a) (second : f.Chosen claims b) : a = b := by
  cases a with
  | none =>
      cases b with
      | none => rfl
      | some b =>
          obtain ⟨best, eligible, _⟩ := second
          exact absurd eligible (first best b)
  | some a =>
      obtain ⟨best, eligible, above⟩ := first
      cases b with
      | none => exact absurd eligible (second best a)
      | some b =>
          obtain ⟨best', eligible', above'⟩ := second
          have lower := above best' b eligible'
          have lower' := above' best a eligible
          obtain less | ⟨rfl, id⟩ := lower
          · obtain less' | ⟨same, _⟩ := lower'
            · exact absurd less (Nat.lt_asymm less')
            · exact absurd same (Nat.ne_of_gt less)
          · obtain less' | ⟨_, id'⟩ := lower'
            · exact absurd less' (Nat.lt_irrefl _)
            · exact congrArg some (BitVec.le_antisymm id id')

theorem candidate_id {f : LocalFleet} {claimed : NodeId × VouchedPeer} {a : Nat × NodeId}
    (h : f.candidate claimed = some a) : a.2 = claimed.1 := by
  unfold candidate at h
  split at h
  · obtain ⟨report, _, rfl⟩ := Option.map_eq_some_iff.mp h
    rfl
  · cases h

/-- A lower rank, or the same one with a greater id. -/
def Below (a b : Nat × NodeId) : Prop := a.1 < b.1 ∨ a.1 = b.1 ∧ b.2 ≤ a.2

theorem Below.refl (a : Nat × NodeId) : Below a a := Or.inr ⟨rfl, BitVec.le_refl _⟩

theorem Below.trans {a b c : Nat × NodeId} (first : Below a b) (second : Below b c) :
    Below a c := by
  obtain lower | ⟨same, id⟩ := first
  · obtain lower' | ⟨same', _⟩ := second
    · exact Or.inl (Nat.lt_trans lower lower')
    · exact Or.inl (same' ▸ lower)
  · obtain lower | ⟨same', id'⟩ := second
    · exact Or.inl (same ▸ lower)
    · exact Or.inr ⟨same.trans same', BitVec.le_trans id' id⟩

theorem outranks_takes {a best : Nat × NodeId} (h : outranks a best = true) : Below best a :=
  Or.inl (of_decide_eq_true h)

theorem outranks_keeps {a best : Nat × NodeId} (first : best.2 ≤ a.2)
    (h : outranks a best = false) : Below a best := by
  have lower : a.1 ≤ best.1 := Nat.not_lt.mp (of_decide_eq_false h)
  cases Nat.lt_or_eq_of_le lower with
  | inl lower => exact Or.inl lower
  | inr same => exact Or.inr ⟨same, first⟩

/-- Whoever walks through the vouchers in the order of their ids finds the best of them. -/
theorem chosen_foldl (f : LocalFleet) {cs : List (NodeId × VouchedPeer)}
    {claims : NodeId → Option VouchedPeer}
    (all : ∀ voucher claim, (voucher, claim) ∈ cs ↔ claims voucher = some claim) :
    f.Chosen claims (((cs.insertionSort fun a b => a.1 ≤ b.1).foldl f.better none).map (·.2)) := by
  have : Std.Total fun a b : NodeId × VouchedPeer => a.1 ≤ b.1 :=
    ⟨fun a b => BitVec.le_total a.1 b.1⟩
  have : IsTrans (NodeId × VouchedPeer) fun a b => a.1 ≤ b.1 := ⟨fun _ _ _ => BitVec.le_trans⟩
  have ordered := List.pairwise_insertionSort (fun a b => a.1 ≤ b.1) cs
  have same := f.mem_candidates fun voucher claim =>
    (List.mem_insertionSort fun a b : NodeId × VouchedPeer => a.1 ≤ b.1).trans (all voucher claim)
  generalize cs.insertionSort (fun a b => a.1 ≤ b.1) = sorted at ordered same ⊢
  have ids : (sorted.filterMap f.candidate).Pairwise fun a b => a.2 ≤ b.2 := by
    refine List.Pairwise.filterMap f.candidate ?_ ordered
    intro claimed claimed' first a here b there
    rwa [candidate_id here, candidate_id there]
  rw [foldl_better]
  generalize sorted.filterMap f.candidate = candidates at ids same ⊢
  cases candidates with
  | nil => exact fun rank voucher eligible => List.not_mem_nil ((same (rank, voucher)).mpr eligible)
  | cons best rest =>
      obtain ⟨there, above⟩ :=
        FirstBest.walk_best Below.refl Below.trans outranks_keeps outranks_takes ids
      exact ⟨_, (same _).mp there, fun rank voucher eligible =>
        above (rank, voucher) ((same _).mpr eligible)⟩

end LocalFleet

namespace VouchTable

/-- What one voucher claims about one target, and when that was recorded. -/
def claimed (t : VouchTable) (target voucher : NodeId) : Option (VouchedPeer × Nat) :=
  (t.get? target).bind fun byVoucher => byVoucher.get? voucher

def retainNonEmpty (t : VouchTable) : VouchTable :=
  t.keep fun _ byVoucher => !byVoucher.entries.isEmpty

def remove (t : VouchTable) (via : NodeId) : VouchTable :=
  t.map fun byVoucher => byVoucher.erase via

/-- One entry of a digest; it says nothing if it names this agent or the speaker. -/
def write (own via : NodeId) (now : Nat) (t : VouchTable) (entry : VouchedPeer) : VouchTable :=
  if entry.node = own ∨ entry.node = via then t
  else t.insert entry.node (((t.get? entry.node).getD Table.empty).insert via (entry, now))

def recordVouches (own : NodeId) (t : VouchTable) (now : Nat) (via : NodeId)
    (digest : List VouchedPeer) : VouchTable :=
  if maxVouched < digest.length then t
  else retainNonEmpty (digest.foldl (write own via now) (t.remove via))

def clearVouches (t : VouchTable) (via : NodeId) : VouchTable :=
  (t.remove via).retainNonEmpty

def pruneVouches (t : VouchTable) (now : Nat) : VouchTable :=
  retainNonEmpty (t.map fun byVoucher => byVoucher.keep fun _ c => now - c.2 < unreachableAfter)

/-- The vouchers of one target in the order of their ids. -/
def chooseVoucher (f : LocalFleet) (t : VouchTable) (target : NodeId) : Option NodeId :=
  (t.get? target).bind fun byVoucher =>
    (((byVoucher.entries.map fun e => (e.1, e.2.1)).insertionSort fun a b => a.1 ≤ b.1).foldl
      f.better none).map (·.2)

/-- No target is left without anybody who vouches for it. -/
def Full (t : VouchTable) : Prop :=
  ∀ target byVoucher, t.get? target = some byVoucher → byVoucher.entries ≠ []

/-- What a digest says last about a node. -/
def said (digest : List VouchedPeer) (target : NodeId) : Option VouchedPeer :=
  digest.reverse.find? fun entry => entry.node = target

theorem said_append (digest : List VouchedPeer) (entry : VouchedPeer) (target : NodeId) :
    said (digest ++ [entry]) target =
      if entry.node = target then some entry else said digest target := by
  rw [said, List.reverse_append, List.reverse_singleton, List.singleton_append, List.find?_cons]
  by_cases same : entry.node = target <;> simp [same, said]

theorem said_isSome (digest : List VouchedPeer) (target : NodeId) :
    (said digest target).isSome ↔ ∃ entry ∈ digest, entry.node = target := by
  simp [said]

theorem full_retainNonEmpty (t : VouchTable) : t.retainNonEmpty.Full := by
  intro target byVoucher there
  obtain ⟨_, kept⟩ := Table.of_get?_keep there
  simpa using kept

@[simp] theorem claimed_retainNonEmpty (t : VouchTable) (target voucher : NodeId) :
    t.retainNonEmpty.claimed target voucher = t.claimed target voucher := by
  rw [claimed, retainNonEmpty, Table.get?_keep, claimed]
  cases t.get? target with
  | none => rfl
  | some byVoucher =>
      cases empty : byVoucher.entries.isEmpty with
      | false => simp [Option.filter, empty]
      | true =>
          have nothing : byVoucher.get? voucher = none := by
            rw [Table.get?, List.isEmpty_iff.mp empty, List.lookup_nil]
          simp [Option.filter, empty, nothing]

@[simp] theorem claimed_map (t : VouchTable) (g : ClaimsByVoucher → ClaimsByVoucher)
    (target voucher : NodeId) :
    claimed (t.map g) target voucher =
      (t.get? target).bind fun byVoucher => (g byVoucher).get? voucher := by
  rw [claimed, Table.get?_map]
  cases t.get? target <;> rfl

@[simp] theorem claimed_remove (t : VouchTable) (via target voucher : NodeId) :
    (t.remove via).claimed target voucher =
      if voucher = via then none else t.claimed target voucher := by
  rw [remove, claimed_map, claimed]
  by_cases same : voucher = via <;> simp [same]

theorem claimed_write (own via : NodeId) (now : Nat) (t : VouchTable) (entry : VouchedPeer)
    (target voucher : NodeId) :
    (write own via now t entry).claimed target voucher =
      if voucher = via ∧ entry.node = target ∧ target ≠ own ∧ target ≠ via then some (entry, now)
      else t.claimed target voucher := by
  unfold write
  by_cases about : entry.node = own ∨ entry.node = via
  · rw [if_pos about, if_neg]
    rintro ⟨_, rfl, notOwn, notVia⟩
    exact about.elim notOwn notVia
  · rw [if_neg about, claimed, Table.get?_insert, claimed]
    obtain ⟨notOwn, notVia⟩ := not_or.mp about
    by_cases here : target = entry.node
    · subst here
      by_cases same : voucher = via
      · simp [same, notOwn, notVia]
      · cases t.get? entry.node <;> simp [same]
    · simp [here, Ne.symm here]

/-- A digest writes under its speaker's name only, and the last entry for a node is the one that
stays. -/
theorem claimed_digest (own via : NodeId) (now : Nat) (t : VouchTable)
    (digest : List VouchedPeer) (target voucher : NodeId) :
    claimed (digest.foldl (write own via now) t) target voucher =
      if voucher = via ∧ target ≠ own ∧ target ≠ via then
        ((said digest target).map fun entry => (entry, now)).or (t.claimed target voucher)
      else t.claimed target voucher := by
  induction digest using List.reverseRecOn with
  | nil => simp [said]
  | append_singleton digest entry ih =>
      rw [List.foldl_append, List.foldl_cons, List.foldl_nil, claimed_write, ih, said_append]
      by_cases here : voucher = via ∧ target ≠ own ∧ target ≠ via
      · by_cases named : entry.node = target <;> simp [here, named]
      · rw [if_neg here, if_neg here, if_neg fun all => here ⟨all.1, all.2.2⟩]

theorem claimed_recordVouches {digest : List VouchedPeer}
    (accepted : digest.length ≤ maxVouched) (own via : NodeId) (now : Nat) (t : VouchTable)
    (target voucher : NodeId) :
    (recordVouches own t now via digest).claimed target voucher =
      if voucher = via then
        if target = own ∨ target = via then none
        else (said digest target).map fun entry => (entry, now)
      else t.claimed target voucher := by
  rw [recordVouches, if_neg (Nat.not_lt.mpr accepted), claimed_retainNonEmpty, claimed_digest,
    claimed_remove]
  by_cases same : voucher = via
  · by_cases own_ : target = own
    · simp [same, own_]
    · by_cases via_ : target = via <;> simp [same, own_, via_]
  · simp [same]

@[simp] theorem claimed_clearVouches (t : VouchTable) (via target voucher : NodeId) :
    (t.clearVouches via).claimed target voucher =
      if voucher = via then none else t.claimed target voucher := by
  rw [clearVouches, claimed_retainNonEmpty, claimed_remove]

@[simp] theorem claimed_pruneVouches (t : VouchTable) (now : Nat) (target voucher : NodeId) :
    (t.pruneVouches now).claimed target voucher =
      (t.claimed target voucher).filter fun c => now - c.2 < unreachableAfter := by
  rw [pruneVouches, claimed_retainNonEmpty, claimed_map, claimed]
  cases t.get? target with
  | none => rfl
  | some byVoucher => exact Table.get?_keep _ _ _

inductive Update where
  | recordVouches (now : Nat) (via : NodeId) (digest : List VouchedPeer)
  | clearVouches (via : NodeId)
  | pruneVouches (now : Nat)

def Update.apply (own : NodeId) (t : VouchTable) : Update → VouchTable
  | .recordVouches now via digest => t.recordVouches own now via digest
  | .clearVouches via => t.clearVouches via
  | .pruneVouches now => t.pruneVouches now

def run (own : NodeId) (t : VouchTable) (updates : List Update) : VouchTable :=
  updates.foldl (Update.apply own) t

theorem full_recordVouches {digest : List VouchedPeer} (accepted : digest.length ≤ maxVouched)
    (own via : NodeId) (now : Nat) (t : VouchTable) :
    (recordVouches own t now via digest).Full := by
  rw [recordVouches, if_neg (Nat.not_lt.mpr accepted)]
  exact full_retainNonEmpty _

/-- Only a digest that is refused leaves the table as it is. -/
theorem Full.apply {own : NodeId} {t : VouchTable} (full : t.Full) (update : Update) :
    (update.apply own t).Full := by
  cases update with
  | recordVouches now via digest =>
      by_cases oversized : maxVouched < digest.length
      · rw [Update.apply, VouchTable.recordVouches, if_pos oversized]
        exact full
      · exact full_recordVouches (Nat.not_lt.mp oversized) own via now t
  | clearVouches via => exact full_retainNonEmpty _
  | pruneVouches now => exact full_retainNonEmpty _

theorem Full.run {own : NodeId} {t : VouchTable} (full : t.Full) (updates : List Update) :
    (run own t updates).Full := by
  unfold VouchTable.run
  induction updates generalizing t with
  | nil => exact full
  | cons update rest ih => exact ih (full.apply update)

/-- What the claims on a target say, without the time of each. -/
def claims (t : VouchTable) (target voucher : NodeId) : Option VouchedPeer :=
  (t.claimed target voucher).map (·.1)

theorem chosen_chooseVoucher (f : LocalFleet) (t : VouchTable) (target : NodeId) :
    f.Chosen (t.claims target) (t.chooseVoucher f target) := by
  unfold chooseVoucher
  cases here : t.get? target with
  | none =>
      rintro rank voucher ⟨claim, there, _⟩
      simp [claims, claimed, here] at there
  | some byVoucher =>
      refine f.chosen_foldl fun voucher claim => ?_
      rw [claims, claimed, here, Option.bind_some, Option.map_eq_some_iff, List.mem_map]
      constructor
      · rintro ⟨⟨v, c⟩, member, rfl, rfl⟩
        exact ⟨c, Table.mem_entries.mp member, rfl⟩
      · rintro ⟨c, there, rfl⟩
        exact ⟨(voucher, c), Table.mem_entries.mpr there, rfl⟩

/-- A digest is all its speaker says: what it leaves out is gone, and it says nothing for anybody
else. -/
structure CompleteStatement (f : LocalFleet) (t : VouchTable) : Prop where
  written : ∀ now via digest target, digest.length ≤ maxVouched →
    (t.recordVouches f.id now via digest).claimed target via =
      if target = f.id ∨ target = via then none
      else (said digest target).map fun entry => (entry, now)
  targets : ∀ now via digest target, digest.length ≤ maxVouched →
    (((t.recordVouches f.id now via digest).claimed target via).isSome ↔
      (∃ entry ∈ digest, entry.node = target) ∧ target ≠ f.id ∧ target ≠ via)
  others : ∀ now via digest target voucher, voucher ≠ via →
    (t.recordVouches f.id now via digest).claimed target voucher = t.claimed target voucher
  oversized : ∀ now via digest, maxVouched < digest.length →
    t.recordVouches f.id now via digest = t
  full : ∀ now via digest, digest.length ≤ maxVouched →
    (t.recordVouches f.id now via digest).Full
  cleared : ∀ via, (t.clearVouches via).Full
  pruned : ∀ now, (t.pruneVouches now).Full
  kept : t.Full → ∀ updates, (run f.id t updates).Full
  chosen : ∀ target, f.Chosen (t.claims target) (t.chooseVoucher f target)

theorem completeStatement (f : LocalFleet) (t : VouchTable) : CompleteStatement f t where
  written now via digest target accepted := by
    rw [claimed_recordVouches accepted, if_pos rfl]
  targets now via digest target accepted := by
    rw [claimed_recordVouches accepted, if_pos rfl]
    by_cases dropped : target = f.id ∨ target = via
    · rw [if_pos dropped]
      exact iff_of_false nofun fun h => dropped.elim h.2.1 h.2.2
    · rw [if_neg dropped, Option.isSome_map, said_isSome]
      exact ⟨fun h => ⟨h, not_or.mp dropped⟩, fun h => h.1⟩
  others now via digest target voucher other := by
    by_cases oversized : maxVouched < digest.length
    · rw [recordVouches, if_pos oversized]
    · rw [claimed_recordVouches (Nat.not_lt.mp oversized), if_neg other]
  oversized now via digest oversized := if_pos oversized
  full now via digest accepted := full_recordVouches accepted f.id via now t
  cleared via := full_retainNonEmpty _
  pruned now := full_retainNonEmpty _
  kept := Full.run
  chosen target := t.chosen_chooseVoucher f target

/-- Whatever the table has come to, the next digest is a complete statement of its speaker. -/
theorem digest_complete (f : LocalFleet) (t : VouchTable) (updates : List Update) :
    CompleteStatement f (run f.id t updates) :=
  completeStatement f (run f.id t updates)

theorem said_filter (digest : List VouchedPeer) (p : NodeId → Bool) (target : NodeId) :
    said (digest.filter fun entry => p entry.node) target =
      if p target = true then said digest target else none := by
  induction digest using List.reverseRecOn with
  | nil => simp [said]
  | append_singleton digest entry ih =>
      rw [List.filter_append, said_append]
      by_cases same : entry.node = target
      · subst same
        cases passes : p entry.node with
        | true => simp [passes, said_append]
        | false => simp [passes, ih]
      · cases passes : p entry.node with
        | true => simp [passes, said_append, same, ih]
        | false => simp [passes, same, ih]

theorem get?_rewrite (claims : Claims) (via : NodeId) (now : Nat) (digest : List VouchedPeer)
    (target voucher : NodeId) :
    (claims.rewrite via now digest).get? (target, voucher) =
      if voucher = via then (said digest target).map fun entry => (entry, now)
      else claims.get? (target, voucher) := by
  unfold Claims.rewrite
  induction digest using List.reverseRecOn with
  | nil =>
      rw [List.foldl_nil, Table.get?_keep]
      by_cases same : voucher = via
      · cases claims.get? (target, voucher) <;> simp [said, same]
      · cases claims.get? (target, voucher) <;> simp [same]
  | append_singleton digest entry ih =>
      rw [List.foldl_append, List.foldl_cons, List.foldl_nil, Table.get?_insert, ih, said_append]
      by_cases same : voucher = via
      · by_cases named : entry.node = target
        · simp [same, named]
        · simp [same, named, Ne.symm named]
      · simp [same]

/-- The claims in one table under pairs, and in a table of tables. -/
def Agrees (claims : Claims) (t : VouchTable) : Prop :=
  ∀ target voucher, claims.get? (target, voucher) = t.claimed target voucher

section
variable {f : LocalFleet} {t : VouchTable} (agrees : Agrees f.claims t)
include agrees

theorem Agrees.recordVouches (now : Nat) (via : NodeId) (digest : List VouchedPeer) :
    Agrees (f.recordVouches now via digest).claims (t.recordVouches f.id now via digest) := by
  intro target voucher
  unfold LocalFleet.recordVouches
  by_cases oversized : maxVouched < digest.length
  · rw [if_pos oversized, VouchTable.recordVouches, if_pos oversized]
    exact agrees target voucher
  · rw [if_neg oversized, claimed_recordVouches (Nat.not_lt.mp oversized), get?_rewrite,
      agrees target voucher]
    by_cases same : voucher = via
    · rw [if_pos same, if_pos same,
        said_filter digest (fun node => decide (node ≠ f.id ∧ node ≠ via)) target]
      by_cases own : target = f.id
      · simp [own]
      · by_cases speaker : target = via <;> simp [own, speaker]
    · rw [if_neg same, if_neg same]

theorem Agrees.clearVouches (via : NodeId) :
    Agrees (f.clearVouches via).claims (t.clearVouches via) := by
  intro target voucher
  rw [claimed_clearVouches, LocalFleet.clearVouches, Table.get?_keep, agrees target voucher]
  by_cases same : voucher = via
  · cases t.claimed target voucher <;> simp [same]
  · cases t.claimed target voucher <;> simp [same]

theorem Agrees.pruneVouches (now : Nat) :
    Agrees (f.pruneVouches now).claims (t.pruneVouches now) := by
  intro target voucher
  rw [claimed_pruneVouches, LocalFleet.pruneVouches, Table.get?_keep, agrees target voucher]

/-- Both tables name the same voucher: there is only one that is chosen. -/
theorem Agrees.chooseVoucher (target : NodeId) :
    f.chooseVoucher target = t.chooseVoucher f target := by
  refine LocalFleet.Chosen.unique (f.chosen_foldl fun voucher claim => ?_)
    (t.chosen_chooseVoucher f target)
  refine (List.mem_insertionSort fun a b : NodeId × VouchedPeer => a.1 ≤ b.1).symm.trans
    (LocalFleet.mem_byVoucher.trans ?_)
  rw [agrees target voucher, claims, Option.map_eq_some_iff]
  constructor
  · rintro ⟨at_, there⟩
    exact ⟨(claim, at_), there, rfl⟩
  · rintro ⟨⟨c, at_⟩, there, rfl⟩
    exact ⟨at_, there⟩

end

end VouchTable
end Fleet
end Metralectl
