import Metralectl.Core.Replacement
import Metralectl.Library.Interleaving

/-!
Every state of a run: what a reader of the path has seen is whole, and what a call that has returned
left. The invariants are those of the disk and its readers, and those of the calls among each other.
-/
namespace Metralectl
namespace AtomicWrite
open Directories Interleaving Runs
universe u
variable {N : Type u}

/-- The file has been seen at the path, or would be after a cut. -/
def Shown (s : Scheme N) (d : Disk N) (readers : List Reader) (i : Nat) : Prop :=
  d.May s.path (some i) ∨ ∃ sofar, Reader.reading i sofar ∈ readers

/-- Whatever is at the path is whole, is nobody's temporary file, and outlives a cut where files
are flushed first. -/
structure Fair (s : Scheme N) (was : Option Bytes) (contents : List (Option Bytes)) (d : Disk N)
    (readers : List Reader) : Prop where
  absent : d.May s.path none → was = none
  made : ∀ i, Shown s d readers i → i < d.next
  whole : ∀ i, Shown s d readers i → some (d.data i) ∈ contents
  apart : ∀ i, Shown s d readers i → ∀ pid seq, d.names (s.temp pid seq) ≠ some i
  synced : s.flushes = true → ∀ i, d.May s.path (some i) → d.flushed i = true
  reading : ∀ i sofar, Reader.reading i sofar ∈ readers → sofar <+: d.data i
  found : ∀ content, Reader.found content ∈ readers → content ∈ contents

/-- Calls hold files of their own, and those that run have numbers of their own. -/
structure Ordered (s : Scheme N) (d : Disk N) (seq : Nat → Nat) (calls : List Call) : Prop where
  holds : ∀ c ∈ calls, Holds s d c
  alone : Sole (fun c : Call => c.phase.file.isSome = true) s.tempOf calls
  numbered : ∀ c ∈ calls, c.phase.live = true → c.seq < seq c.pid
  distinct : Sole (fun c : Call => c.phase.live = true) (fun c => (c.pid, c.seq)) calls
  swept : ∀ c ∈ calls, c.phase ≠ .failed true

structure Kept (s : Scheme N) (was : Option Bytes) (w : World N) : Prop where
  fair : Fair s was (w.contents was) w.disk w.readers
  ordered : Ordered s w.disk w.seq w.calls

section Disks
variable {s : Scheme N} {was : Option Bytes} {contents more : List (Option Bytes)} {d d' : Disk N}
  {readers : List Reader} {seq : Nat → Nat} {calls : List Call} {c : Call} {p : Phase}
  {reply : Reply} {i k : Nat}

theorem Fair.mono (h : Fair s was contents d readers) (sub : contents ⊆ more) :
    Fair s was more d readers :=
  { h with
    whole := fun i shown => sub (h.whole i shown)
    found := fun content here => sub (h.found content here) }

/-- A call works on a file nobody was shown. -/
theorem Fair.went (h : Fair s was contents d readers) (went : Went s d c reply i d' p)
    (bytes : some c.bytes ∈ contents) : Fair s was contents d' readers := by
  have hidden : ∀ j, Shown s d readers j → j ≠ i := by
    rintro j shown rfl
    rcases went.file with named | new
    · exact h.apart j shown _ _ named
    · exact absurd (h.made j shown) (by omega)
  -- what is shown now was before, or is the file the call has just brought to the path
  have shown_cases : ∀ j, Shown s d' readers j → Shown s d readers j ∨
      j = i ∧ d'.names s.path = some i ∧ d'.data i = c.bytes ∧
        (s.flushes = true → d'.flushed i = true) := by
    rintro j (may | open_)
    · rcases went.brought with ⟨old, _⟩ | ⟨old, rest⟩
      · exact Or.inl (Or.inl (old _ may))
      · rcases old _ may with was | own
        · exact Or.inl (Or.inl was)
        · exact Or.inr ⟨Option.some.inj own, rest⟩
    · exact Or.inl (Or.inr open_)
  constructor
  case absent =>
    intro may
    rcases went.brought with ⟨old, _⟩ | ⟨old, _⟩
    · exact h.absent (old _ may)
    · exact (old _ may).elim h.absent nofun
  case made =>
    intro j shown
    rcases shown_cases j shown with before | ⟨rfl, named, _⟩
    · exact Nat.lt_of_lt_of_le (h.made j before) went.step.next
    · exact d'.now.made named
  case whole =>
    intro j shown
    rcases shown_cases j shown with before | ⟨rfl, _, data, _⟩
    · rw [went.step.data j (hidden j before)]
      exact h.whole j before
    · rwa [data]
  case apart =>
    intro j shown pid seq here
    rcases shown_cases j shown with before | ⟨rfl, named, _⟩
    · by_cases own : s.temp pid seq = s.tempOf c
      · rw [own] at here
        rcases went.step.named with same | some_ | none_
        · exact h.apart j before c.pid c.seq (same.symm.trans here)
        · exact hidden j before (Option.some.inj (here.symm.trans some_))
        · cases none_.symm.trans here
      · rw [went.step.others _ own (s.apart _ _)] at here
        exact h.apart j before pid seq here
    · exact s.apart pid seq (d'.now.single here named)
  case synced =>
    intro flushes j may
    rcases went.brought with ⟨old, _⟩ | ⟨old, _, _, done⟩
    · exact went.step.flushed j (hidden j (Or.inl (old _ may))) (h.synced flushes j (old _ may))
    · rcases old _ may with before | own
      · exact went.step.flushed j (hidden j (Or.inl before)) (h.synced flushes j before)
      · cases own
        exact done flushes
  case reading =>
    intro j sofar here
    rw [went.step.data j (hidden j (Or.inr ⟨sofar, here⟩))]
    exact h.reading j sofar here
  case found => exact h.found

/-- No other call has the file open that this one is opening. -/
theorem Ordered.went (h : Ordered s d seq calls) (here : calls[k]? = some c)
    (went : Went s d c reply i d' p) (clear : c.phase = .opening ∧ reply = .done →
      ∀ b ∈ calls, b.phase.file.isSome = true → s.tempOf b ≠ s.tempOf c) :
    Ordered s d' seq (calls.set k { c with phase := p }) := by
  have there := List.mem_of_getElem? here
  constructor
  case holds =>
    intro b member
    obtain ⟨j, at_⟩ := List.mem_iff_getElem?.mp member
    rw [List.getElem?_set] at at_
    split at at_
    · split at at_
      · cases at_
        exact went.holds
      · cases at_
    · next away =>
        have old := h.holds b (List.mem_of_getElem? at_)
        cases file : b.phase.file with
        | none => exact .free d' file
        | some f =>
            have named := old.named f file
            have some_ : b.phase.file.isSome = true := by rw [file]; rfl
            by_cases idle : c.phase.file = none ∧ ¬(c.phase = .opening ∧ reply = .done)
            · obtain ⟨same, new⟩ := went.quiet idle.1 idle.2
              refine old.others went.step ?_ fun g has => ?_
              · by_cases own : s.tempOf b = s.tempOf c
                · rw [own, same]
                · exact went.step.others _ own (s.apart _ _)
              · have made := d.now.made (old.named g has)
                omega
            · have other : s.tempOf b ≠ s.tempOf c := by
                by_cases opens : c.phase = .opening ∧ reply = .done
                · exact clear opens b (List.mem_of_getElem? at_) some_
                · have holding : c.phase.file.isSome = true :=
                    Option.isSome_iff_ne_none.mpr fun none_ => idle ⟨none_, opens⟩
                  exact fun same => away (h.alone.at_ here at_ holding some_ same.symm)
              refine old.others went.step (went.step.others _ other (s.apart _ _)) fun g has eq => ?_
              subst eq
              rcases went.file with mine | new
              · exact other (d.now.single (old.named g has) mine)
              · have made := d.now.made (old.named g has)
                omega
  case alone =>
    refine h.alone.set here rfl fun holding => ?_
    rcases went.opened holding with had | opens
    · exact Or.inl had
    · exact Or.inr fun b member some_ => clear opens b member some_
  case numbered =>
    intro b member running
    rcases List.mem_or_eq_of_mem_set member with old | rfl
    · exact h.numbered b old running
    · exact h.numbered c there went.live
  case distinct => exact h.distinct.set here rfl fun _ => Or.inl went.live
  case swept =>
    intro b member
    rcases List.mem_or_eq_of_mem_set member with old | rfl
    · exact h.swept b old
    · exact went.swept

/-- A process gives out each number once. -/
theorem Ordered.enter (h : Ordered s d seq calls) (pid : Nat) (bytes : Bytes) :
    Ordered s d (Function.update seq pid (seq pid + 1))
      (calls ++ [⟨pid, seq pid, bytes, s.start⟩]) := by
  have new : (⟨pid, seq pid, bytes, s.start⟩ : Call).phase.file = none ∧
      s.start ≠ .failed true := by
    unfold Scheme.start
    split <;> exact ⟨rfl, nofun⟩
  have entered {b : Call} (member : b ∈ calls ++ [⟨pid, seq pid, bytes, s.start⟩]) :
      b ∈ calls ∨ b = ⟨pid, seq pid, bytes, s.start⟩ :=
    (List.mem_append.mp member).imp id List.mem_singleton.mp
  constructor
  case holds =>
    intro b member
    rcases entered member with old | rfl
    · exact h.holds b old
    · exact .free d new.1
  case alone => exact h.alone.snoc fun holding => by simp [new.1] at holding
  case numbered =>
    intro b member running
    rcases entered member with old | rfl
    · have before := h.numbered b old running
      by_cases same : b.pid = pid
      · rw [same] at before ⊢
        rw [Function.update_self]
        omega
      · rwa [Function.update_of_ne same]
    · simp only [Function.update_self]
      omega
  case distinct =>
    refine h.distinct.snoc fun _ b member running same => ?_
    have before := h.numbered b member running
    cases b
    cases same
    exact Nat.lt_irrefl _ before
  case swept =>
    intro b member
    rcases entered member with old | rfl
    · exact h.swept b old
    · exact new.2

theorem die_bytes (c : Call) : c.die.bytes = c.bytes := by
  unfold Call.die
  split <;> rfl

theorem die_phase (c : Call) : c.die.phase.file = none ∧ c.die.phase.live = false := by
  unfold Call.die
  split
  · exact ⟨rfl, rfl⟩
  · next done => cases phase : c.phase <;> simp [phase, Phase.live, Phase.file] at done ⊢

/-- Calls that die, some or all. -/
theorem Ordered.dying (h : Ordered s d seq calls) (g : Call → Call)
    (dies : ∀ c, g c = c ∨ g c = c.die) {seq' : Nat → Nat}
    (numbered : ∀ c ∈ calls, (g c).phase.live = true → seq' c.pid = seq c.pid)
    (holds : ∀ c ∈ calls, g c = c → Holds s d' c) : Ordered s d' seq' (calls.map g) := by
  have kept (c : Call) : (g c).phase.live = true → g c = c := by
    intro running
    rcases dies c with same | died
    · exact same
    · rw [died, (die_phase c).2] at running
      cases running
  have tag (c : Call) : (g c).pid = c.pid ∧ (g c).seq = c.seq := by
    rcases dies c with same | died
    · rw [same]
      exact ⟨rfl, rfl⟩
    · rw [died]
      unfold Call.die
      split <;> exact ⟨rfl, rfl⟩
  constructor
  case holds =>
    intro b member
    obtain ⟨c, there, rfl⟩ := List.mem_map.mp member
    rcases dies c with same | died
    · rw [same]
      exact holds c there same
    · rw [died]
      exact .free d' (die_phase c).1
  case alone =>
    refine h.alone.map g (fun c holding => ?_) fun c => by rw [Scheme.tempOf, (tag c).1, (tag c).2]; rfl
    rcases dies c with same | died
    · rwa [same] at holding
    · rw [died, (die_phase c).1] at holding
      cases holding
  case numbered =>
    intro b member running
    obtain ⟨c, there, rfl⟩ := List.mem_map.mp member
    rw [(tag c).1, (tag c).2, numbered c there running]
    rw [kept c running] at running
    exact h.numbered c there running
  case distinct =>
    refine h.distinct.map g (fun c running => ?_) fun c => by rw [(tag c).1, (tag c).2]
    rwa [kept c running] at running
  case swept =>
    intro b member
    obtain ⟨c, there, rfl⟩ := List.mem_map.mp member
    rcases dies c with same | died
    · rw [same]
      exact h.swept c there
    · rw [died]
      unfold Call.die
      split
      · nofun
      · exact h.swept c there

theorem Fair.flush (h : Fair s was contents d readers) (i : Nat) :
    Fair s was contents (d.sync i) readers :=
  { h with
    synced := fun flushes j may => by
      by_cases same : j = i
      · subst same
        exact Function.update_self ..
      · exact (Function.update_of_ne same ..).trans (h.synced flushes j may) }

/-- More of what was shown is read, or somebody looks again. -/
theorem Fair.seen {readers' : List Reader} (h : Fair s was contents d readers)
    (reading : ∀ i sofar, Reader.reading i sofar ∈ readers' →
      Shown s d readers i ∧ sofar <+: d.data i)
    (found : ∀ content, Reader.found content ∈ readers' → content ∈ contents) :
    Fair s was contents d readers' := by
  have shown : ∀ j, Shown s d readers' j → Shown s d readers j := by
    rintro j (may | ⟨sofar, open_⟩)
    · exact Or.inl may
    · exact (reading j sofar open_).1
  exact { h with
          made := fun j there => h.made j (shown j there)
          whole := fun j there => h.whole j (shown j there)
          apart := fun j there => h.apart j (shown j there)
          reading := fun j sofar open_ => (reading j sofar open_).2
          found := found }

/-- The power goes where what the path may lead to is on stable storage. -/
theorem Fair.cut {junk : Nat → Bytes} (h : Fair s was contents d readers)
    (gone : d.cut k junk = some d') (safe : ∀ i, d.May s.path (some i) → d.flushed i = true) :
    Fair s was contents d' (readers.map Reader.stop) := by
  obtain ⟨listed, past, next, data, flushed⟩ := Disk.cut_some gone
  have may : ∀ e, d'.May s.path e → d.May s.path e ∧ d'.names s.path = e := by
    rintro e ⟨m, here, leads⟩
    rw [past] at here
    cases List.mem_singleton.mp here
    exact ⟨⟨_, listed, leads⟩, leads⟩
  have stopped : ∀ i sofar, Reader.reading i sofar ∉ readers.map Reader.stop := by
    intro i sofar member
    obtain ⟨r, _, stop⟩ := List.mem_map.mp member
    cases r <;> cases stop
  have shown : ∀ j, Shown s d' (readers.map Reader.stop) j →
      d.May s.path (some j) ∧ d'.names s.path = some j := by
    rintro j (now | ⟨sofar, open_⟩)
    · exact may _ now
    · exact absurd open_ (stopped j sofar)
  constructor
  case absent => exact fun now => h.absent (may _ now).1
  case made =>
    intro j there
    rw [next]
    exact (shown j there).1.made
  case whole =>
    intro j there
    obtain ⟨before, _⟩ := shown j there
    have same : d'.data j = d.data j := by rw [data]; exact if_pos (safe j before)
    rw [same]
    exact h.whole j (Or.inl before)
  case apart =>
    intro j there pid seq here
    exact s.apart pid seq (d'.now.single here (shown j there).2)
  case synced => exact fun _ j _ => by rw [flushed]
  case reading => exact fun i sofar open_ => absurd open_ (stopped i sofar)
  case found =>
    intro content member
    obtain ⟨r, there, stop⟩ := List.mem_map.mp member
    cases r <;> cases stop
    exact h.found content there

end Disks

section Steps
variable {s : Scheme N} {was : Option Bytes} {w w' : World N} {e : Event}

theorem kept_begin (s : Scheme N) (d : Disk N) :
    Kept s (d.content s.path) (World.begin s d) := by
  have may {e : Option Nat} (now : d.rest.May s.path e) : d.names s.path = e := by
    obtain ⟨m, here, leads⟩ := now
    cases List.mem_singleton.mp here
    exact leads
  have shown {j : Nat} (there : Shown s d.rest [] j) : d.names s.path = some j := by
    rcases there with now | ⟨_, open_⟩
    · exact may now
    · cases open_
  refine ⟨?_, ?_⟩
  · constructor
    case absent => exact fun now => by rw [Disk.content, may now]; rfl
    case made => exact fun j there => d.now.made (shown there)
    case whole =>
      intro j there
      refine List.mem_cons.mpr (Or.inl ?_)
      rw [Disk.content, shown there]
      rfl
    case apart => exact fun j there pid seq here => s.apart pid seq (d.now.single here (shown there))
    case synced => exact fun _ _ _ => rfl
    case reading => nofun
    case found => nofun
  · exact ⟨nofun, ⟨nofun⟩, nofun, ⟨nofun⟩, nofun⟩

theorem Kept.record (h : Kept s was w) : Kept s was (w.record s) := ⟨h.fair, h.ordered⟩

theorem contents_map (w : World N) (g : Call → Call) (same : ∀ c, (g c).bytes = c.bytes) :
    (was :: (w.calls.map g).map fun c => some c.bytes) = w.contents was := by
  rw [World.contents, List.map_map]
  congr 1
  exact List.map_congr_left fun c _ => congrArg some (same c)

theorem kept_enter (h : Kept s was w) (pid : Nat) (bytes : Bytes) :
    Kept s was
      { w with
        seq := Function.update w.seq pid (w.seq pid + 1)
        calls := w.calls ++ [⟨pid, w.seq pid, bytes, s.start⟩] } := by
  refine ⟨h.fair.mono fun content here => ?_, h.ordered.enter pid bytes⟩
  rcases List.mem_cons.mp here with first | written
  · exact List.mem_cons.mpr (Or.inl first)
  · refine List.mem_cons_of_mem _ ?_
    rw [List.map_append]
    exact List.mem_append_left _ written

theorem kept_kill (h : Kept s was w) (pid : Nat) :
    Kept s was
      { w with
        seq := Function.update w.seq pid 0
        calls := w.calls.map fun c => if c.pid = pid then c.die else c } where
  fair := by
    have same := @contents_map N was w (fun c => if c.pid = pid then c.die else c) fun c => by
      split
      · exact die_bytes c
      · rfl
    exact h.fair.mono fun _ here => by rw [World.contents, same]; exact here
  ordered := by
    refine h.ordered.dying _ (fun c => ?_) (fun c _ running => ?_) fun c there _ => h.ordered.holds c there
    · split
      · exact Or.inr rfl
      · exact Or.inl rfl
    · by_cases same : c.pid = pid
      · rw [if_pos same, (die_phase c).2] at running
        cases running
      · exact Function.update_of_ne same ..

theorem kept_flush (h : Kept s was w) (i : Nat) : Kept s was { w with disk := w.disk.sync i } where
  fair := h.fair.flush i
  ordered :=
    { h.ordered with
      holds := fun c there =>
        { h.ordered.holds c there with
          synced := fun j here done flushes => by
            by_cases same : j = i
            · subst same
              exact Function.update_self ..
            · exact (Function.update_of_ne same ..).trans
                ((h.ordered.holds c there).synced j here done flushes) } }

theorem kept_look (h : Kept s was w) :
    Kept s was { w with readers := w.readers ++ [.look w.disk s.path] } where
  fair := by
    refine h.fair.seen (fun i sofar member => ?_) fun content member => ?_
    · rcases List.mem_append.mp member with old | new
      · exact ⟨Or.inr ⟨sofar, old⟩, h.fair.reading i sofar old⟩
      · have looked := List.mem_singleton.mp new
        unfold Reader.look at looked
        split at looked
        · next named =>
            cases looked
            exact ⟨Or.inl ⟨_, List.mem_cons_self, named⟩, List.nil_prefix⟩
        · cases looked
    · rcases List.mem_append.mp member with old | new
      · exact h.fair.found content old
      · have looked := List.mem_singleton.mp new
        unfold Reader.look at looked
        split at looked
        · cases looked
        · next none_ =>
            cases looked
            refine List.mem_cons.mpr (Or.inl ?_)
            exact (h.fair.absent ⟨_, List.mem_cons_self, none_⟩).symm
  ordered := h.ordered

theorem kept_read {k n : Nat} {r : Reader} (h : Kept s was w) (here : w.readers[k]? = some r) :
    Kept s was { w with readers := w.readers.set k (r.read w.disk n) } where
  fair := by
    have there := List.mem_of_getElem? here
    refine h.fair.seen (fun i sofar member => ?_) fun content member => ?_
    · rcases List.mem_or_eq_of_mem_set member with old | new
      · exact ⟨Or.inr ⟨sofar, old⟩, h.fair.reading i sofar old⟩
      · unfold Reader.read at new
        split at new
        · next j before =>
            dsimp only at new
            split at new
            · cases new
            · cases new
              refine ⟨Or.inr ⟨before, there⟩, ?_⟩
              obtain ⟨rest, whole⟩ := h.fair.reading i before there
              rw [← whole, List.drop_left]
              exact (List.prefix_append_right_inj before).mpr (List.take_prefix n rest)
        · subst new
          exact ⟨Or.inr ⟨sofar, there⟩, h.fair.reading i sofar there⟩
    · rcases List.mem_or_eq_of_mem_set member with old | new
      · exact h.fair.found content old
      · unfold Reader.read at new
        split at new
        · next i sofar =>
            dsimp only at new
            split at new
            · next ended =>
                cases new
                -- nothing is left of what the prefix is of
                obtain ⟨rest, whole⟩ := h.fair.reading i sofar there
                rw [← whole, List.drop_left] at ended
                rw [(List.take_eq_nil_iff.mp ended.2).resolve_left ended.1, List.append_nil] at whole
                rw [whole]
                exact h.fair.whole i (Or.inr ⟨sofar, there⟩)
            · cases new
        · subst new
          exact h.fair.found content there
  ordered := h.ordered

theorem kept_cut {k : Nat} {junk : Nat → Bytes} {d : Disk N} (h : Kept s was w)
    (gone : w.disk.cut k junk = some d)
    (safe : ∀ i, w.disk.May s.path (some i) → w.disk.flushed i = true) :
    Kept s was ⟨d, fun _ => 0, w.calls.map Call.die, w.readers.map Reader.stop, w.log⟩ where
  fair := (h.fair.cut gone safe).mono fun _ here => by
    rw [World.contents, contents_map w Call.die die_bytes]
    exact here
  ordered := by
    refine h.ordered.dying _ (fun c => Or.inr rfl) (fun c _ running => ?_) fun c _ same => ?_
    · rw [(die_phase c).2] at running
      cases running
    · exact .free d (same ▸ (die_phase c).1)

/-- Two calls that run have no temporary name in common, where names are unique. -/
theorem clear_of_unique {k : Nat} {c : Call} (h : Ordered s w.disk w.seq w.calls)
    (unique : s.unique = true) (here : w.calls[k]? = some c) (opening : c.phase = .opening) :
    ∀ b ∈ w.calls, b.phase.file.isSome = true → s.tempOf b ≠ s.tempOf c := by
  intro b member some_ same
  obtain ⟨j, at_⟩ := List.mem_iff_getElem?.mp member
  obtain ⟨pids, seqs⟩ := s.distinct unique same
  have running : b.phase.live = true := by
    cases phase : b.phase <;> simp [phase, Phase.file, Phase.live] at some_ ⊢
  have one := h.distinct.at_ at_ here running (by rw [opening]; rfl) (by rw [pids, seqs])
  subst one
  cases at_.symm.trans here
  rw [opening] at some_
  cases some_

/-- The bytes are at the path, or have been. -/
def Call.placed (c : Call) : Prop := c.phase = .ok ∨ c.phase = .settling

theorem die_placed {c : Call} (h : c.die.placed) : c.placed := by
  unfold Call.die at h
  split at h
  · rcases h with ok | settling
    · cases ok
    · cases settling
  · exact h

theorem start_placed {pid seq : Nat} {bytes : Bytes} :
    ¬(⟨pid, seq, bytes, s.start⟩ : Call).placed := by
  unfold Call.placed Scheme.start
  split <;> rintro (ok | settling) <;> cases ‹_›

/-- What every state of a sheltered run is. -/
structure Settled (s : Scheme N) (was : Option Bytes) (w : World N) : Prop extends Kept s was w where
  logged : ∀ c ∈ w.calls, c.placed → some c.bytes ∈ w.log

theorem Settled.replaced (h : Settled s was w) : Replaced was w where
  found := h.fair.found
  placed c member ok := h.logged c member (Or.inl ok)
  swept c member left failed := by
    cases left with
    | false => rfl
    | true => exact absurd failed (h.ordered.swept c member)

section Names
variable [DecidableEq N]

theorem kept_resume {k : Nat} {c : Call} {reply : Reply} {d : Disk N} {p : Phase}
    (h : Kept s was w) (here : w.calls[k]? = some c)
    (safe : Sheltered s w (.resume k reply)) (resumed : s.resume w.disk c reply = some (d, p)) :
    Kept s was { w with disk := d, calls := w.calls.set k { c with phase := p } } := by
  simp only [Sheltered, sheltered, here, Bool.and_eq_true] at safe
  obtain ⟨spared, clear⟩ := safe
  have there := List.mem_of_getElem? here
  obtain ⟨i, done⟩ := went resumed (h.ordered.holds c there) spared
  have same : (was :: (w.calls.set k { c with phase := p }).map fun c => some c.bytes) =
      w.contents was := congrArg (was :: ·) (map_set_same here rfl)
  refine ⟨(h.fair.went done ?_).mono fun _ here => by rw [World.contents, same]; exact here, h.ordered.went here done ?_⟩
  · exact List.mem_cons_of_mem _ (List.mem_map.mpr ⟨c, there, rfl⟩)
  · rintro ⟨opening, replied⟩
    by_cases unique : s.unique = true
    · exact clear_of_unique h.ordered unique here opening
    · intro b member some_
      rw [opening, replied] at clear
      simp only [unique, List.all_eq_true, Bool.or_eq_true] at clear
      have apart := clear.resolve_left (by simp) b member
      simpa [some_] using apart

theorem kept_act (h : Kept s was w) (safe : Sheltered s w e) (step : w.act s e = some w') :
    Kept s was w' := by
  cases e with
  | enter pid bytes =>
      cases step
      exact kept_enter h pid bytes
  | resume k reply =>
      simp only [World.act] at step
      split at step
      · next here =>
          split at step
          · next resumed =>
              cases step
              exact kept_resume h here safe resumed
          · cases step
      · cases step
  | look =>
      cases step
      exact kept_look h
  | read k n =>
      simp only [World.act] at step
      split at step
      · next here =>
          cases step
          exact kept_read h here
      · cases step
  | kill pid =>
      cases step
      exact kept_kill h pid
  | flush i =>
      cases step
      exact kept_flush h i
  | cut k junk =>
      simp only [World.act] at step
      split at step
      · next gone =>
          cases step
          refine kept_cut h gone fun i may => ?_
          rcases Bool.or_eq_true_iff.mp safe with flushes | written
          · exact h.fair.synced flushes i may
          · obtain ⟨m, here, leads⟩ := may
            have all := List.all_eq_true.mp written m here
            rwa [leads] at all
      · cases step

/-- A call comes to the end of its rename with its bytes at the path. -/
theorem placed_act (h : Kept s was w) (safe : Sheltered s w e) (step : w.act s e = some w') :
    w'.log = w.log ∧ ∀ c ∈ w'.calls, c.placed →
      (∃ b ∈ w.calls, b.placed ∧ b.bytes = c.bytes) ∨ w'.disk.content s.path = some c.bytes := by
  cases e with
  | enter pid bytes =>
      cases step
      refine ⟨rfl, fun c member done => ?_⟩
      rcases List.mem_append.mp member with old | new
      · exact Or.inl ⟨c, old, done, rfl⟩
      · cases List.mem_singleton.mp new
        exact absurd done start_placed
  | resume k reply =>
      simp only [World.act] at step
      split at step
      · next b here =>
          split at step
          · next d p resumed =>
              cases step
              refine ⟨rfl, fun c member done => ?_⟩
              rcases List.mem_or_eq_of_mem_set member with old | rfl
              · exact Or.inl ⟨c, old, done, rfl⟩
              · have there := List.mem_of_getElem? here
                simp only [Sheltered, sheltered, here, Bool.and_eq_true] at safe
                obtain ⟨i, went⟩ := went resumed (h.ordered.holds b there) safe.1
                rcases went.brought with ⟨_, settling, ok⟩ | ⟨_, named, data, _⟩
                · refine Or.inl ⟨b, there, Or.inr (ok (done.resolve_right settling)), rfl⟩
                · refine Or.inr ?_
                  rw [Disk.content, named]
                  exact congrArg some data
          · cases step
      · cases step
  | look =>
      cases step
      exact ⟨rfl, fun c member done => Or.inl ⟨c, member, done, rfl⟩⟩
  | read k n =>
      simp only [World.act] at step
      split at step
      · cases step
        exact ⟨rfl, fun c member done => Or.inl ⟨c, member, done, rfl⟩⟩
      · cases step
  | kill pid =>
      cases step
      refine ⟨rfl, fun c member done => Or.inl ?_⟩
      obtain ⟨b, there, rfl⟩ := List.mem_map.mp member
      split at done
      · next its =>
          rw [if_pos its]
          exact ⟨b, there, die_placed done, (die_bytes b).symm⟩
      · next other =>
          rw [if_neg other]
          exact ⟨b, there, done, rfl⟩
  | flush i =>
      cases step
      exact ⟨rfl, fun c member done => Or.inl ⟨c, member, done, rfl⟩⟩
  | cut k junk =>
      simp only [World.act] at step
      split at step
      · cases step
        refine ⟨rfl, fun c member done => Or.inl ?_⟩
        obtain ⟨b, there, rfl⟩ := List.mem_map.mp member
        exact ⟨b, there, die_placed done, (die_bytes b).symm⟩
      · cases step

theorem settled_step (h : Settled s was w) (safe : Sheltered s w e) (step : w.step s e = some w') :
    Settled s was w' := by
  obtain ⟨next_, act, rfl⟩ := Option.map_eq_some_iff.mp step
  obtain ⟨log, placed⟩ := placed_act h.toKept safe act
  refine { (kept_act h.toKept safe act).record with logged := fun c member done => ?_ }
  rcases placed c member done with ⟨b, there, was_, same⟩ | now
  · rw [← same]
    refine List.mem_cons_of_mem _ ?_
    rw [log]
    exact h.logged b there was_
  · exact List.mem_cons.mpr (Or.inl now.symm)

end Names
end Steps

/-- Whatever the writers, readers, kills, errors and cuts, and in whatever order. -/
theorem atomic_replacement (f : Writer) (name : OsName) {d : Disk OsName} {events : List Event}
    {w : World OsName} (run : Run (World.step (f.scheme name)) (Sheltered (f.scheme name))
      (.begin (f.scheme name) d) events w) : Replaced (d.content (f.scheme name).path) w :=
  (run.invariant ⟨kept_begin _ d, nofun⟩ fun _ _ _ => settled_step).replaced

/-- A file with a few bytes under a name, and nothing else. -/
def oneFile (name : OsName) (bytes : Bytes) : Disk OsName where
  data := fun _ => bytes
  flushed := fun _ => true
  names := fun n => if n = name then some 0 else none
  past := []
  next := 1
  plain := by
    intro m here
    cases List.mem_singleton.mp here
    refine ⟨fun {n i} there => ?_, fun {a b i} first second => ?_⟩
    · split at there <;> cases there
      exact Nat.one_pos
    · split at first
      · next one =>
          split at second
          · next two => rw [one, two]
          · cases second
      · cases first

/-- Two private writes at a time, a reader between them, and the power goes in the end. -/
def privateWrites : List Event :=
  [.enter 7 [1, 2], .enter 7 [3], .resume 0 .done, .resume 1 .done, .resume 0 (.wrote 1),
    .resume 1 (.wrote 1), .look, .resume 0 (.wrote 1), .resume 0 .done, .resume 0 .fail,
    .resume 0 .done, .read 0 9, .read 0 9, .resume 1 .done, .resume 1 .done, .resume 1 .done,
    .resume 0 .done, .resume 1 .done, .look, .cut 1 fun _ => [], .look]

theorem atomic_replacement_private : ∃ w,
    Run (World.step (Writer.secretUnix.scheme (.text "peers.json")))
      (Sheltered (Writer.secretUnix.scheme (.text "peers.json")))
      (.begin (Writer.secretUnix.scheme (.text "peers.json")) (oneFile (.text "peers.json") [0]))
      privateWrites w ∧
    Replaced (some [0]) w := by
  have reaches : (replay (World.step (Writer.secretUnix.scheme (.text "peers.json")))
      (Sheltered (Writer.secretUnix.scheme (.text "peers.json")))
      (.begin (Writer.secretUnix.scheme (.text "peers.json")) (oneFile (.text "peers.json") [0]))
      privateWrites).isSome = true := by decide
  obtain ⟨w, reached⟩ := Option.isSome_iff_exists.mp reaches
  exact ⟨w, .of_replay reached,
    atomic_replacement .secretUnix (.text "peers.json") (.of_replay reached)⟩

/-- The second writer empties the temporary file the first one has open, and the first one renames
it with a byte of each. -/
def overlapping : List Event :=
  [.enter 1 [1, 1], .resume 0 .done, .resume 0 .done, .enter 2 [2], .resume 1 .done,
    .resume 1 .done, .resume 0 (.wrote 2), .resume 1 (.wrote 1), .resume 0 .done, .look,
    .read 0 9, .read 0 9]

/-- The disk is full once the file is made. -/
def diskFull : List Event := [.enter 7 [1], .resume 0 .done, .resume 0 .fail]

theorem replacement_torn_and_left :
    (∃ w, Run (World.step (Writer.writeAtomic.scheme (.text "state.json"))) Free
        (.begin (Writer.writeAtomic.scheme (.text "state.json")) (oneFile (.text "state.json") [0]))
        overlapping w ∧
      Reader.found (some [2, 1]) ∈ w.readers ∧ ¬Replaced (some [0]) w) ∧
    ∃ w, Run (World.step (Writer.secretUnix.scheme (.text "peers.json"))) Free
        (.begin (Writer.secretUnix.scheme (.text "peers.json")) (oneFile (.text "peers.json") [0]))
        diskFull w ∧
      (∃ c ∈ w.calls, c.phase = .failed true) ∧ ¬Replaced (some [0]) w := by
  constructor
  · have torn : (replay (World.step (Writer.writeAtomic.scheme (.text "state.json"))) Free
        (.begin (Writer.writeAtomic.scheme (.text "state.json")) (oneFile (.text "state.json") [0]))
        overlapping).any (fun w => decide (Reader.found (some [2, 1]) ∈ w.readers ∧
          some [2, 1] ∉ w.contents (some [0]))) = true := by decide
    obtain ⟨w, reached, seen⟩ := (Option.any_eq_true _ _).mp torn
    obtain ⟨found, neither⟩ := of_decide_eq_true seen
    exact ⟨w, .of_replay reached, found, fun whole => neither (whole.found _ found)⟩
  · have full : (replay (World.step (Writer.secretUnix.scheme (.text "peers.json"))) Free
        (.begin (Writer.secretUnix.scheme (.text "peers.json")) (oneFile (.text "peers.json") [0]))
        diskFull).any (fun w => decide (∃ c ∈ w.calls, c.phase = .failed true)) = true := by decide
    obtain ⟨w, reached, seen⟩ := (Option.any_eq_true _ _).mp full
    obtain ⟨c, member, left⟩ := of_decide_eq_true seen
    refine ⟨w, .of_replay reached, ⟨c, member, left⟩, fun whole => ?_⟩
    cases whole.swept c member true left

end AtomicWrite
end Metralectl
