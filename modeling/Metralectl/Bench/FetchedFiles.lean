import Metralectl.Bench.Fetching

/-!
What is on the disk once a job's files are fetched, whatever the node and the disk answer:
what goes wrong at an artifact, said of what is answered, and that nothing else does.
-/
namespace Metralectl
namespace Bench
namespace Fetch
open Programs

section Paths

def Os.segments (os : Os) (path : List Char) : List (List Char) := path.splitOnP os.separates

/-- It stays in whatever directory it is joined to: no segment is empty or leads out. -/
structure Plain (os : Os) (rel : String) : Prop where
  relative : os.leaves rel.toList = false
  segments : ∀ seg ∈ os.segments rel.toList, seg ≠ [] ∧ seg ≠ ['.'] ∧ seg ≠ ['.', '.']

theorem segments_eq (os : Os) {path : List Char} (h : '\\' ∉ path) :
    os.segments path = path.splitOn '/' := by
  have same : ∀ c ∈ path, os.separates c = (c == '/') := fun c member => by
    cases os with
    | unix => rfl
    | windows =>
        have other : c ≠ '\\' := fun here => h (here ▸ member)
        rw [Bool.eq_iff_iff]
        simp [Os.separates, other]
  induction path with
  | nil => rfl
  | cons c path ih =>
      rw [Os.segments, List.splitOn, List.splitOnP_cons_eq_if_modifyHead,
        List.splitOnP_cons_eq_if_modifyHead, same c List.mem_cons_self]
      rw [Os.segments, List.splitOn] at ih
      rw [ih (fun member => h (List.mem_cons_of_mem c member))
        fun c' member => same c' (List.mem_cons_of_mem c member)]

/-- What is checked keeps a path in its directory, but for a drive. -/
theorem plain_of_isPlain {os : Os} {rel : String} (h : isPlain rel = true)
    (driveless : os = .windows → onDrive rel.toList = false) : Plain os rel := by
  simp only [isPlain, Bool.and_eq_true, Bool.not_eq_true', decide_eq_true_eq, List.all_eq_true] at h
  obtain ⟨⟨rootless, slashes⟩, segments⟩ := h
  rw [List.contains_eq_mem, decide_eq_false_iff_not] at slashes
  refine ⟨?_, fun seg member => ?_⟩
  · have start : rel.toList.head?.any os.separates = false := by
      cases head : rel.toList.head? with
      | none => rfl
      | some c =>
          have front : c ≠ '/' := fun here => rootless (here ▸ head)
          have back : c ≠ '\\' := fun here => slashes (here ▸ List.mem_of_head? head)
          cases os <;> simp [Os.separates, front, back]
    cases os with
    | unix => simp [Os.leaves, start]
    | windows => simp [Os.leaves, start, driveless rfl]
  · rw [segments_eq os slashes] at member
    have here := segments seg member
    exact ⟨here.1.1, here.1.2, here.2⟩

/-- A drive replaces the directory it is to be joined to. -/
example (std : Std) (here : std.os = .windows) :
    isPlain "C:/r.json" = true ∧ std.join "out" "C:/r.json" = "C:/r.json" := by
  refine ⟨by decide +kernel, ?_⟩
  rw [Std.join, here]
  rfl

theorem destination_eq_ok {std : Std} {outDir dest : String} {info : ArtifactMeta} :
    destination std outDir info = .ok dest ↔
      info.relativePath ≠ "" ∧ isPlain info.relativePath = true ∧
        dest = std.join outDir info.relativePath := by
  simp only [destination]
  split
  · next empty => simp [empty]
  · next filled =>
      split
      · next folded =>
          rw [Bool.not_eq_true'] at folded
          simp [folded]
      · next plain =>
          rw [Bool.not_eq_true', Bool.not_eq_false] at plain
          simp [filled, plain, eq_comm]

theorem verify_eq_ok {std : Std} {info : ArtifactMeta} {data : Bytes} :
    verify std info data = .ok () ↔
      data.length = info.bytes.toNat ∧ std.sha256 data = info.sha256 := by
  simp only [verify, ne_eq, ite_not]
  split
  · next length =>
      split
      · next sha => simp [length, sha]
      · next sha => simp [sha]
  · next length => simp [length]

end Paths

section Node
variable (std : Std) (given : String) (job : JobId) (o : Outside) (addr : SocketAddr)
  (outDir : String) (info : ArtifactMeta)

/-- After so many requests and these bytes the node sends the rest of an artifact: chunk
after chunk, each where the last ended, each but the last with a byte, and no more in all
than it promised. -/
inductive Sends : Nat → Bytes → Nat → Bytes → Prop
  | last {n : Nat} {sent chunk : Bytes} {from_ : Reached} {text : String} :
      o.reply n = .ok (from_, .chunk (.ofNat sent.length) text true) →
      std.decode text = .ok chunk → (sent ++ chunk).length ≤ info.bytes.toNat →
      Sends n sent (n + 1) (sent ++ chunk)
  | more {n m : Nat} {sent chunk data : Bytes} {from_ : Reached} {text : String} :
      o.reply n = .ok (from_, .chunk (.ofNat sent.length) text false) →
      std.decode text = .ok chunk → (sent ++ chunk).length ≤ info.bytes.toNat → chunk ≠ [] →
      Sends (n + 1) (sent ++ chunk) m data → Sends n sent m data

/-- After so many requests an artifact comes as it was promised, and nothing but a file that
is there already keeps a new one from being made for it. -/
structure Opens (n m : Nat) (data : Bytes) (dest : String) : Prop where
  place : destination std outDir info = .ok dest
  granted : o.grants n info.bytes = true
  sent : Sends std o info n [] m data
  length : data.length = info.bytes.toNat
  sha256 : std.sha256 data = info.sha256
  parent : ∀ dir, std.parent dest = some dir → o.mkdir m = none
  created : o.create m = none

section Replies
variable {std o info} {n m m' : Nat} {sent data data' chunk chunk' : Bytes}
  {from_ from' : Reached} {off : UInt64} {text text' : String} {eof eof' : Bool}

/-- One request has one chunk for an answer. -/
theorem chunk_unique (reply : o.reply n = .ok (from_, .chunk off text eof))
    (decoded : std.decode text = .ok chunk) (reply' : o.reply n = .ok (from', .chunk off text' eof'))
    (decoded' : std.decode text' = .ok chunk') : eof' = eof ∧ chunk' = chunk := by
  rw [reply] at reply'
  cases reply'
  rw [decoded] at decoded'
  exact ⟨rfl, (Except.ok.inj decoded').symm⟩

/-- Nothing is sent where the answer is no chunk that goes on or ends. -/
theorem Sends.not_of_stuck
    (stuck : ∀ from_ text eof chunk, o.reply n = .ok (from_, .chunk (.ofNat sent.length) text eof) →
      std.decode text = .ok chunk → (sent ++ chunk).length ≤ info.bytes.toNat →
      eof = false ∧ chunk = []) : ¬ Sends std o info n sent m data := by
  intro sends
  cases sends with
  | last reply decoded fits => exact nomatch (stuck _ _ _ _ reply decoded fits).1
  | more reply decoded fits bytes => exact bytes (stuck _ _ _ _ reply decoded fits).2

/-- What is sent, and when it is there, is for the node to choose once. -/
theorem Sends.unique (h : Sends std o info n sent m data) (h' : Sends std o info n sent m' data') :
    m = m' ∧ data = data' := by
  induction h with
  | last reply decoded _ =>
      cases h' with
      | last reply' decoded' _ =>
          obtain ⟨-, rfl⟩ := chunk_unique reply decoded reply' decoded'
          exact ⟨rfl, rfl⟩
      | more reply' decoded' => exact nomatch (chunk_unique reply decoded reply' decoded').1
  | more reply decoded _ _ _ ih =>
      cases h' with
      | last reply' decoded' => exact nomatch (chunk_unique reply decoded reply' decoded').1
      | more reply' decoded' _ _ rest =>
          obtain ⟨-, rfl⟩ := chunk_unique reply decoded reply' decoded'
          exact ih rest

end Replies

theorem downloading_ends (data : Bytes) (s : Local) (within : data.length ≤ info.bytes.toNat) :
    ∃ loaded t, (downloading std given job addr info data).exec o.serve s = (.ok loaded, t) ∧
      t.files = s.files ∧ t.requests ≤ s.requests + (info.bytes.toNat + 1 - data.length) ∧
      ∀ m all, Sends std o info s.requests data m all ↔ loaded = .ok all ∧ t.requests = m := by
  -- On what is still to come: a chunk that is not the last has a byte.
  generalize left : info.bytes.toNat - data.length = k
  induction k using Nat.strongRecOn generalizing data s with
  | ind k ih =>
      rw [downloading]
      simp only [Prog.exec, Outside.serve]
      have once : s.requests + 1 ≤ s.requests + (info.bytes.toNat + 1 - data.length) := by omega
      have fails {e : BenchError}
          (stuck : ∀ from_ text eof chunk,
            o.reply s.requests = .ok (from_, .chunk (.ofNat data.length) text eof) →
            std.decode text = .ok chunk → (data ++ chunk).length ≤ info.bytes.toNat →
            eof = false ∧ chunk = []) (m : Nat) (all : Bytes) :
          Sends std o info s.requests data m all ↔
            (.error e : Except BenchError Bytes) = .ok all ∧ s.requests + 1 = m :=
        iff_of_false (Sends.not_of_stuck stuck) fun h => by cases h.1
      cases reply : o.reply s.requests with
      | error e =>
          exact ⟨_, _, rfl, rfl, once, fails fun _ _ _ _ h => by rw [reply] at h; cases h⟩
      | ok answer =>
          obtain ⟨from_, rep⟩ := answer
          cases rep with
          | artifacts _ | other _ =>
              exact ⟨_, _, rfl, rfl, once, fails fun _ _ _ _ h => by rw [reply] at h; cases h⟩
          | chunk gotOff text eof =>
              simp only
              split
              · next elsewhere =>
                  refine ⟨_, _, rfl, rfl, once, fails fun _ _ _ _ h => ?_⟩
                  rw [reply] at h
                  cases h
                  exact absurd rfl elsewhere
              · next here =>
                  obtain rfl := not_not.mp here
                  cases decoded : std.decode text with
                  | error e =>
                      refine ⟨_, _, rfl, rfl, once, fails fun _ _ _ _ h same => ?_⟩
                      rw [reply] at h
                      cases h
                      rw [decoded] at same
                      cases same
                  | ok chunk =>
                      simp only
                      split
                      · next past =>
                          refine ⟨_, _, rfl, rfl, once, fails fun _ _ _ _ h same fits => ?_⟩
                          rw [(chunk_unique reply decoded h same).2] at fits
                          exact absurd past (Nat.not_lt.mpr fits)
                      · next fits =>
                          rw [Nat.not_lt] at fits
                          split
                          · next ends =>
                              subst ends
                              refine ⟨_, _, rfl, rfl, once, fun m all => ⟨fun sends => ?_, ?_⟩⟩
                              · cases sends with
                                | last h same _ =>
                                    obtain ⟨-, rfl⟩ := chunk_unique reply decoded h same
                                    exact ⟨rfl, rfl⟩
                                | more h same =>
                                    cases (chunk_unique reply decoded h same).1
                              · rintro ⟨⟨⟩, rfl⟩
                                exact .last reply decoded fits
                          · next ends =>
                              rw [Bool.not_eq_true] at ends
                              subst ends
                              split
                              · next empty =>
                                  refine ⟨_, _, rfl, rfl, once, fails fun _ _ _ _ h same _ => ?_⟩
                                  obtain ⟨rfl, rfl⟩ := chunk_unique reply decoded h same
                                  exact ⟨rfl, empty⟩
                              · next more =>
                                  have grows := List.length_pos_iff.mpr more
                                  have longer : (data ++ chunk).length =
                                      data.length + chunk.length := List.length_append
                                  obtain ⟨loaded, t, run, files, asked, sends⟩ := ih
                                    (info.bytes.toNat - (data ++ chunk).length) (by omega)
                                    (data ++ chunk) { s with requests := s.requests + 1 } fits rfl
                                  refine ⟨loaded, t, run, files, by simp only at asked; omega,
                                    fun m all => .trans ⟨fun whole => ?_, ?_⟩ (sends m all)⟩
                                  · cases whole with
                                    | last h same =>
                                        cases (chunk_unique reply decoded h same).1
                                    | more h same _ _ rest =>
                                        exact (chunk_unique reply decoded h same).2 ▸ rest
                                  · exact .more reply decoded fits more

theorem download_ends (s : Local) :
    ∃ loaded t, (download std given job addr info).exec o.serve s = (loaded, t) ∧
      t.files = s.files ∧ t.requests ≤ s.requests + (info.bytes.toNat + 1) ∧
      (o.grants s.requests info.bytes = false ∧ loaded = .error .died ∨
        o.grants s.requests info.bytes = true ∧ ∃ data, loaded = .ok data ∧
          ∀ m all, Sends std o info s.requests [] m all ↔ data = .ok all ∧ t.requests = m) := by
  simp only [download, Prog.call_bind, Prog.exec, Outside.serve]
  cases o.grants s.requests info.bytes with
  | true =>
      obtain ⟨loaded, t, run, files, asked, sends⟩ :=
        downloading_ends std given job o addr info [] s (Nat.zero_le _)
      exact ⟨_, t, run, files, asked, .inr ⟨rfl, loaded, rfl, sends⟩⟩
  | false => exact ⟨_, s, rfl, rfl, Nat.le_add_right _ _, .inl ⟨rfl, rfl⟩⟩

/-- How the turn of an artifact ends, and what it wrote. -/
inductive Went (s t : Local) : Except Failure (Except BenchError Fetched) → Prop
  | refused {e : BenchError} :
      t.files = s.files →
      (∀ dest, destination std outDir info = .ok dest → o.grants s.requests info.bytes = true) →
      (∀ m data dest, Opens std o outDir info s.requests m data dest →
        s.files (o.file dest) ≠ none) → Went s t (.ok (.error e))
  | torn {e : BenchError} {m : Nat} {data part : Bytes} {dest : String} :
      Opens std o outDir info s.requests m data dest → s.files (o.file dest) = none →
      o.cuts m data ≠ none → t.files = put (o.file dest) part s.files → Went s t (.ok (.error e))
  | died {dest : String} :
      destination std outDir info = .ok dest → o.grants s.requests info.bytes = false →
      t.files = s.files → Went s t (.error .died)
  | fetched {file : Fetched} {data : Bytes} {dest : String} :
      Opens std o outDir info s.requests t.requests data dest → s.files (o.file dest) = none →
      o.cuts t.requests data = none → t.files = put (o.file dest) data s.files →
      Went s t (.ok (.ok file))

theorem put_put (file : String) (part data : Bytes) (files : String → Option Bytes) :
    put file data (put file part files) = put file data files := by
  funext f
  simp only [put]
  split <;> rfl

theorem exec_makeParent (dest : String) (s : Local) :
    ∃ r, (makeParent std dest).exec o.serve s = (.ok r, s) ∧
      (r = .ok () ↔ ∀ dir, std.parent dest = some dir → o.mkdir s.requests = none) := by
  unfold makeParent
  cases std.parent dest with
  | none => exact ⟨_, rfl, iff_of_true rfl nofun⟩
  | some dir =>
      simp only [Prog.call_bind, Prog.exec, Outside.serve]
      cases o.mkdir s.requests with
      | none => exact ⟨_, rfl, iff_of_true rfl fun _ _ => rfl⟩
      | some e => exact ⟨_, rfl, iff_of_false nofun fun h => nomatch h dir rfl⟩

theorem fetchOne_went (s : Local) :
    ∃ r t, (fetchOne std given job addr outDir info).exec o.serve s = (r, t) ∧
      t.requests ≤ s.requests + (info.bytes.toNat + 1) ∧ Went std o outDir info s t r := by
  rw [fetchOne]
  cases placed : destination std outDir info with
  | error e =>
      refine ⟨_, s, rfl, Nat.le_add_right _ _, .refused rfl (fun _ h => ?_) fun _ _ _ h => ?_⟩
      · rw [placed] at h
        cases h
      · rw [h.place] at placed
        cases placed
  | ok dest =>
      obtain ⟨_, t, run, files, asked, ⟨denied, rfl⟩ | ⟨granted, data, rfl, sends⟩⟩ :=
        download_ends std given job o addr info s
      · simp only [Prog.exec_bind, run]
        exact ⟨_, t, rfl, asked, .died placed denied files⟩
      · simp only [Prog.exec_bind, run]
        have refused {e : BenchError} {t' : Local} (same : t'.files = s.files)
            (h : ∀ all, Opens std o outDir info s.requests t.requests all dest → data = .ok all →
              s.files (o.file dest) ≠ none) : Went std o outDir info s t' (.ok (.error e)) := by
          refine .refused same (fun _ _ => granted) fun m all dest' opens => ?_
          obtain ⟨loaded, rfl⟩ := (sends m all).mp opens.sent
          obtain rfl := Except.ok.inj (placed.symm.trans opens.place)
          exact h all opens loaded
        cases data with
        | error e => exact ⟨_, t, rfl, asked, refused files fun _ _ h => nomatch h⟩
        | ok data =>
            simp only
            cases checked : verify std info data with
            | error e =>
                refine ⟨_, t, rfl, asked, refused files fun all opens h => ?_⟩
                cases h
                rw [verify_eq_ok.mpr ⟨opens.length, opens.sha256⟩] at checked
                cases checked
            | ok _ =>
                obtain ⟨length, sha256⟩ := verify_eq_ok.mp checked
                obtain ⟨parent, made, madeIff⟩ := exec_makeParent std o dest t
                simp only [Prog.exec_bind, made]
                cases parent with
                | error e =>
                    exact ⟨_, t, rfl, asked,
                      refused files fun _ opens _ => nomatch madeIff.mpr opens.parent⟩
                | ok _ =>
                    simp only [Prog.call_bind, Prog.exec, Outside.serve]
                    cases created : o.create t.requests with
                    | some e =>
                        refine ⟨_, t, rfl, asked, refused files fun _ opens _ => ?_⟩
                        rw [opens.created] at created
                        cases created
                    | none =>
                        have opens : Opens std o outDir info s.requests t.requests data dest :=
                          ⟨placed, granted, (sends _ _).mpr ⟨rfl, rfl⟩, length, sha256,
                            madeIff.mp rfl, created⟩
                        cases free : t.files (o.file dest) with
                        | some _ =>
                            refine ⟨_, t, rfl, asked, refused files fun _ _ _ => ?_⟩
                            rw [← files, free]
                            exact Option.some_ne_none _
                        | none =>
                            rw [files] at free
                            simp only [Prog.exec, Outside.serve]
                            cases cuts : o.cuts t.requests data with
                            | none =>
                                exact ⟨_, _, rfl, asked,
                                  .fetched opens free cuts (by rw [put_put, files])⟩
                            | some cut =>
                                have part : put (o.file dest) (data.take cut.1)
                                      (put (o.file dest) [] t.files) =
                                    put (o.file dest) (data.take cut.1) s.files := by
                                  rw [put_put, files]
                                refine ⟨_, _, rfl, asked, .torn opens free ?_ part⟩
                                rw [cuts]
                                exact Option.some_ne_none cut

end Node

section Whole
variable (std : Std) (given : String) (job : JobId) (o : Outside) (addr : SocketAddr)
  (outDir : String) (items : List ArtifactMeta) (first : String → Option Bytes)

/-- It is the file of a plain path after the directory. -/
def Within (file : String) : Prop :=
  ∃ rel, Plain std.os rel ∧ file = o.file (std.join outDir rel)

/-- The turn of the artifact at a place comes after so many requests: each before it comes as
it was promised and is written to a file that was not there at first. -/
inductive Reaches : Nat → Nat → Prop
  | start : Reaches 0 1
  | next {place n m : Nat} {info : ArtifactMeta} {data : Bytes} {dest : String} :
      Reaches place n → items[place]? = some info → Opens std o outDir info n m data dest →
      first (o.file dest) = none → o.cuts m data = none → Reaches (place + 1) m

/-- Nothing goes wrong at an artifact: the memory for it is granted, its file is that of no
earlier one, and where it comes as promised and there was no such file, a drive that it
names leads nowhere else and the write does not fail. -/
structure Clear (place n : Nat) (info : ArtifactMeta) : Prop where
  granted : ∀ dest, destination std outDir info = .ok dest → o.grants n info.bytes = true
  unrepeated : ∀ dest, destination std outDir info = .ok dest → ∀ earlier ∈ items.take place,
    ∀ dest', destination std outDir earlier = .ok dest' → o.file dest' ≠ o.file dest
  driveless : ∀ m data dest, Opens std o outDir info n m data dest → first (o.file dest) = none →
    std.os = .windows → onDrive info.relativePath.toList = true →
      Within std o outDir (o.file dest)
  written : ∀ m data dest, Opens std o outDir info n m data dest → first (o.file dest) = none →
    o.cuts m data = none

/-- What fetching is to leave behind: every new file lies in the directory and is one that
was promised there, no file that was there is another, and where the artifact it failed at
belongs there is none but one that was there. -/
structure Sound (files : String → Option Bytes)
    (ended : Except Failure (Reached × List Fetched)) : Prop where
  placed : ∀ file data, first file = none → files file = some data →
    Within std o outDir file ∧ ∃ info ∈ items, file = o.file (std.join outDir info.relativePath) ∧
      data.length = info.bytes.toNat ∧ std.sha256 data = info.sha256
  kept : ∀ file data, first file = some data → files file = some data
  cleared : ∀ place e, ended = .error (.failed (some place) e) →
    ∀ info, items[place]? = some info → ∀ dest, destination std outDir info = .ok dest →
      files (o.file dest) ≠ none → first (o.file dest) ≠ none

/-- The disk once the artifacts before a place are written and nothing else. -/
structure Holds (place : Nat) (files : String → Option Bytes) : Prop where
  kept : ∀ file data, first file = some data → files file = some data
  made : ∀ file data, first file = none → files file = some data →
    ∃ info ∈ items.take place, ∃ dest, destination std outDir info = .ok dest ∧
      file = o.file dest ∧ data.length = info.bytes.toNat ∧ std.sha256 data = info.sha256
  written : ∀ info ∈ items.take place, ∃ dest, destination std outDir info = .ok dest ∧
    first (o.file dest) = none ∧ files (o.file dest) ≠ none
  clear : ∀ before < place, ∀ n info, Reaches std o outDir items first before n →
    items[before]? = some info → Within std o outDir (o.file (std.join outDir info.relativePath)) →
      Clear std o outDir items first before n info

variable {std given job o addr outDir items first}

theorem Reaches.unique {place n n' : Nat} (h : Reaches std o outDir items first place n)
    (h' : Reaches std o outDir items first place n') : n = n' := by
  induction h generalizing n' with
  | start =>
      cases h'
      rfl
  | next _ here opens _ _ ih =>
      cases h' with
      | next before' here' opens' =>
          obtain rfl := ih before'
          obtain rfl := Option.some.inj (here.symm.trans here')
          exact (opens.sent.unique opens'.sent).1

/-- The turn of an artifact comes after that of any before it, which is then written. -/
theorem Reaches.before {place place' n : Nat} (h : Reaches std o outDir items first place n)
    (earlier : place' < place) :
    ∃ n' m info data dest, Reaches std o outDir items first place' n' ∧
      items[place']? = some info ∧ Opens std o outDir info n' m data dest ∧
      first (o.file dest) = none := by
  induction h with
  | start => exact absurd earlier (Nat.not_lt_zero _)
  | next before here opens free _ ih =>
      obtain sooner | rfl := Nat.lt_succ_iff_lt_or_eq.mp earlier
      · exact ih sooner
      · exact ⟨_, _, _, _, _, before, here, opens, free⟩

theorem Opens.join {info : ArtifactMeta} {n m : Nat} {data : Bytes} {dest : String}
    (h : Opens std o outDir info n m data dest) : dest = std.join outDir info.relativePath :=
  (destination_eq_ok.mp h.place).2.2

/-- Without a drive that leads elsewhere, what is checked lies in the directory. -/
theorem Clear.within {place n m : Nat} {info : ArtifactMeta} {data : Bytes} {dest : String}
    (h : Clear std o outDir items first place n info)
    (opens : Opens std o outDir info n m data dest) (free : first (o.file dest) = none) :
    Within std o outDir (o.file dest) := by
  by_cases drive : std.os = .windows ∧ onDrive info.relativePath.toList = true
  · exact h.driveless m data dest opens free drive.1 drive.2
  · obtain ⟨-, plain, rfl⟩ := destination_eq_ok.mp opens.place
    refine ⟨_, plain_of_isPlain plain fun here => ?_, rfl⟩
    exact Bool.eq_false_iff.mpr fun named => drive ⟨here, named⟩

theorem Holds.start : Holds std o outDir items first 0 first where
  kept := fun _ _ => id
  made := fun file data absent there => by rw [absent] at there; cases there
  written := nofun
  clear := nofun

theorem Holds.absent {place : Nat} {files : String → Option Bytes}
    (h : Holds std o outDir items first place files) {file : String} (free : files file = none) :
    first file = none := by
  cases there : first file with
  | none => rfl
  | some data =>
      rw [h.kept file data there] at free
      cases free

theorem Holds.add {place n m : Nat} {files : String → Option Bytes} {info : ArtifactMeta}
    {data : Bytes} {dest : String} (h : Holds std o outDir items first place files)
    (reaches : Reaches std o outDir items first place n) (here : items[place]? = some info)
    (opens : Opens std o outDir info n m data dest) (free : files (o.file dest) = none)
    (whole : o.cuts m data = none) :
    Holds std o outDir items first (place + 1) (put (o.file dest) data files) := by
  have took : items.take (place + 1) = items.take place ++ [info] := by
    rw [List.take_add_one, here, Option.toList_some]
  constructor
  · intro file old there
    have other : file ≠ o.file dest := by
      rintro rfl
      rw [h.absent free] at there
      cases there
    rw [put, if_neg other]
    exact h.kept file old there
  · intro file held absent there
    simp only [put] at there
    split at there
    · next same =>
        cases there
        exact ⟨info, by simp [took], dest, opens.place, same, opens.length, opens.sha256⟩
    · obtain ⟨info', member, was⟩ := h.made file held absent there
      exact ⟨info', by simp [took, member], was⟩
  · intro info' member
    rw [took, List.mem_append, List.mem_singleton] at member
    obtain member | rfl := member
    · obtain ⟨dest', ok, absent, there⟩ := h.written info' member
      refine ⟨dest', ok, absent, ?_⟩
      simp only [put]
      split
      · exact Option.some_ne_none _
      · exact there
    · exact ⟨dest, opens.place, h.absent free, by simp [put]⟩
  · intro before within n' info' reaches' here' inside
    obtain sooner | rfl := Nat.lt_succ_iff_lt_or_eq.mp within
    · exact h.clear before sooner n' info' reaches' here' inside
    · obtain rfl := reaches.unique reaches'
      obtain rfl := Option.some.inj (here.symm.trans here')
      refine ⟨fun _ _ => opens.granted, fun dest' placed earlier member _ was same => ?_,
        fun _ _ _ opens' _ _ _ => opens'.join ▸ inside, fun m' data' _ opens' _ => ?_⟩
      · obtain rfl := Except.ok.inj (opens.place.symm.trans placed)
        obtain ⟨_, ok, -, there⟩ := h.written earlier member
        obtain rfl := Except.ok.inj (was.symm.trans ok)
        exact there (same ▸ free)
      · obtain ⟨rfl, rfl⟩ := opens.sent.unique opens'.sent
        exact whole

variable (std o outDir items first) in
/-- How the turns of all the artifacts end, and what is written then. -/
inductive Ended (files : String → Option Bytes) : Except Failure (List Fetched) → Prop
  | fetched {n : Nat} {out : List Fetched} :
      Reaches std o outDir items first items.length n →
      Holds std o outDir items first items.length files → Ended files (.ok out)
  | refused {place n : Nat} {e : BenchError} {info : ArtifactMeta} :
      Reaches std o outDir items first place n → items[place]? = some info →
      Holds std o outDir items first place files →
      (∀ dest, destination std outDir info = .ok dest → o.grants n info.bytes = true) →
      (∀ m data dest, Opens std o outDir info n m data dest → files (o.file dest) ≠ none) →
      Ended files (.error (.failed (some place) e))
  | torn {place n m : Nat} {e : BenchError} {info : ArtifactMeta} {data : Bytes} {dest : String} :
      Reaches std o outDir items first place n → items[place]? = some info →
      Opens std o outDir info n m data dest → first (o.file dest) = none →
      o.cuts m data ≠ none → files (o.file dest) ≠ none →
      Ended files (.error (.failed (some place) e))
  | died {place n : Nat} {info : ArtifactMeta} {dest : String} :
      Reaches std o outDir items first place n → items[place]? = some info →
      destination std outDir info = .ok dest → o.grants n info.bytes = false →
      Ended files (.error .died)

variable (std given job o addr outDir) in
theorem fetchEach_ended (rest : List ArtifactMeta) {place : Nat} {s : Local}
    (left : items.drop place = rest) (bounded : place ≤ items.length)
    (reaches : Reaches std o outDir items first place s.requests)
    (h : Holds std o outDir items first place s.files) :
    ∃ r t, (fetchEach std given job addr outDir place rest).exec o.serve s = (r, t) ∧
      t.requests ≤ s.requests + (rest.map fun info => info.bytes.toNat + 1).sum ∧
      Ended std o outDir items first t.files r := by
  induction rest generalizing place s with
  | nil =>
      obtain rfl : place = items.length :=
        Nat.le_antisymm bounded (List.drop_eq_nil_iff.mp left)
      exact ⟨_, s, rfl, Nat.le_add_right _ _, .fetched reaches h⟩
  | cons info rest ih =>
      have here : items[place]? = some info := by
        rw [← List.head?_drop, left, List.head?_cons]
      have next : items.drop (place + 1) = rest := by
        rw [← List.tail_drop, left, List.tail_cons]
      have more : place + 1 ≤ items.length :=
        (List.getElem?_eq_some_iff.mp here).1
      obtain ⟨r, t, run, asked, went⟩ := fetchOne_went std given job o addr outDir info s
      simp only [fetchEach, Prog.exec_bind, run, List.map_cons, List.sum_cons]
      cases went with
      | refused files granted shut =>
          exact ⟨_, t, rfl, by omega,
            .refused reaches here (files ▸ h) granted (files ▸ shut)⟩
      | torn opens free cuts files =>
          exact ⟨_, t, rfl, by omega, .torn reaches here opens (h.absent free) cuts
            (by simp [files, put])⟩
      | died placed denied files => exact ⟨_, t, rfl, by omega, .died reaches here placed denied⟩
      | fetched opens free whole files =>
          obtain ⟨r, u, run', asked', ended⟩ := ih next more
            (.next reaches here opens (h.absent free) whole)
            (files ▸ h.add reaches here opens free whole)
          simp only [Prog.exec_bind, run']
          cases r with
          | ok out =>
              refine ⟨_, u, rfl, by omega, ?_⟩
              cases ended with
              | fetched reaches h => exact .fetched reaches h
          | error e =>
              refine ⟨_, u, rfl, by omega, ?_⟩
              cases ended with
              | refused reaches here h granted shut => exact .refused reaches here h granted shut
              | torn reaches here opens free cuts there =>
                  exact .torn reaches here opens free cuts there
              | died reaches here placed denied => exact .died reaches here placed denied

/-- The artifacts before a place lie in the directory where nothing goes wrong at them. -/
theorem Holds.placed {place n : Nat} {files : String → Option Bytes}
    (h : Holds std o outDir items first place files)
    (reaches : Reaches std o outDir items first place n)
    (clear : ∀ place n info, Reaches std o outDir items first place n →
      items[place]? = some info → Clear std o outDir items first place n info)
    {file : String} {data : Bytes} (absent : first file = none) (there : files file = some data) :
    Within std o outDir file ∧ ∃ info ∈ items, file = o.file (std.join outDir info.relativePath) ∧
      data.length = info.bytes.toNat ∧ std.sha256 data = info.sha256 := by
  obtain ⟨info, member, dest, placed, rfl, length, sha256⟩ := h.made file data absent there
  obtain ⟨-, -, rfl⟩ := destination_eq_ok.mp placed
  refine ⟨?_, info, List.mem_of_mem_take member, rfl, length, sha256⟩
  obtain ⟨before, within, rfl⟩ := List.getElem_of_mem member
  rw [List.length_take, Nat.lt_min] at within
  obtain ⟨n', m, info', data', dest', reaches', here, opens, free⟩ := reaches.before within.1
  rw [List.getElem_take] at placed absent ⊢
  obtain rfl := Option.some.inj ((List.getElem?_eq_getElem within.2).symm.trans here)
  exact opens.join ▸ (clear before n' _ reaches' here).within opens free

/-- Nothing went wrong at the artifacts before a place where what they left is sound. -/
theorem Holds.cleared {place before n : Nat} {files : String → Option Bytes} {info : ArtifactMeta}
    {ended : Except Failure (Reached × List Fetched)}
    (h : Holds std o outDir items first place files)
    (sound : Sound std o outDir items first files ended) (within : before < place)
    (reaches : Reaches std o outDir items first before n) (here : items[before]? = some info) :
    Clear std o outDir items first before n info := by
  refine h.clear before within n info reaches here ?_
  have member : info ∈ items.take place := by
    refine List.mem_of_getElem? (i := before) ?_
    rw [List.getElem?_take, if_pos within, here]
  obtain ⟨dest, placed, absent, there⟩ := h.written info member
  obtain ⟨-, -, rfl⟩ := destination_eq_ok.mp placed
  obtain ⟨data, there⟩ := Option.ne_none_iff_exists'.mp there
  exact (sound.placed _ data absent there).1

theorem Ended.sound_iff {files : String → Option Bytes} {r : Except Failure (List Fetched)}
    (reached : Reached) (h : Ended std o outDir items first files r) :
    (r.map (reached, ·) ≠ .error .died ∧
        Sound std o outDir items first files (r.map (reached, ·))) ↔
      ∀ place n info, Reaches std o outDir items first place n → items[place]? = some info →
        Clear std o outDir items first place n info := by
  cases h with
  | fetched reaches h =>
      constructor
      · intro ⟨_, sound⟩ place n info reaches' here
        exact h.cleared sound (List.getElem?_eq_some_iff.mp here).1 reaches' here
      · intro clear
        exact ⟨nofun, fun _ _ => h.placed reaches clear, h.kept, fun _ _ ended => nomatch ended⟩
  | @refused place n e info reaches here h granted shut =>
      constructor
      · intro ⟨_, sound⟩
        have closed : ∀ m data dest, Opens std o outDir info n m data dest →
            first (o.file dest) ≠ none := fun m data dest opens =>
          sound.cleared place e rfl info here dest opens.place (shut m data dest opens)
        intro place' n' info' reaches' here'
        obtain sooner | rfl | later := Nat.lt_trichotomy place' place
        · exact h.cleared sound sooner reaches' here'
        · obtain rfl := reaches.unique reaches'
          obtain rfl := Option.some.inj (here.symm.trans here')
          refine ⟨granted, fun dest placed earlier member dest' was same => ?_,
            fun m data dest opens free => absurd free (closed m data dest opens),
            fun m data dest opens free => absurd free (closed m data dest opens)⟩
          obtain ⟨_, ok, absent, there⟩ := h.written earlier member
          obtain rfl := Except.ok.inj (was.symm.trans ok)
          exact sound.cleared _ e rfl info here dest placed (same ▸ there) (same ▸ absent)
        · obtain ⟨_, m, _, data, dest, reaches'', here'', opens, free⟩ := reaches'.before later
          obtain rfl := reaches.unique reaches''
          obtain rfl := Option.some.inj (here.symm.trans here'')
          exact absurd free (closed m data dest opens)
      · intro clear
        refine ⟨nofun, fun _ _ => h.placed reaches clear, h.kept, ?_⟩
        rintro _ _ ⟨⟩ info' here' dest placed there absent
        obtain rfl := Option.some.inj (here.symm.trans here')
        obtain ⟨data, there⟩ := Option.ne_none_iff_exists'.mp there
        obtain ⟨earlier, member, dest', was, same, -⟩ := h.made _ data absent there
        exact (clear place n info reaches here).unrepeated dest placed earlier member dest' was
          same.symm
  | torn reaches here opens free cuts there =>
      refine iff_of_false (fun h => ?_) fun clear => ?_
      · exact h.2.cleared _ _ rfl _ here _ opens.place there free
      · exact cuts ((clear _ _ _ reaches here).written _ _ _ opens free)
  | died reaches here placed denied =>
      refine iff_of_false (fun h => h.1 rfl) fun clear => ?_
      rw [(clear _ _ _ reaches here).granted _ placed] at denied
      cases denied

/-- The artifacts the node lists. -/
def Outside.listed (o : Outside) : List ArtifactMeta :=
  match o.reply 0 with
  | .ok (_, .artifacts items) => items
  | _ => []

end Whole

/-- However the node, the memory and the disk answer, no more requests are made than one for
each byte promised and one for each artifact; and the call returns and leaves only what is
sound behind exactly where nothing goes wrong at any artifact whose turn comes. -/
theorem fetched_safely_iff (std : Std) (given : String) (job : JobId) (o : Outside)
    (addrs : List SocketAddr) (outDir : String) (first : String → Option Bytes) :
    let run := (fetchAll std given job addrs outDir).exec o.serve ⟨first, 0⟩
    run.2.requests ≤ 1 + (o.listed.map fun info => info.bytes.toNat + 1).sum ∧
      ((run.1 ≠ .error .died ∧ Sound std o outDir o.listed first run.2.files run.1) ↔
        ∀ place n info, Reaches std o outDir o.listed first place n →
          o.listed[place]? = some info → Clear std o outDir o.listed first place n info) := by
  have nothing {ended : Except Failure (Reached × List Fetched)} {e : BenchError}
      (h : ended = .error (.failed none e)) :
      (ended ≠ .error .died ∧ Sound std o outDir [] first first ended) ↔
        ∀ place n info, Reaches std o outDir [] first place n →
          ([] : List ArtifactMeta)[place]? = some info →
            Clear std o outDir [] first place n info := by
    subst h
    refine iff_of_true ⟨nofun, fun file data absent there => ?_, fun _ _ => id, ?_⟩ ?_
    · rw [absent] at there
      cases there
    · rintro _ _ ⟨⟩
    · intro _ _ _ _ here
      rw [List.getElem?_nil] at here
      cases here
  simp only [fetchAll, Prog.call_bind, Prog.exec, Outside.serve, Outside.listed]
  cases o.reply 0 with
  | error e => exact ⟨Nat.le_add_right _ _, nothing rfl⟩
  | ok answer =>
      obtain ⟨reached, rep⟩ := answer
      cases rep with
      | chunk _ _ _ | other _ => exact ⟨Nat.le_add_right _ _, nothing rfl⟩
      | artifacts items =>
          obtain ⟨r, t, run, asked, ended⟩ := fetchEach_ended std given job o reached.addr outDir
            (s := ⟨first, 0 + 1⟩) items rfl (Nat.zero_le _) .start .start
          simp only [Prog.exec_bind, run]
          cases r with
          | ok files => exact ⟨asked, ended.sound_iff reached⟩
          | error e => exact ⟨asked, ended.sound_iff reached⟩

section Sample

/-- A record of two bytes. -/
def offered (bytes : UInt64) : ArtifactMeta where
  name := "r.json"
  relativePath := ".benchmarks/r.json"
  bytes := bytes
  sha256 := "8f434346648f6b96df89dda901c5176b10a6d83961dd3c1ac88b59b2dc327aa4"
  kind := .record

def sampleStd : Std where
  os := .unix
  sha256 _ := (offered 2).sha256
  decode text := if text = "aGk=" then .ok [0x68, 0x69] else .error "Invalid symbol"
  quote text := text
  shown _ := ""
  verbatim _ := none
  parent path := if path = "out/.benchmarks/r.json" then some "out/.benchmarks" else none

/-- A node with the record, and a disk with room for one byte. -/
def full (node : NodeId) (bytes : UInt64) : Outside where
  reply turn :=
    .ok (⟨node, "10.0.0.2:7000"⟩,
      if turn = 0 then .artifacts [offered bytes] else .chunk 0 "aGk=" true)
  memory _ := true
  mkdir _ := none
  create _ := none
  cut _ := some (1, "No space left on device (os error 28)")
  file path := path

def sampleJob : JobId := ⟨"jb-1-0", by decide⟩

theorem offered_place : destination sampleStd "out" (offered 2) = .ok "out/.benchmarks/r.json" := by
  decide +kernel

/-- The record arrives, and its file is left with one byte. -/
theorem offered_cut : ∃ t,
    (fetchOne sampleStd "box" sampleJob "10.0.0.2:7000" "out" (offered 2)).exec
      (full 1 2).serve ⟨fun _ => none, 1⟩ = (.ok (.error (.io
        "writing out/.benchmarks/r.json: No space left on device (os error 28)")), t) ∧
      t.files "out/.benchmarks/r.json" = some [0x68] := by
  simp only [fetchOne, download]
  rw [downloading]
  exact ⟨_, Prod.ext (by decide +kernel) rfl, by decide +kernel⟩

theorem half_written :
    let run := (fetchAll sampleStd "box" sampleJob ["10.0.0.2:7000"] "out").exec
      (full 1 2).serve ⟨fun _ => none, 0⟩
    run.1 = .error (.failed (some 0) (.io
        "writing out/.benchmarks/r.json: No space left on device (os error 28)")) ∧
      run.2.files "out/.benchmarks/r.json" = some [0x68] ∧
      ¬Sound sampleStd (full 1 2) "out" (full 1 2).listed (fun _ => none) run.2.files run.1 := by
  obtain ⟨t, one, part⟩ := offered_cut
  have run : (fetchAll sampleStd "box" sampleJob ["10.0.0.2:7000"] "out").exec
      (full 1 2).serve ⟨fun _ => none, 0⟩ = (.error (.failed (some 0) (.io
        "writing out/.benchmarks/r.json: No space left on device (os error 28)")), t) := by
    change (fetchEach sampleStd "box" sampleJob "10.0.0.2:7000" "out" 0 [offered 2] >>= _).exec _
      (Local.mk (fun _ => none) 1) = _
    simp only [fetchEach, Prog.exec_bind, one]
    rfl
  simp only [run]
  refine ⟨trivial, part, fun sound => ?_⟩
  exact sound.cleared 0 _ rfl (offered 2) rfl _ offered_place
    (by change t.files "out/.benchmarks/r.json" ≠ none; rw [part]; exact Option.some_ne_none _) rfl

/-- A promise no memory can hold. -/
example : ((fetchAll sampleStd "box" sampleJob ["10.0.0.2:7000"] "out").exec
    (full 1 (2 ^ 64 - 1)).serve ⟨fun _ => none, 0⟩).1 = .error .died := by
  decide +kernel

end Sample

end Fetch
end Bench
end Metralectl
