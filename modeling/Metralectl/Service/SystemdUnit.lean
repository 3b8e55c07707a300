import Metralectl.Library.ExecLine
import Metralectl.Service.WindowsTask

/-!
The unit that starts the agent under systemd: its arguments are quoted where they would be cut,
and what else systemd reads in them is left as it is.
-/
namespace Metralectl
namespace Service
open ExecLine
open Shell (Text spaced)

/-- How the agent is started when the service brings it up. Its binary is named by its place. -/
structure AgentInvocation where
  exe : Argument
  absolute : Absolute exe.text
  port : UInt16
  client : Bool
  discovery : Bool
  browser : Bool
  configDir : Option Argument
  logFile : Option Argument
  benchNode : Bool
  binarySha256 : Text

/-- The argv the supervisor will execute. -/
def AgentInvocation.argv (agent : AgentInvocation) : List Text :=
  [agent.exe.text] ++
    (match agent.configDir with
      | some dir => ["--config-dir".toList, dir.text]
      | none => []) ++
    ["agent".toList, "run".toList, "--port".toList, (toString agent.port.toNat).toList] ++
    (if agent.client then ["--client".toList] else []) ++
    (if !agent.discovery then ["--no-discovery".toList] else []) ++
    (if !agent.browser then ["--no-browser".toList] else []) ++
    (match agent.logFile with
      | some log => ["--log-file".toList, log.text]
      | none => [])

def needsQuotes (a : Text) : Bool :=
  a = [] || a.any fun c => isWhitespace c || c = '"' || c = '\\'

def shellWord (a : Text) : Text :=
  if needsQuotes a then
    '"' :: replaceChar '"' "\\\"".toList (replaceChar '\\' "\\\\".toList a) ++ ['"']
  else a

/-- Quote an argv for a systemd `ExecStart=` line. -/
def shellWords (argv : List Text) : Text := spaced (argv.map shellWord)

def unitComment : List Text :=
  ["# Written by `metralectl agent install`. Edits here are NOT kept:".toList,
    "# reinstalling overwrites this file. Put local changes in a drop-in".toList,
    "# under metralectl-agent.service.d/ instead.".toList]

def unitHeader : List Text :=
  ["[Unit]".toList,
    "Description=Metrale Engine agent — the local control plane the website talks to".toList,
    "Documentation=https://metrale.ai/control".toList,
    "After=network-online.target".toList,
    "Wants=network-online.target".toList,
    [],
    "[Service]".toList,
    "Type=simple".toList]

def unitTail (benchNode : Bool) : List Text :=
  ["Restart=on-failure".toList, "RestartSec=5".toList] ++
  (if benchNode then
    ["# No MemoryMax: bench.yaml was present at install, and a bench job's".toList,
      "# build and engine run in this unit's cgroup as the agent's children.".toList]
  else ["MemoryMax=256M".toList]) ++
  ["# The agent re-adopts containers it already started, so a restart does".toList,
    "# not orphan a running model.".toList,
    "KillMode=mixed".toList,
    [],
    "[Install]".toList,
    "WantedBy=default.target".toList,
    []]

/-- The comment that names the binary the unit was written for. -/
def unitMarker (binarySha256 : Text) : Text :=
  "# metralectl binary sha256: ".toList ++ replaceChar '\n' [' '] binarySha256

def unitLines (agent : AgentInvocation) : List Text :=
  unitComment ++ unitMarker agent.binarySha256 :: unitHeader ++
    ("ExecStart=".toList ++ shellWords agent.argv) :: unitTail agent.benchNode

def unitBody (agent : AgentInvocation) : Text := ['\n'].intercalate (unitLines agent)

/-- The lines of a unit file that say what to execute. -/
def execStart (body : Text) : List Text :=
  ((body.splitOn '\n').filter "ExecStart=".toList.isPrefixOf).map (·.drop "ExecStart=".length)

section Words
variable {letters : Char → Bool} {m : Meaning} {a text : Text} {w : Word} {done : List Word}

/-- What systemd leaves as it is: without quotes around it, no quote and no semicolon alone; and
nothing that stands for something else, with them or without. -/
structure Survives (letters : Char → Bool) (a : Text) : Prop where
  bare : needsQuotes a = false → '\'' ∉ a ∧ a ≠ [';']
  literal : Literal letters a

/-- What one character is within the quotes. -/
def quotedChar (c : Char) : Text := if c = '\\' then ['\\', '\\'] else if c = '"' then ['\\', '"'] else [c]

theorem shellWord_quoted (quotes : needsQuotes a = true) :
    shellWord a = '"' :: a.flatMap quotedChar ++ ['"'] := by
  rw [shellWord, if_pos quotes, replaceChar, replaceChar, List.flatMap_assoc]
  congr 2
  congr 1
  funext c
  unfold quotedChar
  by_cases backslash : c = '\\'
  · subst backslash
    decide
  · rw [if_neg backslash, if_neg backslash]
    by_cases quote : c = '"'
    · subst quote
      decide
    · simp [quote]

theorem read_quotedChar (c : Char) :
    (⟨done, some w, some '"', none⟩ : Reader).read (quotedChar c) =
      some ⟨done, some ⟨w.raw ++ quotedChar c, w.text ++ [c]⟩, some '"', none⟩ := by
  -- what two characters put, one after the other
  have both {e : Char} (read : (⟨done, some w, some '"', none⟩ : Reader).read ['\\', e] =
      some ⟨done, some ⟨w.raw ++ ['\\'] ++ [e], w.text ++ [] ++ [e]⟩, some '"', none⟩) :
      (⟨done, some w, some '"', none⟩ : Reader).read ['\\', e] =
        some ⟨done, some ⟨w.raw ++ ['\\', e], w.text ++ [e]⟩, some '"', none⟩ := by
    rw [read, List.append_nil, List.append_assoc]
    rfl
  unfold quotedChar
  by_cases backslash : c = '\\'
  · subst backslash
    exact both rfl
  · rw [if_neg backslash]
    by_cases quote : c = '"'
    · subst quote
      exact both rfl
    · have other : (some '"' : Option Char) ≠ some c := fun same => quote (Option.some.inj same).symm
      have plain : (⟨done, some w, some '"', none⟩ : Reader).stepPlain c =
          (⟨done, some w, some '"', none⟩ : Reader).put [c] [c] := by
        rw [Reader.stepPlain, if_neg backslash, if_neg other,
          if_neg fun none_ => absurd none_.1 (Option.some_ne_none _),
          if_neg fun none_ => absurd none_.1 (Option.some_ne_none _)]
      rw [if_neg quote]
      exact congrArg some plain

theorem read_quotedChars (a : Text) :
    (⟨done, some w, some '"', none⟩ : Reader).read (a.flatMap quotedChar) =
      some ⟨done, some ⟨w.raw ++ a.flatMap quotedChar, w.text ++ a⟩, some '"', none⟩ := by
  induction a generalizing w with
  | nil => simp [Reader.read]
  | cons c rest ih =>
      rw [List.flatMap_cons, read_append, read_quotedChar, Option.bind_some, ih]
      simp

theorem reads_needsQuotes (quotes : needsQuotes a = true) : Reads (shellWord a) ⟨shellWord a, a⟩ := by
  intro done
  have opened : (Reader.start done).step '"' = some ⟨done, some ⟨['"'], []⟩, some '"', none⟩ := rfl
  rw [shellWord_quoted quotes, List.cons_append, read_cons, opened, Option.bind_some, read_append,
    read_quotedChars, Option.bind_some]
  simp [Reader.read, Reader.step, Reader.stepPlain, Reader.put, Reader.current]

theorem raw_quoted (quotes : needsQuotes a = true) : (shellWord a).head? = some '"' := by
  rw [shellWord_quoted quotes]
  rfl

theorem bare_of_not (bare : needsQuotes a = false) :
    shellWord a = a ∧ a ≠ [] ∧ ' ' ∉ a ∧ '\\' ∉ a ∧ ∀ c ∈ a, isBare c = true := by
  simp only [needsQuotes, Bool.or_eq_false_iff, decide_eq_false_iff_not, List.any_eq_false,
    Bool.or_eq_true, decide_eq_true_eq, not_or] at bare
  obtain ⟨nonempty, plain⟩ := bare
  refine ⟨?_, nonempty, fun member => ?_, fun member => (plain _ member).2 rfl, fun c member => ?_⟩
  · rw [shellWord, if_neg]
    simpa [needsQuotes, nonempty, and_assoc] using plain
  · exact absurd (plain _ member).1.1 (by decide)
  · obtain ⟨⟨white, double⟩, backslash⟩ := plain c member
    have blank : isSeparator c = false := by
      rw [Bool.eq_false_iff]
      intro separates
      simp only [isSeparator, decide_eq_true_eq] at separates
      have all : " \t\n\r".toList.all isWhitespace = true := by decide
      exact white (List.all_eq_true.mp all c separates)
    simp [isBare, blank, double, backslash]

/-- An argument that survives is read as what it is. -/
theorem Survives.reads (h : Survives letters a) :
    Reads (shellWord a) ⟨shellWord a, a⟩ ∧ Plain letters ⟨shellWord a, a⟩ a := by
  cases quotes : needsQuotes a with
  | true =>
      refine ⟨reads_needsQuotes quotes, rfl, fun same => ?_, fun same => ?_, h.literal⟩
      · simpa [show shellWord a = [';'] from same] using raw_quoted quotes
      · simpa [show shellWord a = ['\\', ';'] from same] using raw_quoted quotes
  | false =>
      obtain ⟨same, nonempty, _, backslash, bare⟩ := bare_of_not quotes
      obtain ⟨single, semicolon⟩ := h.bare quotes
      rw [same]
      refine ⟨fun done => ?_, rfl, semicolon, fun escaped => ?_, h.literal⟩
      · have whole : a.filter (· ≠ '\'') = a := List.filter_eq_self.mpr fun c member => by
          simpa using fun quote : c = '\'' => single (quote ▸ member)
        rw [start_bare nonempty bare, whole, turn_unquoted single]
      · have same : a = ['\\', ';'] := escaped
        exact backslash (same ▸ List.mem_cons_self)

theorem raw_single {raw : Text} (single : '\'' ∈ a) (front : a <+: raw) :
    raw ≠ [';'] ∧ raw ≠ ['\\', ';'] := by
  have member := front.subset single
  constructor
  · rintro rfl
    exact absurd member (by decide)
  · rintro rfl
    exact absurd member (by decide)

theorem absolute_filter (absolute : Absolute a) {text : Text}
    (front : a.filter (· ≠ '\'') <+: text) : Absolute text := by
  obtain ⟨rest, rfl⟩ := List.head?_eq_some_iff.mp absolute
  obtain ⟨more, rfl⟩ := front
  rfl

/-- Without quotes around it, an argument with a quote in it loses the quote, and where that stays
open the blank after the argument is read into the word. -/
theorem spoiled_single (bare : ∀ c ∈ a, isBare c = true) (blank : ' ' ∉ a) (single : '\'' ∈ a)
    {rest : List Text} {ws : List Word}
    (read : ((Reader.start done).read (spaced (a :: rest))).bind Reader.finish = some ws) :
    ∃ w more, ws = done ++ w :: more ∧ Spoiled letters w a ∧
      (Absolute a → Absolute w.text ∧ w.parts = false) := by
  have begun := start_bare (List.ne_nil_of_mem single) bare done
  obtain shut | open_ := turned_single none (Or.inl rfl) a
  · rw [shut] at begun
    have whole : Reads a ⟨a, a.filter (· ≠ '\'')⟩ := fun done => by
      rw [start_bare (List.ne_nil_of_mem single) bare done, shut]
    obtain ⟨more, rfl⟩ := whole.first done rest read
    obtain ⟨notPart, notEscaped⟩ := raw_single single List.prefix_rfl
    refine ⟨_, more, rfl, .of_text notPart notEscaped (Or.inr (Or.inr ⟨'\'', ?_, single⟩)),
      fun absolute => ⟨absolute_filter absolute List.prefix_rfl, decide_eq_false notPart⟩⟩
    simp
  · rw [open_] at begun
    by_cases last : rest = []
    · rw [last, spaced, begun] at read
      cases read
    · have put : (⟨done, some ⟨a, a.filter (· ≠ '\'')⟩, some '\'', none⟩ : Reader).step ' ' =
          some ⟨done, some ⟨a ++ [' '], a.filter (· ≠ '\'') ++ [' ']⟩, some '\'', none⟩ := rfl
      rw [Shell.spaced_cons last, read_append, begun, Option.bind_some, read_cons, put,
        Option.bind_some] at read
      obtain ⟨r, later, finished⟩ := Option.bind_eq_some_iff.mp read
      have began : Began done ⟨a ++ [' '], a.filter (· ≠ '\'') ++ [' ']⟩ done
          (some ⟨a ++ [' '], a.filter (· ≠ '\'') ++ [' ']⟩) :=
        ⟨_, List.prefix_rfl, List.prefix_rfl, Or.inl ⟨rfl, rfl⟩⟩
      obtain ⟨w, more, raw, text, rfl⟩ := Began.finish (Began.read began later) finished
      obtain ⟨notPart, notEscaped⟩ := raw_single single ((List.prefix_append _ _).trans raw)
      refine ⟨w, more, rfl, .of_text notPart notEscaped (Or.inr (Or.inl ⟨' ', rfl, ?_, blank⟩)),
        fun absolute => ⟨absolute_filter absolute ((List.prefix_append _ _).trans text),
          decide_eq_false notPart⟩⟩
      exact text.subset (List.mem_append_right _ (List.mem_singleton.mpr rfl))

/-- Any other argument makes the word in its place into something else, if there is one. -/
theorem spoiled_first (bad : ¬ Survives letters a) {rest : List Text} {ws : List Word}
    (read : ((Reader.start done).read (spaced (shellWord a :: rest))).bind Reader.finish = some ws) :
    ∃ w more, ws = done ++ w :: more ∧ Spoiled letters w a ∧
      (Absolute a → Absolute w.text ∧ w.parts = false) := by
  cases quotes : needsQuotes a with
  | true =>
      obtain ⟨more, rfl⟩ := (reads_needsQuotes quotes).first done rest read
      have meant : ¬ Literal letters a := fun literal =>
        bad ⟨fun bare => Bool.noConfusion (bare.symm.trans quotes), literal⟩
      have first := raw_quoted quotes
      have notPart : shellWord a ≠ [';'] := fun same => by simp [same] at first
      have notEscaped : shellWord a ≠ ['\\', ';'] := fun same => by simp [same] at first
      exact ⟨_, more, rfl, .of_text notPart notEscaped (Or.inl ⟨meant, rfl⟩),
        fun absolute => ⟨absolute, decide_eq_false notPart⟩⟩
  | false =>
      obtain ⟨same, nonempty, blank, backslash, bare⟩ := bare_of_not quotes
      rw [same] at read
      by_cases single : '\'' ∈ a
      · exact spoiled_single bare blank single read
      · have whole : Reads a ⟨a, a⟩ := fun done => by
          have kept : a.filter (· ≠ '\'') = a := List.filter_eq_self.mpr fun c member => by
            simpa using fun quote : c = '\'' => single (quote ▸ member)
          rw [start_bare nonempty bare, kept, turn_unquoted single]
        obtain ⟨more, rfl⟩ := whole.first done rest read
        have notEscaped : a ≠ ['\\', ';'] := fun escaped =>
          backslash (escaped ▸ List.mem_cons_self)
        refine ⟨_, more, rfl, ?_, fun absolute => ⟨absolute, decide_eq_false ?_⟩⟩
        · by_cases semicolon : a = [';']
          · exact Or.inl (decide_eq_true semicolon)
          · exact .of_text semicolon notEscaped
              (Or.inl ⟨fun literal => bad ⟨fun _ => ⟨single, semicolon⟩, literal⟩, rfl⟩)
        · rintro rfl
          cases absolute

end Words

section Lines
variable {letters : Char → Bool} {args : List Text} {a : Text}

/-- The first argument that does not survive. -/
theorem first_lost (h : ¬ ∀ a ∈ args, Survives letters a) :
    ∃ before a after, args = before ++ a :: after ∧ (∀ b ∈ before, Survives letters b) ∧
      ¬ Survives letters a := by
  induction args with
  | nil => exact absurd nofun h
  | cons a rest ih =>
      by_cases here : Survives letters a
      · have later : ¬ ∀ b ∈ rest, Survives letters b := fun all =>
          h (List.forall_mem_cons.mpr ⟨here, all⟩)
        obtain ⟨before, b, after, rfl, survive, lost⟩ := ih later
        exact ⟨a :: before, b, after, rfl, List.forall_mem_cons.mpr ⟨here, survive⟩, lost⟩
      · exact ⟨[], a, rest, rfl, nofun, here⟩

theorem survive_reads (h : ∀ a ∈ args, Survives letters a) :
    List.Forall₂ Reads (args.map shellWord) (args.map fun a => ⟨shellWord a, a⟩) ∧
      List.Forall₂ (Plain letters) (args.map fun a => ⟨shellWord a, a⟩) args := by
  induction args with
  | nil => exact ⟨.nil, .nil⟩
  | cons a rest ih =>
      obtain ⟨first, later⟩ := List.forall_mem_cons.mp h
      obtain ⟨reads, plain⟩ := ih later
      exact ⟨.cons first.reads.1 reads, .cons first.reads.2 plain⟩

/-- The line is read as the arguments it was written from, whatever could be meant in it, if and
only if all of them survive. -/
theorem parse_shellWords (nonempty : args ≠ []) (absolute : ∀ a, args.head? = some a → Absolute a) :
    (∀ m, parse letters m (shellWords args) = some [args]) ↔ ∀ a ∈ args, Survives letters a := by
  constructor
  · intro same
    by_contra lost
    obtain ⟨before, a, after, rfl, survive, bad⟩ := first_lost lost
    obtain ⟨reads, plain⟩ := survive_reads survive
    have parsed := same (drowned a.length)
    cases read : words (shellWords (before ++ a :: after)) with
    | none =>
        rw [parse, read] at parsed
        cases parsed
    | some ws =>
        have from_ := read
        rw [words, shellWords, List.map_append, List.map_cons,
          read_spaced_append reads (List.cons_ne_nil _ _), List.nil_append] at from_
        obtain ⟨w, more, rfl, spoiled, begins⟩ := spoiled_first bad from_
        refine parse_spoiled plain spoiled (fun first head => absolute first ?_) ?_ read parsed
        · cases before with
          | nil => cases head
          | cons _ _ => exact head
        · rintro rfl
          exact begins (absolute a rfl)
  · intro survive m
    obtain ⟨reads, plain⟩ := survive_reads survive
    exact parse_plain absolute nonempty plain (words_spaced reads)

/-- Most characters are left as they are, with quotes around them or without. -/
theorem survives_plain (h : ∀ c ∈ a, c ∉ "%$';".toList) : Survives letters a := by
  have notPercent : ∀ l : Text, (∀ c ∈ l, c ∉ "%$';".toList) → specifies letters false l = false := by
    intro l
    induction l with
    | nil => exact fun _ => rfl
    | cons c rest ih =>
        intro h
        obtain ⟨first, later⟩ := List.forall_mem_cons.mp h
        have sign : c ≠ '%' := by
          rintro rfl
          exact first (by decide)
        rw [specifies, decide_eq_false sign, ih later]
  have notDollar : ∀ l : Text, (∀ c ∈ l, c ∉ "%$';".toList) → mentions .word l = false := by
    intro l
    induction l with
    | nil => exact fun _ => rfl
    | cons c rest ih =>
        intro h
        obtain ⟨first, later⟩ := List.forall_mem_cons.mp h
        have sign : c ≠ '$' := by
          rintro rfl
          exact first (by decide)
        rw [mentions, if_neg sign, ih later]
  refine ⟨fun _ => ⟨fun member => h _ member (by decide), ?_⟩, notPercent a h, notDollar a h, ?_⟩
  · rintro rfl
    exact h ';' (by decide) (by decide)
  · cases a with
    | nil => rfl
    | cons c rest =>
        have sign : c ≠ '$' := by
          rintro rfl
          exact h '$' List.mem_cons_self (by decide)
        simp [isVariable, sign]

end Lines

section Unit
variable {letters : Char → Bool} {agent : AgentInvocation} {P : Text → Prop}

/-- What stands among the arguments whatever the operator has named. -/
def fixedWords : List Text :=
  ["--config-dir".toList, "agent".toList, "run".toList, "--port".toList, "--client".toList,
    "--no-discovery".toList, "--no-browser".toList, "--log-file".toList]

theorem forall_flag (given : Bool) {flag : Text} (plain : P flag) :
    ∀ a ∈ if given then [flag] else [], P a := by
  cases given with
  | false => exact nofun
  | true => exact List.forall_mem_singleton.mpr plain

theorem forall_option {flag : Text} (plain : P flag) (value : Option Argument) :
    (∀ a ∈ (match value with
      | some v => [flag, v.text]
      | none => []), P a) ↔ ∀ v, value = some v → P v.text := by
  cases value with
  | none => exact ⟨fun _ => nofun, fun _ => nofun⟩
  | some v =>
      constructor
      · intro all _ same
        cases same
        exact all v.text (by simp)
      · exact fun h => List.forall_mem_cons.mpr ⟨plain, List.forall_mem_singleton.mpr (h v rfl)⟩

/-- What holds of every fixed word and of the port holds of the arguments if it holds of what the
operator has named. -/
theorem forall_argv (fixed : ∀ word ∈ fixedWords, P word)
    (port : P (toString agent.port.toNat).toList) :
    (∀ a ∈ agent.argv, P a) ↔ P agent.exe.text ∧
      (∀ dir, agent.configDir = some dir → P dir.text) ∧
      ∀ log, agent.logFile = some log → P log.text := by
  simp only [fixedWords, List.forall_mem_cons] at fixed
  obtain ⟨configDir, agent_, run, port_, client, discovery, browser, logFile, _⟩ := fixed
  have words : ∀ a ∈ ["agent".toList, "run".toList, "--port".toList,
      (toString agent.port.toNat).toList], P a :=
    List.forall_mem_cons.mpr ⟨agent_, List.forall_mem_cons.mpr ⟨run, List.forall_mem_cons.mpr
      ⟨port_, List.forall_mem_singleton.mpr port⟩⟩⟩
  simp only [AgentInvocation.argv, List.forall_mem_append, List.forall_mem_singleton]
  constructor
  · rintro ⟨⟨⟨⟨⟨⟨exe, dir⟩, _⟩, _⟩, _⟩, _⟩, log⟩
    exact ⟨exe, (forall_option configDir _).mp dir, (forall_option logFile _).mp log⟩
  · rintro ⟨exe, dir, log⟩
    exact ⟨⟨⟨⟨⟨⟨exe, (forall_option configDir _).mpr dir⟩, words⟩, forall_flag _ client⟩,
      forall_flag _ discovery⟩, forall_flag _ browser⟩, (forall_option logFile _).mpr log⟩

theorem digit_of_mem_port {port : UInt16} {c : Char} (h : c ∈ (toString port.toNat).toList) :
    c.isDigit = true := by
  rw [Nat.toString_eq_repr, Nat.toList_repr] at h
  exact Nat.isDigit_of_mem_toDigits (by decide) (by decide) h

/-- Only what the operator has named can be lost: the rest of the arguments is plain. -/
theorem survive_argv :
    (∀ a ∈ agent.argv, Survives letters a) ↔ Survives letters agent.exe.text ∧
      (∀ dir, agent.configDir = some dir → Survives letters dir.text) ∧
      ∀ log, agent.logFile = some log → Survives letters log.text := by
  refine forall_argv (fun word member => survives_plain ?_) (survives_plain ?_)
  · have plain : (fixedWords.all fun word => word.all fun c => c ∉ "%$';".toList) = true := by
      decide
    exact fun c inside =>
      of_decide_eq_true (List.all_eq_true.mp (List.all_eq_true.mp plain word member) c inside)
  · intro c member special
    have none_ : ("%$';".toList.all fun c => !c.isDigit) = true := by decide
    have digit := List.all_eq_true.mp none_ c special
    rw [digit_of_mem_port member] at digit
    cases digit

theorem mem_shellWord {a : Text} {c : Char} (h : c ∈ shellWord a) : c = '"' ∨ c = '\\' ∨ c ∈ a := by
  cases quotes : needsQuotes a with
  | false =>
      rw [(bare_of_not quotes).1] at h
      exact Or.inr (Or.inr h)
  | true =>
      rw [shellWord_quoted quotes, List.cons_append, List.mem_cons, List.mem_append,
        List.mem_singleton] at h
      obtain quote | inside | quote := h
      · exact Or.inl quote
      · obtain ⟨d, member, here⟩ := List.mem_flatMap.mp inside
        unfold quotedChar at here
        split at here
        · exact Or.inr (Or.inl (by simpa using here))
        · split at here
          · obtain backslash | quote : c = '\\' ∨ c = '"' := by simpa using here
            · exact Or.inr (Or.inl backslash)
            · exact Or.inl quote
          · exact Or.inr (Or.inr (List.mem_singleton.mp here ▸ member))
      · exact Or.inl quote

theorem Argument.oneLine (a : Argument) : '\n' ∉ a.text := fun member =>
  absurd (List.any_eq_false.mp a.printed _ member) (by decide)

/-- No argument breaks the line. -/
theorem argv_oneLine (agent : AgentInvocation) : ∀ a ∈ agent.argv, '\n' ∉ a := by
  refine (forall_argv (by decide) fun member => ?_).mpr
    ⟨agent.exe.oneLine, fun dir _ => dir.oneLine, fun log _ => log.oneLine⟩
  exact absurd (digit_of_mem_port member) (by decide)

theorem execLine_oneLine (agent : AgentInvocation) : '\n' ∉ shellWords agent.argv := by
  intro member
  obtain blank | ⟨text, quoted, inside⟩ := mem_spaced member
  · exact absurd blank (by decide)
  · obtain ⟨a, listed, rfl⟩ := List.mem_map.mp quoted
    obtain quote | backslash | own := mem_shellWord inside
    · exact absurd quote (by decide)
    · exact absurd backslash (by decide)
    · exact argv_oneLine agent a listed own

/-- Neither a comment nor a setting of the unit that is always the same is a line to execute. -/
theorem unit_fixed (benchNode : Bool) :
    ∀ line ∈ unitComment ++ unitHeader ++ unitTail benchNode,
      '\n' ∉ line ∧ "ExecStart=".toList.isPrefixOf line = false := by
  unfold unitComment unitHeader unitTail
  repeat rw [String.toList_ofList]
  cases benchNode
  · decide +kernel
  · decide +kernel

theorem marker_oneLine (binarySha256 : Text) : '\n' ∉ unitMarker binarySha256 := by
  intro member
  cases List.mem_append.mp member with
  | inl front =>
      rw [String.toList_ofList] at front
      exact absurd front (by decide)
  | inr binary =>
      obtain ⟨c, _, here⟩ := List.mem_flatMap.mp binary
      split at here
      · exact absurd here (by decide)
      · next other => exact other (List.mem_singleton.mp here).symm

/-- The unit says to execute one line. -/
theorem execStart_unitBody (agent : AgentInvocation) :
    execStart (unitBody agent) = [shellWords agent.argv] := by
  have fixed := unit_fixed agent.benchNode
  simp only [List.forall_mem_append] at fixed
  obtain ⟨⟨comment, header⟩, tail⟩ := fixed
  have lines : ∀ line ∈ unitLines agent, '\n' ∉ line := by
    have exec : '\n' ∉ "ExecStart=".toList ++ shellWords agent.argv := by
      rw [List.mem_append]
      rintro (front | line)
      · exact absurd front (by decide)
      · exact execLine_oneLine agent line
    simp only [unitLines, List.forall_mem_append, List.forall_mem_cons]
    exact ⟨⟨fun line h => (comment line h).1, marker_oneLine _, fun line h => (header line h).1⟩,
      exec, fun line h => (tail line h).1⟩
  have none_ {ls : List Text} (h : ∀ line ∈ ls, '\n' ∉ line ∧
      "ExecStart=".toList.isPrefixOf line = false) : ls.filter "ExecStart=".toList.isPrefixOf = [] :=
    List.filter_eq_nil_iff.mpr fun line member => by
      rw [(h line member).2]
      exact Bool.false_ne_true
  have marker : "ExecStart=".toList.isPrefixOf (unitMarker agent.binarySha256) = false := rfl
  have exec : "ExecStart=".toList.isPrefixOf ("ExecStart=".toList ++ shellWords agent.argv) = true :=
    rfl
  rw [execStart, unitBody, List.splitOn_intercalate _ lines (by simp [unitLines]), unitLines,
    List.filter_append, List.filter_append, List.filter_cons, List.filter_cons, none_ comment,
    none_ header, none_ tail, marker, exec]
  rfl

/-- The unit gives the agent back its arguments, whatever systemd's letters and the variables stand
for, if and only if all that the operator has named survives. -/
theorem systemd_unit_arguments (letters : Char → Bool) (agent : AgentInvocation) :
    (∀ m, (execStart (unitBody agent)).map (parse letters m) = [some [agent.argv]]) ↔
      Survives letters agent.exe.text ∧
        (∀ dir, agent.configDir = some dir → Survives letters dir.text) ∧
        ∀ log, agent.logFile = some log → Survives letters log.text := by
  have absolute : ∀ a, agent.argv.head? = some a → Absolute a := by
    intro a head
    cases head
    exact agent.absolute
  have nonempty : agent.argv ≠ [] := List.cons_ne_nil _ _
  rw [← survive_argv, ← parse_shellWords nonempty absolute, execStart_unitBody]
  simp

/-- An agent that keeps its state in a directory with a percent sign in its name. -/
def percentAgent : AgentInvocation where
  exe := ⟨"/usr/bin/metralectl".toList, by decide⟩
  absolute := rfl
  port := 34333
  client := false
  discovery := true
  browser := true
  configDir := some ⟨"/srv/100%host".toList, by decide⟩
  logFile := none
  benchNode := false
  binarySha256 := []

/-- Where `%h` is a home directory. -/
def atHome : Meaning :=
  ⟨fun c => if c = 'h' then "/root".toList else [], fun _ => [], fun _ => []⟩

/-- It is started in another one. -/
theorem percent_lost :
    (execStart (unitBody percentAgent)).map (parse unitLetters atHome) =
        [some [["/usr/bin/metralectl".toList, "--config-dir".toList, "/srv/100/rootost".toList,
          "agent".toList, "run".toList, "--port".toList, "34333".toList]]] ∧
      ¬ ∀ m, (execStart (unitBody percentAgent)).map (parse unitLetters m) =
        [some [percentAgent.argv]] := by
  have started : (execStart (unitBody percentAgent)).map (parse unitLetters atHome) =
      [some [["/usr/bin/metralectl".toList, "--config-dir".toList, "/srv/100/rootost".toList,
        "agent".toList, "run".toList, "--port".toList, "34333".toList]]] := by
    rw [execStart_unitBody]
    decide +kernel
  refine ⟨started, fun same => ?_⟩
  have argv := same atHome
  rw [started] at argv
  exact absurd argv (by decide +kernel)

end Unit

end Service
end Metralectl
