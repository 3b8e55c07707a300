import Mathlib.Data.List.Basic
import Mathlib.Data.List.Forall2

/-!
A simple command line as a POSIX shell reads it: the words it is cut into with their
quoting, then what each word expands to, split at the blanks an unquoted expansion
brought, with its patterns replaced by the paths they match. What is no simple
command, or needs more of the shell than this, is not evaluated.
-/
namespace Shell

abbrev Text := List Char

/-- What a word is made of. -/
inductive Piece where
  | quoted (c : Char)
  | literal (c : Char)
  /-- A pair of quotes, perhaps with nothing in it. -/
  | quotes
  | param (name : Text)
  | command (text : Text)
deriving DecidableEq

inductive Mode where
  | plain
  | single
  | double
  | escaped
  | doubleEscaped
  | dollar (name : Text)
  | substitution (text : Text)
deriving DecidableEq

/-- The words cut off so far, and the one being read. -/
structure Lexer where
  done : List (List Piece)
  current : Option (List Piece)
  mode : Mode
deriving DecidableEq

def isBlank (c : Char) : Bool := c = ' ' || c = '\t'

/-- What ends the command or changes what it is. -/
def isOperator (c : Char) : Bool :=
  c = '\n' || c = '|' || c = '&' || c = ';' || c = '<' || c = '>' || c = '(' || c = ')' || c = '`'

def isPattern (c : Char) : Bool := c = '*' || c = '?' || c = '['

def isNameChar (c : Char) : Bool := c.isAlphanum || c = '_'

namespace Lexer

def add (l : Lexer) (p : Piece) : Lexer := { l with current := some (l.current.getD [] ++ [p]) }

def enter (l : Lexer) (mode : Mode) : Lexer := { l with mode }

def close (l : Lexer) : Lexer := { l with done := l.done ++ l.current.toList, current := none }

/-- A character outside quotes. -/
def stepPlain (l : Lexer) (c : Char) : Option Lexer :=
  if isBlank c then some l.close
  else if isOperator c then none
  else if c = '\'' then some ((l.add .quotes).enter .single)
  else if c = '"' then some ((l.add .quotes).enter .double)
  else if c = '\\' then some (l.enter .escaped)
  else if c = '$' then some (l.enter (.dollar []))
  -- At the start of a word these begin a comment, or name a home directory.
  else if l.current = none ∧ (c = '#' ∨ c = '~') then none
  else some (l.add (.literal c))

def stepDouble (l : Lexer) (c : Char) : Option Lexer :=
  if c = '"' then some (l.enter .plain)
  else if c = '$' ∨ c = '`' then none
  else if c = '\\' then some (l.enter .doubleEscaped)
  else some (l.add (.quoted c))

def stepDollar (l : Lexer) (name : Text) (c : Char) : Option Lexer :=
  if name = [] ∧ c = '(' then some (l.enter (.substitution []))
  else if isNameChar c ∧ (name = [] → c.isDigit = false) then
    some (l.enter (.dollar (name ++ [c])))
  else if name = [] then none
  else ((l.add (.param name)).enter .plain).stepPlain c

def step (l : Lexer) (c : Char) : Option Lexer :=
  match l.mode with
  | .plain => l.stepPlain c
  | .single =>
      if c = '\'' then some (l.enter .plain) else some (l.add (.quoted c))
  | .double => l.stepDouble c
  | .escaped =>
      if c = '\n' then some (l.enter .plain) else some ((l.add (.quoted c)).enter .plain)
  | .doubleEscaped =>
      if c = '\n' then some (l.enter .double)
      else if c = '$' ∨ c = '`' ∨ c = '"' ∨ c = '\\' then
        some ((l.add (.quoted c)).enter .double)
      else some (((l.add (.quoted '\\')).add (.quoted c)).enter .double)
  | .dollar name => l.stepDollar name c
  | .substitution text =>
      if c = ')' then some ((l.add (.command text)).enter .plain)
      else if isOperator c ∨ c = '\'' ∨ c = '"' ∨ c = '\\' ∨ c = '$' then none
      else some (l.enter (.substitution (text ++ [c])))

def finish (l : Lexer) : Option (List (List Piece)) :=
  match l.mode with
  | .plain => some l.close.done
  | .dollar name => if name = [] then none else some (l.add (.param name)).close.done
  | _ => none

def start : Lexer := ⟨[], none, .plain⟩

def read (l : Lexer) (text : Text) : Option Lexer := text.foldlM step l

end Lexer

/-- The words of a line. -/
def lex (line : Text) : Option (List (List Piece)) :=
  (Lexer.start.read line).bind Lexer.finish

/-- A word after its expansions, before it is split. -/
inductive Cell where
  | kept (c : Char) (active : Bool)
  | mark
  | gap
deriving DecidableEq

/-- What separates fields, and what an expansion may bring of it. -/
def isSeparator (c : Char) : Bool := c = ' ' || c = '\t' || c = '\n'

def expanded (c : Char) : Cell := if isSeparator c then .gap else .kept c true

abbrev Field := List (Char × Bool)

def fields (current : Option Field) : List Cell → List Field
  | [] => current.toList
  | .gap :: rest => current.toList ++ fields none rest
  | .mark :: rest => fields (some (current.getD [])) rest
  | .kept c active :: rest => fields (some (current.getD [] ++ [(c, active)])) rest

def Field.text (field : Field) : Text := field.map Prod.fst

def Field.isPattern (field : Field) : Bool := field.any fun c => c.2 && Shell.isPattern c.1

/-- Where the line is pasted: its variables, what a command prints, and the paths a
pattern matches; a variable that is not set reads as empty. -/
structure Machine where
  var : Text → Text
  run : Text → Option Text
  paths : Field → List Text

namespace Machine

def expand (m : Machine) : Piece → Option (List Cell)
  | .quoted c => some [.kept c false]
  | .literal c => some [.kept c true]
  | .quotes => some [.mark]
  | .param name => some ((m.var name).map expanded)
  | .command text => (m.run text).map (·.map expanded)

/-- A pattern that matches nothing stands for itself. -/
def resolve (m : Machine) (field : Field) : List Text :=
  if field.isPattern ∧ m.paths field ≠ [] then m.paths field else [field.text]

/-- What one word becomes. -/
def word (m : Machine) (pieces : List Piece) : Option (List Text) :=
  (pieces.mapM m.expand).map fun cells => (fields none cells.flatten).flatMap m.resolve

/-- The words the command is called with. -/
def evaluate (m : Machine) (line : Text) : Option (List Text) :=
  (lex line).bind fun words => (words.mapM m.word).map List.flatten

/-- The words the grammar keeps to itself where a command begins. -/
def reservedWords : List String :=
  ["!", "\x7b", "\x7d", "case", "do", "done", "elif", "else", "esac", "fi", "for", "if", "in", "then",
    "until", "while"]

def isReserved (pieces : List Piece) : Bool :=
  reservedWords.any fun word => pieces = word.toList.map .literal

/-- A name and an equals sign, none of it quoted, set a variable where a command begins. -/
def isAssignment : List Piece → Bool
  | .literal c :: rest =>
      let named := fun p => match p with
        | .literal c => isNameChar c
        | _ => false
      isNameChar c && !c.isDigit && (rest.dropWhile named).head? = some (.literal '=')
  | _ => false

/-- The words of a line that is one command and nothing before it. -/
def command (m : Machine) (line : Text) : Option (List Text) :=
  match lex line with
  | some (first :: rest) =>
      if isAssignment first || isReserved first then none
      else ((first :: rest).mapM m.word).map List.flatten
  | _ => none

end Machine

/-- The line with a blank between its words. -/
def spaced : List Text → Text
  | [] => []
  | [text] => text
  | text :: rest => text ++ ' ' :: spaced rest

section Words
variable {done : List (List Piece)} {pieces : List Piece} {l : Lexer} {text a b : Text} {m : Machine}

theorem read_append : l.read (a ++ b) = (l.read a).bind (·.read b) := by
  rw [Lexer.read, List.foldlM_append]
  rfl

theorem read_cons {c : Char} : l.read (c :: text) = (l.step c).bind (·.read text) := rfl

/-- The text is one word wherever a word may begin. -/
def Word (text : Text) (pieces : List Piece) : Prop :=
  ∀ done, (⟨done, none, .plain⟩ : Lexer).read text = some ⟨done, some pieces, .plain⟩

theorem spaced_cons {rest : List Text} (h : rest ≠ []) :
    spaced (text :: rest) = text ++ ' ' :: spaced rest := by
  cases rest with
  | nil => exact absurd rfl h
  | cons _ _ => rfl

/-- Past a word and the blank after it. -/
theorem Word.past (h : Word text pieces) (more : Text) :
    (⟨done, none, .plain⟩ : Lexer).read (text ++ ' ' :: more) =
      (⟨done ++ [pieces], none, .plain⟩ : Lexer).read more := by
  rw [read_append, h done]
  rfl

theorem Word.last (h : Word text pieces) :
    ((⟨done, none, .plain⟩ : Lexer).read text).bind Lexer.finish = some (done ++ [pieces]) := by
  rw [h done]
  rfl

/-- A word is read in one way. -/
theorem Word.unique {other : List Piece} (h : Word text pieces) (h' : Word text other) :
    pieces = other := by
  have same := (h []).symm.trans (h' [])
  simpa using same

/-- The text is pasted as one word that comes out as `out`. -/
def Shows (m : Machine) (text out : Text) : Prop :=
  ∃ pieces, Word text pieces ∧ m.word pieces = some [out]

theorem lex_spaced {texts outs : List Text} (h : List.Forall₂ (Shows m) texts outs)
    (some_ : texts ≠ []) (done : List (List Piece)) : ∃ words,
      ((⟨done, none, .plain⟩ : Lexer).read (spaced texts)).bind Lexer.finish =
        some (done ++ words) ∧ words.mapM m.word = some (outs.map fun out => [out]) := by
  induction h generalizing done with
  | nil => exact absurd rfl some_
  | @cons text out texts outs first rest ih =>
      obtain ⟨pieces, word, shown⟩ := first
      by_cases more : texts = []
      · subst more
        cases rest
        refine ⟨[pieces], word.last, ?_⟩
        rw [List.mapM_cons, shown]
        rfl
      · obtain ⟨words, cut, all⟩ := ih more (done ++ [pieces])
        refine ⟨pieces :: words, ?_, ?_⟩
        · rw [spaced_cons more, word.past, cut, List.append_assoc]
          rfl
        · rw [List.mapM_cons, shown, all]
          rfl

/-- So does one that begins with a command's name. -/
theorem command_spaced {out : Text} {texts outs : List Text} (word : Word text pieces)
    (shown : m.word pieces = some [out])
    (bare : (Machine.isAssignment pieces || Machine.isReserved pieces) = false)
    (h : List.Forall₂ (Shows m) texts outs) :
    m.command (spaced (text :: texts)) = some (out :: outs) := by
  have cut : ∃ words, lex (spaced (text :: texts)) = some (pieces :: words) ∧
      words.mapM m.word = some (outs.map fun out => [out]) := by
    by_cases more : texts = []
    · subst more
      cases h
      exact ⟨[], word.last, rfl⟩
    · obtain ⟨words, cut, all⟩ := lex_spaced h more [pieces]
      refine ⟨words, ?_, all⟩
      rw [lex, Lexer.start, spaced_cons more, word.past]
      exact cut
  obtain ⟨words, cut, all⟩ := cut
  simp only [Machine.command, cut, bare, List.mapM_cons, shown, all]
  simp [← List.flatMap_def]

/-- A line of words that each come out alone comes out as those. -/
theorem evaluate_spaced {texts outs : List Text} (h : List.Forall₂ (Shows m) texts outs)
    (some_ : texts ≠ []) : m.evaluate (spaced texts) = some outs := by
  obtain ⟨words, cut, all⟩ := lex_spaced h some_ []
  rw [Machine.evaluate, lex, Lexer.start, cut, Option.bind_some, List.nil_append, all,
    Option.map_some]
  rw [← List.flatMap_def, List.flatMap_singleton']

end Words

section Literal
variable {done : List (List Piece)} {pieces : List Piece} {c : Char} {text : Text}

/-- A character that stands for itself inside a word. -/
def isPlain (c : Char) : Bool :=
  !(isBlank c || isOperator c || c = '\'' || c = '"' || c = '\\' || c = '$')

theorem step_plain (h : isPlain c = true) (l : Lexer) (mode : l.mode = .plain)
    (inside : l.current ≠ none ∨ (c ≠ '#' ∧ c ≠ '~')) : l.step c = some (l.add (.literal c)) := by
  simp only [isPlain, Bool.not_eq_true', Bool.or_eq_false_iff, decide_eq_false_iff_not] at h
  have begins : ¬ (l.current = none ∧ (c = '#' ∨ c = '~')) := by
    rintro ⟨none, mark⟩
    exact inside.elim (· none) fun other => mark.elim other.1 other.2
  simp [Lexer.step, mode, Lexer.stepPlain, h, begins]

theorem read_plain (h : text.all isPlain = true) :
    (⟨done, some pieces, .plain⟩ : Lexer).read text =
      some ⟨done, some (pieces ++ text.map .literal), .plain⟩ := by
  induction text generalizing pieces with
  | nil => simp [Lexer.read]
  | cons c text ih =>
      rw [List.all_cons, Bool.and_eq_true] at h
      rw [read_cons, step_plain h.1 _ rfl (.inl (Option.some_ne_none _)), Option.bind_some]
      refine (ih h.2).trans ?_
      rw [List.map_cons, List.append_assoc]
      rfl

end Literal

section Fields
variable {cells : List Cell} {current : Option Field} {m : Machine} {field : Field}

def Cell.text : Cell → Field
  | .kept c active => [(c, active)]
  | .mark | .gap => []

/-- Without a gap, what a word becomes is one field. -/
theorem fields_unbroken (h : .gap ∉ cells) (some_ : cells ≠ [] ∨ current ≠ none) :
    fields current cells = [current.getD [] ++ cells.flatMap Cell.text] := by
  induction cells generalizing current with
  | nil =>
      cases current with
      | none => exact absurd some_ (by simp)
      | some field => simp [fields]
  | cons cell rest ih =>
      have later : Cell.gap ∉ rest := fun hg => h (List.mem_cons_of_mem _ hg)
      cases cell with
      | gap => exact absurd List.mem_cons_self h
      | mark => rw [fields, ih later (by simp)]; rfl
      | kept c active =>
          rw [fields, ih later (by simp)]
          simp [Cell.text]

theorem resolve_plain (h : field.isPattern = false) : m.resolve field = [field.text] := by
  rw [Machine.resolve, if_neg (by simp [h])]

/-- What the piece puts into a field, if its expansion brings no gap. -/
def Machine.Puts (m : Machine) (p : Piece) (text : Field) : Prop :=
  ∃ cells, m.expand p = some cells ∧ .gap ∉ cells ∧ cells.flatMap Cell.text = text ∧
    ((p = .quotes ∨ ∃ c, p = .literal c) → cells ≠ [])

theorem puts_quoted (c : Char) : m.Puts (.quoted c) [(c, false)] :=
  ⟨_, rfl, by simp, rfl, by simp⟩

theorem puts_literal (c : Char) : m.Puts (.literal c) [(c, true)] :=
  ⟨_, rfl, by simp, rfl, by simp⟩

theorem puts_quotes : m.Puts .quotes [] := ⟨_, rfl, by simp, rfl, by simp⟩

theorem expanded_unbroken {value : Text} (h : value.all (!isSeparator ·) = true) :
    value.map expanded = value.map (.kept · true) :=
  List.map_congr_left fun c hc => by
    have solid := List.all_eq_true.mp h c hc
    rw [expanded, if_neg (by simpa using solid)]

theorem kept_text (value : Text) :
    (value.map (Cell.kept · true)).flatMap Cell.text = value.map (·, true) := by
  induction value with
  | nil => rfl
  | cons c value ih => rw [List.map_cons, List.flatMap_cons, ih, List.map_cons]; rfl

theorem puts_param {name : Text} (h : (m.var name).all (!isSeparator ·) = true) :
    m.Puts (.param name) ((m.var name).map (·, true)) := by
  refine ⟨_, congrArg some (expanded_unbroken h), by simp, kept_text _, by simp⟩

theorem puts_command {text out : Text} (runs : m.run text = some out)
    (h : out.all (!isSeparator ·) = true) : m.Puts (.command text) (out.map (·, true)) := by
  refine ⟨_, ?_, by simp, kept_text _, by simp⟩
  rw [Machine.expand, runs, Option.map_some, expanded_unbroken h]

/-- A word none of whose expansions brings a gap is one field. -/
theorem word_field {pieces : List Piece} {texts : List Field}
    (h : List.Forall₂ m.Puts pieces texts)
    (some_ : ∃ p ∈ pieces, p = .quotes ∨ ∃ c, p = .literal c) :
    m.word pieces = some (m.resolve texts.flatten) := by
  obtain ⟨cells, expand, gap, text, solid⟩ : ∃ cells : List (List Cell),
      pieces.mapM m.expand = some cells ∧ .gap ∉ cells.flatten ∧
        cells.flatten.flatMap Cell.text = texts.flatten ∧
        ((∃ p ∈ pieces, p = .quotes ∨ ∃ c, p = .literal c) → cells.flatten ≠ []) := by
    clear some_
    induction h with
    | nil => exact ⟨[], rfl, by simp, rfl, by simp⟩
    | @cons p text pieces texts first rest ih =>
        obtain ⟨here, expand, gap, shown, opens⟩ := first
        obtain ⟨cells, expands, gaps, showns, opened⟩ := ih
        refine ⟨here :: cells, ?_, ?_, ?_, ?_⟩
        · rw [List.mapM_cons, expand, expands]
          rfl
        · simp [gap, gaps]
        · rw [List.flatten_cons, List.flatMap_append, shown, showns, List.flatten_cons]
        · rintro ⟨q, hq, kind⟩ none
          rw [List.flatten_cons, List.append_eq_nil_iff] at none
          cases List.mem_cons.mp hq with
          | inl same => exact opens (same ▸ kind) none.1
          | inr later => exact opened ⟨q, later, kind⟩ none.2
  rw [Machine.word, expand, Option.map_some, fields_unbroken gap (.inl (solid some_)), text]
  rw [List.flatMap_singleton, Option.getD_none, List.nil_append]

theorem word_puts {pieces : List Piece} {texts : List Field}
    (h : List.Forall₂ m.Puts pieces texts)
    (some_ : ∃ p ∈ pieces, p = .quotes ∨ ∃ c, p = .literal c)
    (plain : Field.isPattern texts.flatten = false) :
    m.word pieces = some [Field.text texts.flatten] := by
  rw [word_field h some_, resolve_plain plain]

end Fields

section Rest
variable {l k : Lexer} {m : Machine} {text more : Text} {pieces : List Piece}

/-- The lexer with words already cut off before it started. -/
def Lexer.after (done : List (List Piece)) (l : Lexer) : Lexer := { l with done := done ++ l.done }

theorem close_after (done : List (List Piece)) (l : Lexer) :
    (l.after done).close = l.close.after done := by
  simp [Lexer.after, Lexer.close]

theorem stepPlain_after (done : List (List Piece)) (l : Lexer) (c : Char) :
    (l.after done).stepPlain c = (l.stepPlain c).map (·.after done) := by
  simp only [Lexer.stepPlain, apply_ite (Option.map _), Option.map_some, Option.map_none, close_after]
  rfl

/-- Words cut off before do not matter to how the rest is read. -/
theorem step_after (done : List (List Piece)) (l : Lexer) (c : Char) :
    (l.after done).step c = (l.step c).map (·.after done) := by
  obtain ⟨cut, current, mode⟩ := l
  cases mode with
  | plain => exact stepPlain_after done _ c
  | dollar name =>
      have flushed := stepPlain_after done
        (((⟨cut, current, .dollar name⟩ : Lexer).add (.param name)).enter .plain) c
      simp only [Lexer.step, Lexer.stepDollar, Lexer.after] at flushed ⊢
      split_ifs <;> first | rfl | exact flushed
  | single | double | escaped | doubleEscaped | substitution text =>
      simp only [Lexer.step, Lexer.stepDouble, Lexer.after]
      split_ifs <;> rfl

theorem read_after (done : List (List Piece)) (l : Lexer) (text : Text) :
    (l.after done).read text = (l.read text).map (·.after done) := by
  induction text generalizing l with
  | nil => rfl
  | cons c text ih =>
      rw [read_cons, read_cons, step_after]
      cases l.step c with
      | none => rfl
      | some k => exact ih k

theorem finish_after (done : List (List Piece)) (l : Lexer) :
    (l.after done).finish = l.finish.map (done ++ ·) := by
  obtain ⟨cut, current, mode⟩ := l
  cases mode with
  | dollar name => simp only [Lexer.finish, Lexer.after]; split_ifs <;> simp [Lexer.add, Lexer.close]
  | plain => simp [Lexer.finish, Lexer.after, Lexer.close]
  | single | double | escaped | doubleEscaped | substitution text => rfl

/-- Past the words of a line, the rest is a line of its own. -/
theorem lex_after (done : List (List Piece)) (line : Text) :
    ((⟨done, none, .plain⟩ : Lexer).read line).bind Lexer.finish = (lex line).map (done ++ ·) := by
  have start : (⟨done, none, .plain⟩ : Lexer) = Lexer.start.after done := by
    simp [Lexer.after, Lexer.start]
  rw [start, read_after, lex]
  cases Lexer.start.read line with
  | none => rfl
  | some l => exact finish_after done l

theorem evaluate_past {out : Text} (h : Shows m text out) (more : Text) :
    m.evaluate (text ++ ' ' :: more) = (m.evaluate more).map (out :: ·) := by
  obtain ⟨pieces, word, shown⟩ := h
  rw [Machine.evaluate, lex, Lexer.start, word.past, lex_after, Machine.evaluate]
  cases lex more with
  | none => rfl
  | some words =>
      simp only [Option.map_some, Option.bind_some, List.nil_append, List.singleton_append,
        List.mapM_cons, shown, Option.bind_eq_bind, Option.pure_def]
      cases words.mapM m.word with
      | none => rfl
      | some outs => rfl

theorem evaluate_after {texts outs rest : List Text} (h : List.Forall₂ (Shows m) texts outs)
    (some_ : rest ≠ []) :
    m.evaluate (spaced (texts ++ rest)) = (m.evaluate (spaced rest)).map (outs ++ ·) := by
  induction h with
  | nil => exact Option.map_id'.symm
  | cons first later ih =>
      rw [List.cons_append, spaced_cons (List.append_ne_nil_of_right_ne_nil _ some_),
        evaluate_past first, ih, Option.map_map]
      rfl

end Rest

section Invariants
variable {P : Lexer → Prop} {l k : Lexer} {c : Char} {text : Text}

theorem keeps_ite {p : Prop} [Decidable p] {a b : Option Lexer} (yes : ∀ k ∈ a, P k)
    (no : ∀ k ∈ b, P k) : ∀ k ∈ if p then a else b, P k := by
  split
  · exact yes
  · exact no

theorem keeps_some (h : P l) : ∀ k ∈ some l, P k := fun _ here => Option.some.inj here ▸ h

theorem keeps_none : ∀ k ∈ (none : Option Lexer), P k := nofun

/-- What adding a piece, changing mode and closing a word keep, a step keeps. -/
theorem step_keeps (add : ∀ l p, P l → P (l.add p)) (enter : ∀ l mode, P l → P (l.enter mode))
    (close : ∀ l, P l → P l.close) (h : P l) (step : l.step c = some k) : P k := by
  have plain {l : Lexer} (h : P l) : ∀ k ∈ l.stepPlain c, P k :=
    keeps_ite (keeps_some (close _ h)) <| keeps_ite keeps_none <|
      keeps_ite (keeps_some (enter _ _ (add _ _ h))) <|
      keeps_ite (keeps_some (enter _ _ (add _ _ h))) <| keeps_ite (keeps_some (enter _ _ h)) <|
      keeps_ite (keeps_some (enter _ _ h)) <| keeps_ite keeps_none (keeps_some (add _ _ h))
  refine (?_ : ∀ k ∈ l.step c, P k) k step
  obtain ⟨cut, current, mode⟩ := l
  cases mode with
  | plain => exact plain h
  | single => exact keeps_ite (keeps_some (enter _ _ h)) (keeps_some (add _ _ h))
  | double =>
      exact keeps_ite (keeps_some (enter _ _ h)) <| keeps_ite keeps_none <|
        keeps_ite (keeps_some (enter _ _ h)) (keeps_some (add _ _ h))
  | escaped =>
      exact keeps_ite (keeps_some (enter _ _ h)) (keeps_some (enter _ _ (add _ _ h)))
  | doubleEscaped =>
      exact keeps_ite (keeps_some (enter _ _ h)) <|
        keeps_ite (keeps_some (enter _ _ (add _ _ h)))
          (keeps_some (enter _ _ (add _ _ (add _ _ h))))
  | dollar name =>
      exact keeps_ite (keeps_some (enter _ _ h)) <| keeps_ite (keeps_some (enter _ _ h)) <|
        keeps_ite keeps_none (plain (enter _ _ (add _ _ h)))
  | substitution text =>
      exact keeps_ite (keeps_some (enter _ _ (add _ _ h))) <| keeps_ite keeps_none
        (keeps_some (enter _ _ h))

theorem read_keeps (add : ∀ l p, P l → P (l.add p)) (enter : ∀ l mode, P l → P (l.enter mode))
    (close : ∀ l, P l → P l.close) (h : P l) (read : l.read text = some k) : P k := by
  induction text generalizing l with
  | nil => exact Option.some.inj read ▸ h
  | cons c text ih =>
      rw [read_cons] at read
      obtain ⟨next_, step, later⟩ := Option.bind_eq_some_iff.mp read
      exact ih (step_keeps add enter close h step) later

theorem finish_keeps (add : ∀ l p, P l → P (l.add p)) (close : ∀ l, P l → P l.close) (h : P l)
    {words : List (List Piece)} (finish : l.finish = some words) :
    ∃ k, P k ∧ k.current = none ∧ k.done = words := by
  obtain ⟨cut, current, mode⟩ := l
  cases mode with
  | plain => exact ⟨_, close _ h, rfl, Option.some.inj finish⟩
  | dollar name =>
      simp only [Lexer.finish] at finish
      split_ifs at finish
      exact ⟨_, close _ (add _ _ h), rfl, Option.some.inj finish⟩
  | single | double | escaped | doubleEscaped | substitution text => cases finish

/-- The first word begins with this piece. -/
def Opens (p : Piece) (l : Lexer) : Prop :=
  ∃ ps rest, l.done ++ l.current.toList = (p :: ps) :: rest

theorem Opens.add {p : Piece} (l : Lexer) (q : Piece) (h : Opens p l) : Opens p (l.add q) := by
  obtain ⟨ps, rest, whole⟩ := h
  obtain ⟨cut, current, mode⟩ := l
  cases cut with
  | nil =>
      cases current with
      | none => cases whole
      | some ps' =>
          simp only [List.nil_append, Option.toList_some, List.cons.injEq] at whole
          obtain ⟨rfl, _⟩ := whole
          exact ⟨ps ++ [q], [], rfl⟩
  | cons w cut =>
      simp only [List.cons_append, List.cons.injEq] at whole
      exact ⟨ps, _, by rw [Lexer.add]; simp only [List.cons_append, whole.1]; rfl⟩

theorem Opens.close {p : Piece} (l : Lexer) (h : Opens p l) : Opens p l.close := by
  obtain ⟨ps, rest, whole⟩ := h
  exact ⟨ps, rest, by simp [Lexer.close, whole]⟩

/-- A word begun with a piece is the first of its line. -/
theorem lex_opens {p : Piece} {words : List (List Piece)} (h : Opens p l)
    (read : (l.read text).bind Lexer.finish = some words) : ∃ ps rest, words = (p :: ps) :: rest := by
  obtain ⟨k, reads, finish⟩ := Option.bind_eq_some_iff.mp read
  have opens := read_keeps Opens.add (fun _ _ h => h) Opens.close h reads
  obtain ⟨last, ⟨ps, rest, whole⟩, none, rfl⟩ := finish_keeps Opens.add Opens.close opens finish
  rw [none, Option.toList_none, List.append_nil] at whole
  exact ⟨ps, rest, whole⟩

end Invariants

section Literally
variable {l k : Lexer} {c : Char} {text : Text} {m : Machine}

/-- What quotes the text after it or begins an expansion. -/
def isQuoting (c : Char) : Bool := c = '\'' || c = '"' || c = '\\' || c = '$'

/-- Outside quotes, with nothing but parameters and solid literals in its words. -/
structure Solid (l : Lexer) : Prop where
  plain : l.mode = .plain
  pieces : ∀ w ∈ l.done ++ l.current.toList, ∀ p ∈ w,
    (∃ name, p = .param name) ∨ ∃ c, p = .literal c ∧ isSeparator c = false

def HasLiteral (l : Lexer) : Prop := ∃ w ∈ l.done ++ l.current.toList, ∃ c, .literal c ∈ w

theorem step_solid (h : Solid l) (bare : isQuoting c = false) (step : l.step c = some k) :
    Solid k ∧ isOperator c = false ∧ (HasLiteral l ∨ isBlank c = false → HasLiteral k) := by
  obtain ⟨cut, current, mode⟩ := l
  obtain ⟨rfl, pieces⟩ := h
  simp only [isQuoting, Bool.or_eq_false_iff, decide_eq_false_iff_not] at bare
  simp only [Lexer.step, Lexer.stepPlain, if_neg bare.1.1.1, if_neg bare.1.1.2,
    if_neg bare.1.2, if_neg bare.2] at step
  split_ifs at step with blank operator begins <;> obtain rfl := Option.some.inj step
  · refine ⟨⟨rfl, by simpa [Lexer.close] using pieces⟩, ?_, ?_⟩
    · simp only [Shell.isBlank, Bool.or_eq_true, decide_eq_true_eq] at blank
      obtain rfl | rfl := blank <;> rfl
    rintro (has | other)
    · simpa [HasLiteral, Lexer.close] using has
    · exact absurd blank (by simp [other])
  · have solid : isSeparator c = false := by
      simp only [Shell.isBlank, isOperator] at blank operator
      simp_all [isSeparator]
    refine ⟨⟨rfl, ?_⟩, by simpa using operator, fun _ => ?_⟩
    · intro w hw p hp
      cases List.mem_append.mp hw with
      | inl before => exact pieces w (List.mem_append_left _ before) p hp
      | inr last =>
          obtain rfl := Option.some.inj (Option.mem_toList.mp last)
          cases List.mem_append.mp hp with
          | inr new => exact .inr ⟨c, List.mem_singleton.mp new, solid⟩
          | inl old =>
              cases current with
              | none => cases old
              | some ps => exact pieces ps (by simp) p old
    · exact ⟨_, List.mem_append_right _ (Option.mem_toList.mpr rfl), c, by simp⟩

theorem read_solid (h : Solid l) (bare : text.all (!isQuoting ·) = true)
    (read : l.read text = some k) :
    Solid k ∧ text.all (!isOperator ·) = true ∧
      (HasLiteral l ∨ (∃ c ∈ text, isBlank c = false) → HasLiteral k) := by
  induction text generalizing l with
  | nil =>
      obtain rfl := Option.some.inj read
      exact ⟨h, rfl, fun has => has.elim id fun ⟨_, nowhere, _⟩ => by cases nowhere⟩
  | cons c text ih =>
      rw [List.all_cons, Bool.and_eq_true, Bool.not_eq_true'] at bare
      rw [read_cons] at read
      obtain ⟨mid, step, later⟩ := Option.bind_eq_some_iff.mp read
      obtain ⟨solid, operator, has⟩ := step_solid h bare.1 step
      obtain ⟨ends, operators, hasLater⟩ := ih solid bare.2 later
      refine ⟨ends, by simp [operator, operators], fun any => hasLater ?_⟩
      obtain before | ⟨d, hd, other⟩ := any
      · exact .inl (has (.inl before))
      · cases List.mem_cons.mp hd with
        | inl here => exact .inl (has (.inr (here ▸ other)))
        | inr there => exact .inr ⟨d, there, other⟩

theorem fields_kept {cells : List Cell} {current : Option Field} {field : Field}
    (h : field ∈ fields current cells) {x : Char × Bool} (hx : x ∈ field) :
    x ∈ current.getD [] ∨ .kept x.1 x.2 ∈ cells := by
  induction cells generalizing current with
  | nil =>
      obtain rfl := Option.mem_toList.mp h
      exact .inl hx
  | cons cell rest ih =>
      cases cell with
      | gap =>
          cases List.mem_append.mp h with
          | inl first =>
              obtain rfl := Option.mem_toList.mp first
              exact .inl hx
          | inr later =>
              exact (ih later).elim (fun none => by cases none) fun there =>
                .inr (List.mem_cons_of_mem _ there)
      | mark =>
          exact (ih h).imp id (List.mem_cons_of_mem _)
      | kept c active =>
          cases ih h with
          | inr there => exact .inr (List.mem_cons_of_mem _ there)
          | inl here =>
              cases List.mem_append.mp here with
              | inl old => exact .inl old
              | inr new => rw [List.mem_singleton.mp new]; exact .inr List.mem_cons_self

theorem fields_some {cells : List Cell} {current : Option Field}
    (h : current ≠ none ∨ ∃ c active, .kept c active ∈ cells) : fields current cells ≠ [] := by
  induction cells generalizing current with
  | nil =>
      cases current with
      | none => exact h.elim (absurd rfl) fun ⟨_, _, nowhere⟩ => by cases nowhere
      | some field => exact List.cons_ne_nil _ _
  | cons cell rest ih =>
      cases cell with
      | gap =>
          cases current with
          | some field => exact List.cons_ne_nil _ _
          | none =>
              refine ih (.inr ?_)
              obtain none | ⟨c, active, there⟩ := h
              · exact absurd rfl none
              · exact ⟨c, active, (List.mem_cons.mp there).resolve_left (by simp)⟩
      | mark => exact ih (.inl (Option.some_ne_none _))
      | kept c active => exact ih (.inl (Option.some_ne_none _))

/-- No path matches any pattern. -/
def Machine.Pathless (m : Machine) : Prop := ∀ field, m.paths field = []

theorem resolve_pathless (h : m.Pathless) (field : Field) : m.resolve field = [field.text] := by
  rw [Machine.resolve, h, if_neg (fun both => both.2 rfl)]

/-- A word of parameters and solid literals comes out without separators. -/
theorem word_solid (h : m.Pathless) {pieces : List Piece} {outs : List Text}
    (solid : ∀ p ∈ pieces, (∃ name, p = .param name) ∨ ∃ c, p = .literal c ∧ isSeparator c = false)
    (shown : m.word pieces = some outs) :
    (∀ out ∈ outs, out.all (!isSeparator ·) = true) ∧
      ((∃ c, .literal c ∈ pieces) → outs ≠ []) := by
  obtain ⟨cells, expand, whole⟩ := Option.map_eq_some_iff.mp shown
  have kept : (∀ c active, .kept c active ∈ cells.flatten → isSeparator c = false) ∧
      ∀ c, .literal c ∈ pieces → .kept c true ∈ cells.flatten := by
    clear shown whole
    induction pieces generalizing cells with
    | nil =>
        obtain rfl := Option.some.inj expand
        constructor
        · intro c active nowhere
          cases nowhere
        · intro c nowhere
          cases nowhere
    | cons p pieces ih =>
        rw [List.mapM_cons] at expand
        obtain ⟨first, here, rest⟩ := Option.bind_eq_some_iff.mp expand
        obtain ⟨later, there, same⟩ := Option.bind_eq_some_iff.mp rest
        obtain rfl := Option.some.inj same
        obtain ⟨keeps, has⟩ := ih (fun p hp => solid p (List.mem_cons_of_mem _ hp)) _ there
        rw [List.flatten_cons]
        constructor
        · intro c active hc
          cases List.mem_append.mp hc with
          | inr old => exact keeps c active old
          | inl new =>
              obtain ⟨name, rfl⟩ | ⟨d, rfl, bare⟩ := solid p List.mem_cons_self
              · obtain rfl := Option.some.inj here
                obtain ⟨d, _, made⟩ := List.mem_map.mp new
                unfold expanded at made
                split at made
                · cases made
                · next bare => cases made; simpa using bare
              · obtain rfl := Option.some.inj here
                cases List.mem_singleton.mp new
                exact bare
        · intro c hc
          cases List.mem_cons.mp hc with
          | inr old => exact List.mem_append_right _ (has c old)
          | inl new =>
              subst new
              obtain rfl := Option.some.inj here
              exact List.mem_append_left _ (List.mem_singleton.mpr rfl)
  subst whole
  have texts : (fields none cells.flatten).flatMap m.resolve =
      (fields none cells.flatten).map Field.text := by
    induction fields none cells.flatten with
    | nil => rfl
    | cons field rest ih => rw [List.flatMap_cons, resolve_pathless h, ih]; rfl
  rw [texts]
  constructor
  · intro out hout
    obtain ⟨field, hfield, rfl⟩ := List.mem_map.mp hout
    refine List.all_eq_true.mpr fun c hc => ?_
    obtain ⟨x, hx, rfl⟩ := List.mem_map.mp hc
    have there := (fields_kept hfield hx).resolve_left (by simp)
    simpa using kept.1 _ _ there
  · rintro ⟨c, hc⟩ none
    exact fields_some (.inr ⟨c, true, kept.2 c hc⟩) (List.map_eq_nil_iff.mp none)

theorem mapM_some {α β : Type} {f : α → Option β} {xs : List α} {ys : List β}
    (h : xs.mapM f = some ys) :
    (∀ y ∈ ys, ∃ x ∈ xs, f x = some y) ∧ ∀ x ∈ xs, ∃ y ∈ ys, f x = some y := by
  induction xs generalizing ys with
  | nil =>
      obtain rfl := Option.some.inj h
      constructor
      · intro y nowhere
        cases nowhere
      · intro x nowhere
        cases nowhere
  | cons x xs ih =>
      rw [List.mapM_cons] at h
      obtain ⟨y, here, rest⟩ := Option.bind_eq_some_iff.mp h
      obtain ⟨ys', there, same⟩ := Option.bind_eq_some_iff.mp rest
      obtain rfl := Option.some.inj same
      obtain ⟨images, values⟩ := ih there
      constructor
      · intro z hz
        cases List.mem_cons.mp hz with
        | inl first => exact ⟨x, List.mem_cons_self, first ▸ here⟩
        | inr later =>
            obtain ⟨w, hw, image⟩ := images z later
            exact ⟨w, List.mem_cons_of_mem _ hw, image⟩
      · intro w hw
        cases List.mem_cons.mp hw with
        | inl first => exact ⟨y, List.mem_cons_self, first ▸ here⟩
        | inr later =>
            obtain ⟨z, hz, image⟩ := values w later
            exact ⟨z, List.mem_cons_of_mem _ hz, image⟩

/-- Where a line starts with parameters and solid literals up to a blank, so does what it
is called with. -/
theorem first_solid (h : m.Pathless) {line more : Text} (read : Lexer.start.read line = some k)
    (solid : Solid k) (has : HasLiteral k) {out : Text} {outs : List Text}
    (called : m.evaluate (line ++ ' ' :: more) = some (out :: outs)) :
    out.all (!isSeparator ·) = true := by
  have cut : k.step ' ' = some ⟨k.done ++ k.current.toList, none, .plain⟩ := by
    obtain ⟨done, current, mode⟩ := k
    obtain ⟨rfl, _⟩ := solid
    rfl
  rw [Machine.evaluate, lex, read_append, read, Option.bind_some, read_cons, cut,
    Option.bind_some, lex_after] at called
  obtain ⟨words, lexed, whole⟩ := Option.bind_eq_some_iff.mp called
  obtain ⟨rest, _, rfl⟩ := Option.map_eq_some_iff.mp lexed
  obtain ⟨fields, shown, flat⟩ := Option.map_eq_some_iff.mp whole
  rw [List.mapM_append] at shown
  obtain ⟨here, first, later⟩ := Option.bind_eq_some_iff.mp shown
  obtain ⟨there, _, same⟩ := Option.bind_eq_some_iff.mp later
  obtain rfl := Option.some.inj same
  obtain ⟨images, values⟩ := mapM_some first
  obtain ⟨w, hw, c, literal⟩ := has
  obtain ⟨texts, listed, word⟩ := values w hw
  have some_ : here.flatten ≠ [] := fun none => by
    have empty := List.flatten_eq_nil_iff.mp none texts listed
    exact (word_solid h (solid.pieces w hw) word).2 ⟨c, literal⟩ empty
  have among : out ∈ here.flatten := by
    rw [List.flatten_append] at flat
    cases starts : here.flatten with
    | nil => exact absurd starts some_
    | cons o os =>
        rw [starts, List.cons_append] at flat
        rw [← (List.cons.inj flat).1]
        exact List.mem_cons_self
  obtain ⟨texts, listed, ho⟩ := List.mem_flatten.mp among
  obtain ⟨w, hw, word⟩ := images texts listed
  exact (word_solid h (solid.pieces w hw) word).1 out ho

theorem fields_grow (current : Field) (cells : List Cell) :
    ∃ field rest, fields (some current) cells = field :: rest ∧ current <+: field := by
  induction cells generalizing current with
  | nil => exact ⟨current, [], rfl, List.prefix_rfl⟩
  | cons cell cells ih =>
      cases cell with
      | gap => exact ⟨current, _, rfl, List.prefix_rfl⟩
      | mark => exact ih current
      | kept c active =>
          obtain ⟨field, rest, whole, front⟩ := ih (current ++ [(c, active)])
          exact ⟨field, rest, whole, (List.prefix_append _ _).trans front⟩

theorem fields_kept_front {value : Text} (some_ : value ≠ []) (cells : List Cell) :
    fields none (value.map (Cell.kept · true) ++ cells) =
      fields (some (value.map (·, true))) cells := by
  have later : ∀ (current : Field) (value : Text),
      fields (some current) (value.map (Cell.kept · true) ++ cells) =
        fields (some (current ++ value.map (·, true))) cells := by
    intro current value
    induction value generalizing current with
    | nil => rw [List.map_nil, List.map_nil, List.append_nil, List.nil_append]
    | cons c value ih =>
        rw [List.map_cons, List.map_cons, List.cons_append, fields, ih]
        simp
  obtain ⟨c, rest, rfl⟩ := List.exists_cons_of_ne_nil some_
  rw [List.map_cons, List.cons_append, fields, later]
  rfl

/-- Where a line's first word begins with a parameter whose value has no separator, what
it is called with begins with that value. -/
theorem first_param (h : m.Pathless) {name line : Text} {l : Lexer}
    (opens : Opens (.param name) l) (some_ : m.var name ≠ [])
    (value : (m.var name).all (!isSeparator ·) = true) {words : List (List Piece)}
    (read : (l.read line).bind Lexer.finish = some words) {out : Text} {outs : List Text}
    (called : (words.mapM m.word).map List.flatten = some (out :: outs)) :
    m.var name <+: out := by
  obtain ⟨ps, rest, rfl⟩ := lex_opens opens read
  obtain ⟨fields_, shown, flat⟩ := Option.map_eq_some_iff.mp called
  rw [List.mapM_cons] at shown
  obtain ⟨texts, word, later⟩ := Option.bind_eq_some_iff.mp shown
  obtain ⟨there, _, same⟩ := Option.bind_eq_some_iff.mp later
  obtain rfl := Option.some.inj same
  obtain ⟨cells, expand, whole⟩ := Option.map_eq_some_iff.mp word
  rw [List.mapM_cons] at expand
  obtain ⟨front, here, rest'⟩ := Option.bind_eq_some_iff.mp expand
  obtain ⟨back, _, same⟩ := Option.bind_eq_some_iff.mp rest'
  obtain rfl := Option.some.inj same
  obtain rfl := Option.some.inj here
  subst whole
  rw [List.flatten_cons, List.flatten_cons, expanded_unbroken value,
    fields_kept_front some_] at flat
  obtain ⟨field, more, grown, front⟩ := fields_grow ((m.var name).map (·, true)) back.flatten
  rw [grown, List.flatMap_cons, resolve_pathless h] at flat
  obtain rfl : field.text = out := (List.cons.inj flat).1
  have texts := front.map Prod.fst
  rw [List.map_map] at texts
  exact (List.map_id (m.var name)) ▸ texts

end Literally

end Shell
