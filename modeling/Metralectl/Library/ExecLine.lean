import Metralectl.Library.Shell

/-!
A command line as systemd reads it. It is cut into words at the blanks outside quotes, with escapes
in the manner of C; then what follows a percent sign is replaced in every word, and at last the
variables, which may make a word into several or none.
-/
namespace ExecLine
open Shell

def isSeparator (c : Char) : Bool := c ∈ " \t\n\r".toList

/-- What follows a backslash: it stands for a character, more of it is needed, or it is no escape.
An escape of a lone byte is no text. -/
inductive Escape where
  | char (c : Char)
  | more
  | unknown
  | byte
deriving DecidableEq

def digitValue (c : Char) : Option Nat :=
  if '0' ≤ c ∧ c ≤ '9' then some (c.toNat - '0'.toNat)
  else if 'a' ≤ c ∧ c ≤ 'f' then some (c.toNat - 'a'.toNat + 10)
  else if 'A' ≤ c ∧ c ≤ 'F' then some (c.toNat - 'A'.toNat + 10)
  else none

/-- The number that digits to a base say, if all of them are digits. -/
def number (base : Nat) (digits : Text) : Option Nat :=
  digits.foldl (fun n c => n.bind fun n =>
    ((digitValue c).filter (· < base)).map (base * n + ·)) (some 0)

/-- No escape stands for the character zero, nor for half of a surrogate pair. -/
def scalar (n : Nat) : Escape :=
  if n = 0 then .unknown
  else if n.isValidChar then .char (Char.ofNat n)
  else .unknown

def byte (n : Nat) : Escape :=
  if n = 0 ∨ 255 < n then .unknown else if n < 128 then .char (Char.ofNat n) else .byte

/-- A fixed count of digits, as far as they have been seen. -/
def digits (base count : Nat) (value : Nat → Escape) (seen : Text) : Escape :=
  match number base seen with
  | none => .unknown
  | some n => if seen.length < count then .more else value n

def unescape : Text → Escape
  | [] => .more
  | ['a'] => .char (Char.ofNat 7)
  | ['b'] => .char (Char.ofNat 8)
  | ['f'] => .char (Char.ofNat 12)
  | ['n'] => .char '\n'
  | ['r'] => .char '\r'
  | ['t'] => .char '\t'
  | ['v'] => .char (Char.ofNat 11)
  | ['\\'] => .char '\\'
  | ['"'] => .char '"'
  | ['\''] => .char '\''
  | ['s'] => .char ' '
  | 'x' :: seen => digits 16 2 byte seen
  | 'u' :: seen => digits 16 4 scalar seen
  | 'U' :: seen => digits 16 8 scalar seen
  | seen => digits 8 3 byte seen

/-- A word as it stands in the line, and what it reads as. -/
structure Word where
  raw : Text
  text : Text
deriving DecidableEq

/-- The words read so far, the one being read, the quote that is open, and what has been seen of
an escape. -/
structure Reader where
  done : List Word
  word : Option Word
  quote : Option Char
  escape : Option Text
deriving DecidableEq

namespace Reader

def start (done : List Word) : Reader := ⟨done, none, none, none⟩

def current (r : Reader) : Word := r.word.getD ⟨[], []⟩

/-- One more character of the line, and what it puts. -/
def put (r : Reader) (raw text : Text) : Reader :=
  { r with word := some ⟨r.current.raw ++ raw, r.current.text ++ text⟩ }

def close (r : Reader) : Reader := ⟨r.done ++ r.word.toList, none, r.quote, r.escape⟩

def stepPlain (r : Reader) (c : Char) : Reader :=
  if c = '\\' then { r.put [c] [] with escape := some [] }
  else if r.quote = some c then { r.put [c] [] with quote := none }
  else if r.quote = none ∧ (c = '"' ∨ c = '\'') then { r.put [c] [] with quote := some c }
  else if r.quote = none ∧ isSeparator c = true then r.close
  else r.put [c] [c]

/-- What turns out to be no escape stands as it is, and the backslash before it. -/
def step (r : Reader) (c : Char) : Option Reader :=
  match r.escape with
  | none => some (r.stepPlain c)
  | some seen =>
      match unescape (seen ++ [c]) with
      | .char e => some { r.put [c] [e] with escape := none }
      | .more => some { r.put [c] [] with escape := some (seen ++ [c]) }
      | .byte => none
      | .unknown =>
          if seen = [] then some { r.put [c] ['\\', c] with escape := none }
          else some ({ r.put [] ('\\' :: seen) with escape := none }.stepPlain c)

def read (r : Reader) (line : Text) : Option Reader := line.foldlM step r

/-- An escape that the line ends in stands as it is. -/
def flush (r : Reader) : Reader :=
  match r.escape with
  | none => r
  | some seen => r.put [] ('\\' :: seen)

/-- The words, if no quote is left open. -/
def finish (r : Reader) : Option (List Word) :=
  if r.flush.quote = none then some (r.flush.done ++ r.flush.word.toList) else none

end Reader

def words (line : Text) : Option (List Word) := ((Reader.start []).read line).bind Reader.finish

/-- A semicolon alone parts two commands, and one with a backslash is an argument. -/
def Word.parts (w : Word) : Bool := w.raw = [';']

def Word.argument (w : Word) : Text := if w.raw = ['\\', ';'] then [';'] else w.text

def commands (ws : List Word) : List (List Word) :=
  ((ws.splitOnP Word.parts).map fun c => c.dropWhile fun w => w.text = [';']).filter (· ≠ [])

/-- What stands for what: the letters that specify something and what each does, and the variables,
alone in a word or in part of one. -/
structure Meaning where
  specifier : Char → Text
  split : Text → List Text
  value : Text → Text

/-- The letters of a unit file. -/
def unitLetters (c : Char) : Bool := c ∈ "aAbBCdDEfgGhHiIjJlLmMnNopPqsStTuUvVwWyY".toList

/-- Replace what percent signs stand for; `percent` is one that has been read. -/
def specify (letters : Char → Bool) (m : Meaning) : (percent : Bool) → Text → Text
  | false, [] => []
  | true, [] => ['%']
  | false, c :: rest =>
      if c = '%' then specify letters m true rest else c :: specify letters m false rest
  | true, c :: rest =>
      if c = '%' then '%' :: specify letters m false rest
      else if letters c then m.specifier c ++ specify letters m false rest
      else '%' :: c :: specify letters m false rest

/-- Past nothing, past a dollar sign, or in its braces, with what has been read there. -/
inductive Mode where
  | word
  | dollar
  | braces (name : Text)

/-- Replace the variables in a text. -/
def replace (m : Meaning) : Mode → Text → Text
  | .word, [] => []
  | .dollar, [] => ['$']
  | .braces name, [] => '$' :: '{' :: name
  | .word, c :: rest => if c = '$' then replace m .dollar rest else c :: replace m .word rest
  | .dollar, c :: rest =>
      if c = '{' then replace m (.braces []) rest
      else if c = '$' then '$' :: replace m .word rest
      else '$' :: c :: replace m .word rest
  | .braces name, c :: rest =>
      if c = '}' then m.value name ++ replace m .word rest
      else if c = ':' then '$' :: '{' :: name ++ ':' :: replace m .word rest
      else replace m (.braces (name ++ [c])) rest

/-- A word that is a variable alone becomes what its value is split into. -/
def isVariable : Text → Bool
  | '$' :: '$' :: _ | '$' :: '{' :: _ => false
  | '$' :: _ => true
  | _ => false

def expand (m : Meaning) (text : Text) : List Text :=
  if isVariable text then m.split (text.drop 1) else [replace m .word text]

/-- What may stand before a program: `:` turns the variables off, and after `@` the next word is
what the program is told it is called. -/
def isPrefix (c : Char) : Bool := c ∈ "@-:+!".toList

def argv (letters : Char → Bool) (m : Meaning) : List Word → List Text
  | [] => []
  | first :: rest =>
      let marks := first.text.takeWhile isPrefix
      let path := specify letters m false (first.text.dropWhile isPrefix)
      let args := rest.map fun w => specify letters m false w.argument
      let all := if '@' ∈ marks then args else path :: args
      if ':' ∈ marks then all else all.flatMap (expand m)

/-- The commands of a line, each as the words its program gets. -/
def parse (letters : Char → Bool) (m : Meaning) (line : Text) : Option (List (List Text)) :=
  (words line).map fun ws => (commands ws).map (argv letters m)

section Expanding
variable {letters : Char → Bool} {m : Meaning} {percent : Bool} {mode : Mode} {text : Text}

/-- Somewhere a percent sign is read together with what follows it. -/
def specifies (letters : Char → Bool) : (percent : Bool) → Text → Bool
  | _, [] => false
  | false, c :: rest => specifies letters (c = '%') rest
  | true, c :: rest => c = '%' || letters c || specifies letters false rest

/-- Somewhere a dollar sign is read together with what follows it. -/
def mentions : Mode → Text → Bool
  | _, [] => false
  | .word, c :: rest => if c = '$' then mentions .dollar rest else mentions .word rest
  | .dollar, c :: rest =>
      if c = '{' then mentions (.braces []) rest else c = '$' || mentions .word rest
  | .braces name, c :: rest =>
      c = '}' || if c = ':' then mentions .word rest else mentions (.braces name) rest

/-- What has been read and not been written. -/
def Mode.pending : Mode → Text
  | .word => []
  | .dollar => ['$']
  | .braces name => '$' :: '{' :: name

theorem specify_same (h : specifies letters percent text = false) :
    specify letters m percent text = (if percent then ['%'] else []) ++ text := by
  induction text generalizing percent with
  | nil => cases percent <;> rfl
  | cons c rest ih =>
      cases percent with
      | false =>
          rw [specifies] at h
          by_cases sign : c = '%'
          · simp only [sign, decide_true] at h
            simp [specify, sign, ih h]
          · simp only [sign, decide_false] at h
            simp [specify, sign, ih h]
      | true =>
          simp only [specifies, Bool.or_eq_false_iff, decide_eq_false_iff_not] at h
          obtain ⟨⟨sign, letter⟩, later⟩ := h
          simp [specify, sign, letter, ih later]

theorem mentions_name (name name' : Text) :
    mentions (.braces name) text = mentions (.braces name') text := by
  induction text with
  | nil => rfl
  | cons c rest ih => simp only [mentions, ih]

theorem replace_same (h : mentions mode text = false) :
    replace m mode text = mode.pending ++ text := by
  induction text generalizing mode with
  | nil => cases mode <;> simp [replace, Mode.pending]
  | cons c rest ih =>
      cases mode with
      | word =>
          rw [mentions] at h
          by_cases sign : c = '$'
          · rw [if_pos sign] at h
            simp [replace, Mode.pending, sign, ih h]
          · rw [if_neg sign] at h
            simp [replace, Mode.pending, sign, ih h]
      | dollar =>
          rw [mentions] at h
          by_cases brace : c = '{'
          · rw [if_pos brace] at h
            simp [replace, Mode.pending, brace, ih h]
          · simp only [if_neg brace, Bool.or_eq_false_iff, decide_eq_false_iff_not] at h
            simp [replace, Mode.pending, brace, h.1, ih h.2]
      | braces name =>
          simp only [mentions, Bool.or_eq_false_iff, decide_eq_false_iff_not] at h
          obtain ⟨brace, h⟩ := h
          by_cases colon : c = ':'
          · rw [if_pos colon] at h
            simp [replace, Mode.pending, colon, ih h]
          · rw [if_neg colon, mentions_name name (name ++ [c])] at h
            simp [replace, Mode.pending, brace, colon, ih h]

/-- Nothing in a text is replaced, whatever it could mean. -/
structure Literal (letters : Char → Bool) (text : Text) : Prop where
  specifies : specifies letters false text = false
  mentions : mentions .word text = false
  variable_ : isVariable text = false

theorem Literal.expand (h : Literal letters text) :
    ExecLine.expand m (specify letters m false text) = [text] := by
  rw [specify_same h.specifies]
  simp [ExecLine.expand, h.variable_, replace_same h.mentions, Mode.pending]

/-- A text that stands for everything, longer than any there was. -/
def filler (n : Nat) : Text := List.replicate (n + 1) 'x'

def drowned (n : Nat) : Meaning := ⟨fun _ => filler n, fun _ => [filler n], fun _ => filler n⟩

def isOrdinary (c : Char) : Bool := c ≠ '%' && c ≠ '$'

/-- What becomes of a text when everything in it stands for the filler: the filler is in it, or the
text has lost some of its signs and nothing else. -/
def Fate (n : Nat) (text out : Text) (changed : Prop) : Prop :=
  n < out.count 'x' ∨ (out.Sublist text ∧ out.filter isOrdinary = text.filter isOrdinary ∧
    (changed → out.length < text.length))

section Fates
variable {n : Nat} {out out' : Text} {c : Char} {changed changed' : Prop}

theorem Fate.refl (n : Nat) (text : Text) : Fate n text text False :=
  Or.inr ⟨List.Sublist.refl _, rfl, False.elim⟩

theorem Fate.imp (h : Fate n text out changed) (weaker : changed' → changed) :
    Fate n text out changed' :=
  h.imp_right fun ⟨sub, kept, less⟩ => ⟨sub, kept, fun h => less (weaker h)⟩

theorem Fate.cons (c : Char) (h : Fate n text out changed) :
    Fate n (c :: text) (c :: out) changed := by
  obtain many | ⟨sub, kept, less⟩ := h
  · exact Or.inl (Nat.lt_of_lt_of_le many (List.count_le_count_cons ..))
  · refine Or.inr ⟨sub.cons_cons c, ?_, fun h => Nat.succ_lt_succ (less h)⟩
    rw [List.filter_cons, List.filter_cons, kept]

theorem Fate.append (before : Text) (h : Fate n text out changed) :
    Fate n (before ++ text) (before ++ out) changed := by
  induction before with
  | nil => exact h
  | cons c rest ih => exact ih.cons c

theorem Fate.lose (sign : isOrdinary c = false) (h : Fate n text out changed) :
    Fate n (c :: text) out changed' := by
  obtain many | ⟨sub, kept, _⟩ := h
  · exact Or.inl many
  · refine Or.inr ⟨sub.cons c, ?_, fun _ => Nat.lt_succ_of_le sub.length_le⟩
    rw [List.filter_cons, if_neg (by simp [sign]), kept]

theorem Fate.filler (n : Nat) (text out : Text) : Fate n text (filler n ++ out) changed := by
  left
  rw [List.count_append, ExecLine.filler, List.count_replicate_self]
  omega

theorem Fate.trans (first : Fate n text out changed) (second : Fate n out out' changed') :
    Fate n text out' (changed ∨ changed') := by
  obtain many | ⟨sub', kept', less'⟩ := second
  · exact Or.inl many
  · obtain many | ⟨sub, kept, less⟩ := first
    · left
      have same : out'.count 'x' = out.count 'x' := by
        have count (l : Text) : l.count 'x' = (l.filter isOrdinary).count 'x' :=
          (List.count_filter rfl).symm
        rw [count out', count out, kept']
      rwa [same]
    · refine Or.inr ⟨sub'.trans sub, kept'.trans kept, fun h => ?_⟩
      cases h with
      | inl h => exact Nat.lt_of_le_of_lt sub'.length_le (less h)
      | inr h => exact Nat.lt_of_lt_of_le (less' h) sub.length_le

/-- A text that has become another one is not what it was. -/
theorem Fate.ne {a : Text} (h : Fate n text out changed) (short : a.length ≤ n)
    (other : (changed ∧ text = a) ∨ (∃ c, isOrdinary c = true ∧ c ∈ text ∧ c ∉ a) ∨
      ∃ c, c ∉ text ∧ c ∈ a) : out ≠ a := by
  rintro rfl
  obtain many | ⟨sub, kept, less⟩ := h
  · exact absurd (Nat.lt_of_lt_of_le many List.count_le_length) (Nat.not_lt.mpr short)
  · obtain ⟨h, rfl⟩ | ⟨c, ordinary, there, absent⟩ | ⟨c, absent, there⟩ := other
    · exact absurd (less h) (Nat.lt_irrefl _)
    · have found : c ∈ text.filter isOrdinary := List.mem_filter.mpr ⟨there, ordinary⟩
      rw [← kept] at found
      exact absent (List.mem_of_mem_filter found)
    · exact absent (sub.subset there)

theorem specify_drowned (letters : Char → Bool) (n : Nat) (percent : Bool) (text : Text) :
    Fate n ((if percent then ['%'] else []) ++ text) (specify letters (drowned n) percent text)
      (specifies letters percent text = true) := by
  induction text generalizing percent with
  | nil => cases percent <;> exact (Fate.refl n _).imp nofun
  | cons c rest ih =>
      cases percent with
      | false =>
          rw [specify, specifies]
          by_cases sign : c = '%'
          · rw [if_pos sign, sign]
            exact ih true
          · rw [if_neg sign, decide_eq_false sign]
            exact (ih false).cons c
      | true =>
          rw [specify, specifies]
          by_cases sign : c = '%'
          · rw [if_pos sign, sign]
            exact Fate.lose rfl ((ih false).cons '%')
          · rw [if_neg sign, decide_eq_false sign]
            cases letter : letters c with
            | true => exact Fate.filler n _ _
            | false => exact ((ih false).cons c).cons '%'

theorem replace_drowned (n : Nat) (mode : Mode) (text : Text) :
    Fate n (mode.pending ++ text) (replace (drowned n) mode text) (mentions mode text = true) := by
  induction text generalizing mode with
  | nil =>
      cases mode with
      | word | dollar => exact (Fate.refl n _).imp nofun
      | braces name => simpa [replace, Mode.pending] using (Fate.refl n _).imp nofun
  | cons c rest ih =>
      cases mode with
      | word =>
          rw [replace, mentions]
          by_cases sign : c = '$'
          · rw [if_pos sign, if_pos sign, sign]
            exact ih .dollar
          · rw [if_neg sign, if_neg sign]
            exact (ih .word).cons c
      | dollar =>
          rw [replace, mentions]
          by_cases brace : c = '{'
          · rw [if_pos brace, if_pos brace, brace]
            exact ih (.braces [])
          · rw [if_neg brace, if_neg brace]
            by_cases sign : c = '$'
            · rw [if_pos sign, sign]
              exact Fate.lose rfl ((ih .word).cons '$')
            · rw [if_neg sign, decide_eq_false sign]
              exact ((ih .word).cons c).cons '$'
      | braces name =>
          rw [replace, mentions]
          by_cases brace : c = '}'
          · rw [if_pos brace]
            exact Fate.filler n _ _
          · rw [if_neg brace, decide_eq_false brace, Bool.false_or]
            by_cases colon : c = ':'
            · rw [if_pos colon, if_pos colon, colon]
              exact ((ih .word).cons ':').append ('$' :: '{' :: name)
            · rw [if_neg colon, if_neg colon, mentions_name name (name ++ [c])]
              simpa [Mode.pending] using ih (.braces (name ++ [c]))

/-- A word that stands for anything else than itself may become one word that is not it. -/
theorem expand_drowned (letters : Char → Bool) (n : Nat) (text : Text) :
    ∃ out, expand (drowned n) (specify letters (drowned n) false text) = [out] ∧
      Fate n text out (¬ Literal letters text) := by
  have first := specify_drowned letters n false text
  rw [if_neg nofun, List.nil_append] at first
  unfold expand
  split
  · refine ⟨filler n, rfl, ?_⟩
    simpa using Fate.filler n text []
  · next notVariable =>
      refine ⟨_, rfl, (first.trans (replace_drowned n .word _)).imp fun meant => ?_⟩
      by_contra neither
      obtain ⟨notSpecified, notMentioned⟩ := not_or.mp neither
      have specified := (Bool.not_eq_true _).mp notSpecified
      have same : specify letters (drowned n) false text = text := by simpa using specify_same specified
      rw [same] at notMentioned notVariable
      exact meant ⟨specified, by simpa using notMentioned, by simpa using notVariable⟩

end Fates
end Expanding

section Reading
variable {r r' : Reader} {a b line text : Text} {w : Word} {done : List Word} {c : Char}

theorem read_append : r.read (a ++ b) = (r.read a).bind fun r => r.read b := List.foldlM_append

theorem read_cons : r.read (c :: line) = (r.step c).bind fun r => r.read line := List.foldlM_cons

/-- A word as it reads wherever one may begin: whole, and with nothing open past it. -/
def Reads (text : Text) (w : Word) : Prop :=
  ∀ done, (Reader.start done).read text = some ⟨done, some w, none, none⟩

/-- Past a word and the blank after it. -/
theorem Reads.past (h : Reads text w) (done : List Word) (more : Text) :
    (Reader.start done).read (text ++ ' ' :: more) = (Reader.start (done ++ [w])).read more := by
  rw [read_append, h done, Option.bind_some, read_cons]
  rfl

theorem Reads.last (h : Reads text w) (done : List Word) :
    ((Reader.start done).read text).bind Reader.finish = some (done ++ [w]) := by
  rw [h done]
  rfl

/-- A line of words that each read alone reads as those. -/
theorem words_spaced {texts : List Text} {ws : List Word} (h : List.Forall₂ Reads texts ws) :
    words (spaced texts) = some ws := by
  have from_ (done : List Word) :
      ((Reader.start done).read (spaced texts)).bind Reader.finish = some (done ++ ws) := by
    induction h generalizing done with
    | nil => simp [spaced, Reader.read, Reader.start, Reader.finish, Reader.flush]
    | @cons text w texts ws first rest ih =>
        by_cases more : texts = []
        · subst more
          cases rest
          exact first.last done
        · rw [spaced_cons more, first.past, ih, List.append_assoc]
          rfl
  exact from_ []

/-- Past words that each read alone, the rest of a line is read from where it begins. -/
theorem read_spaced_append {texts rest : List Text} {ws : List Word}
    (h : List.Forall₂ Reads texts ws) (more : rest ≠ []) (done : List Word) :
    (Reader.start done).read (spaced (texts ++ rest)) =
      (Reader.start (done ++ ws)).read (spaced rest) := by
  induction h generalizing done with
  | nil => rw [List.nil_append, List.append_nil]
  | @cons text w texts ws first later ih =>
      have rest_ : texts ++ rest ≠ [] := by simp [more]
      rw [List.cons_append, spaced_cons rest_, first.past, ih, List.append_assoc]
      rfl

/-- No word that has been read is ever changed. -/
theorem stepPlain_done (r : Reader) (c : Char) : r.done <+: (r.stepPlain c).done := by
  unfold Reader.stepPlain
  split
  · exact List.prefix_rfl
  · split
    · exact List.prefix_rfl
    · split
      · exact List.prefix_rfl
      · split
        · exact List.prefix_append _ _
        · exact List.prefix_rfl

theorem step_done (h : r.step c = some r') : r.done <+: r'.done := by
  unfold Reader.step at h
  split at h
  · cases h
    exact stepPlain_done r c
  · split at h
    · cases h
      exact List.prefix_rfl
    · cases h
      exact List.prefix_rfl
    · cases h
    · split at h
      · cases h
        exact List.prefix_rfl
      · cases h
        exact stepPlain_done { r.put [] ('\\' :: _) with escape := none } c

theorem read_done (h : r.read line = some r') : r.done <+: r'.done := by
  induction line generalizing r with
  | nil =>
      cases h
      exact List.prefix_rfl
  | cons c rest ih =>
      rw [read_cons] at h
      obtain ⟨next, stepped, read⟩ := Option.bind_eq_some_iff.mp h
      exact (step_done stepped).trans (ih read)

theorem finish_done {ws : List Word} (h : r.finish = some ws) : r.done <+: ws := by
  have flushed : r.flush.done = r.done := by
    unfold Reader.flush
    split <;> rfl
  unfold Reader.finish at h
  split at h
  · cases h
    exact flushed ▸ List.prefix_append _ _
  · cases h

/-- A line that begins with a word has that word first, if it can be read. -/
theorem Reads.first (h : Reads text w) (done : List Word) (rest : List Text) {ws : List Word}
    (read : ((Reader.start done).read (spaced (text :: rest))).bind Reader.finish = some ws) :
    ∃ more, ws = done ++ w :: more := by
  have front : done ++ [w] <+: ws := by
    by_cases last : rest = []
    · rw [last, spaced, h.last] at read
      exact Option.some.inj read ▸ List.prefix_rfl
    · rw [spaced_cons last, h.past] at read
      obtain ⟨r, later, finished⟩ := Option.bind_eq_some_iff.mp read
      exact (read_done later).trans (finish_done finished)
  obtain ⟨more, rfl⟩ := front
  exact ⟨more, by rw [List.append_assoc]; rfl⟩

/-- A character that is never anything but itself, and a single quote. -/
def isBare (c : Char) : Bool := !isSeparator c && c ≠ '"' && c ≠ '\\'

/-- The quote that is open past a character, where only single ones are read. -/
def turn (quote : Option Char) (c : Char) : Option Char :=
  if c = '\'' then (if quote = none then some '\'' else none) else quote

theorem turn_single {quote : Option Char} (single : quote = none ∨ quote = some '\'') :
    turn quote c = none ∨ turn quote c = some '\'' := by
  unfold turn
  split
  · split
    · exact Or.inr rfl
    · exact Or.inl rfl
  · exact single

theorem turn_unquoted {quote : Option Char} (h : '\'' ∉ text) : text.foldl turn quote = quote := by
  induction text with
  | nil => rfl
  | cons c rest ih =>
      obtain ⟨first, later⟩ := not_or.mp (mt List.mem_cons.mpr h)
      rw [List.foldl_cons, turn, if_neg (Ne.symm first)]
      exact ih later

theorem turned_single (quote : Option Char) (single : quote = none ∨ quote = some '\'') (text : Text) :
    text.foldl turn quote = none ∨ text.foldl turn quote = some '\'' := by
  induction text generalizing quote with
  | nil => exact single
  | cons c rest ih => exact ih _ (turn_single single)

theorem step_bare {quote : Option Char} (single : quote = none ∨ quote = some '\'')
    (bare : isBare c = true) :
    (⟨done, some w, quote, none⟩ : Reader).step c =
      some ⟨done, some ⟨w.raw ++ [c], w.text ++ [c].filter (· ≠ '\'')⟩, turn quote c, none⟩ := by
  simp only [isBare, Bool.and_eq_true, Bool.not_eq_true', decide_eq_true_eq] at bare
  obtain ⟨⟨blank, double⟩, backslash⟩ := bare
  by_cases q : c = '\''
  · subst q
    obtain rfl | rfl := single <;> simp [Reader.step, Reader.stepPlain, Reader.put, Reader.current, turn]
  · obtain rfl | rfl := single
    · simp [Reader.step, Reader.stepPlain, Reader.put, Reader.current, turn, backslash, q, double,
        blank]
    · simp [Reader.step, Reader.stepPlain, Reader.put, Reader.current, turn, backslash, q, Ne.symm q]

/-- Such characters are put, but for the quotes among them, which open and close. -/
theorem read_bare {quote : Option Char} (single : quote = none ∨ quote = some '\'')
    (bare : ∀ c ∈ text, isBare c = true) :
    (⟨done, some w, quote, none⟩ : Reader).read text =
      some ⟨done, some ⟨w.raw ++ text, w.text ++ text.filter (· ≠ '\'')⟩, text.foldl turn quote,
        none⟩ := by
  induction text generalizing w quote with
  | nil => simp [Reader.read]
  | cons c rest ih =>
      rw [read_cons, step_bare single (bare c List.mem_cons_self), Option.bind_some,
        ih (turn_single single) fun c member => bare c (List.mem_cons_of_mem _ member)]
      simp only [List.append_assoc, ← List.filter_append, List.singleton_append, List.foldl_cons]

theorem start_bare {text : Text} (nonempty : text ≠ []) (bare : ∀ c ∈ text, isBare c = true)
    (done : List Word) :
    (Reader.start done).read text =
      some ⟨done, some ⟨text, text.filter (· ≠ '\'')⟩, text.foldl turn none, none⟩ := by
  obtain ⟨c, rest, rfl⟩ := List.exists_cons_of_ne_nil nonempty
  have same : (Reader.start done).step c = (⟨done, some ⟨[], []⟩, none, none⟩ : Reader).step c := by
    have blank : isSeparator c = false := by
      have plain := bare c List.mem_cons_self
      simp only [isBare, Bool.and_eq_true, Bool.not_eq_true'] at plain
      exact plain.1.1
    simp [Reader.start, Reader.step, Reader.stepPlain, Reader.put, Reader.current, blank]
  rw [read_cons, same, ← read_cons, read_bare (Or.inl rfl) bare]
  rfl

/-- Past `done` there is a word that begins with what has been read of one. -/
def Began (done : List Word) (w : Word) (front : List Word) (current : Option Word) : Prop :=
  ∃ w', w.raw <+: w'.raw ∧ w.text <+: w'.text ∧
    (front = done ∧ current = some w' ∨ ∃ more, front = done ++ w' :: more)

theorem Began.put (h : Began done w r.done r.word) (raw text : Text) :
    Began done w (r.put raw text).done (r.put raw text).word := by
  obtain ⟨w', sameRaw, sameText, ⟨front, current⟩ | more⟩ := h
  · refine ⟨⟨w'.raw ++ raw, w'.text ++ text⟩, sameRaw.trans (List.prefix_append _ _),
      sameText.trans (List.prefix_append _ _), Or.inl ⟨front, ?_⟩⟩
    simp [Reader.put, Reader.current, current]
  · exact ⟨w', sameRaw, sameText, Or.inr more⟩

theorem Began.close (h : Began done w r.done r.word) :
    Began done w (r.done ++ r.word.toList) none := by
  obtain ⟨w', sameRaw, sameText, ⟨front, current⟩ | ⟨more, front⟩⟩ := h
  · exact ⟨w', sameRaw, sameText, Or.inr ⟨[], by rw [front, current]; rfl⟩⟩
  · exact ⟨w', sameRaw, sameText, Or.inr ⟨more ++ r.word.toList, by simp [front]⟩⟩

theorem Began.stepPlain (h : Began done w r.done r.word) (c : Char) :
    Began done w (r.stepPlain c).done (r.stepPlain c).word := by
  unfold Reader.stepPlain
  split
  · exact h.put _ _
  · split
    · exact h.put _ _
    · split
      · exact h.put _ _
      · split
        · exact h.close
        · exact h.put _ _

theorem Began.step (h : Began done w r.done r.word) (stepped : r.step c = some r') :
    Began done w r'.done r'.word := by
  unfold Reader.step at stepped
  split at stepped
  · cases stepped
    exact h.stepPlain c
  · split at stepped
    · cases stepped
      exact h.put _ _
    · cases stepped
      exact h.put _ _
    · cases stepped
    · split at stepped
      · cases stepped
        exact h.put _ _
      · cases stepped
        exact @Began.stepPlain { r.put [] ('\\' :: _) with escape := none } w done (h.put _ _) c

theorem Began.read (h : Began done w r.done r.word) (read : r.read line = some r') :
    Began done w r'.done r'.word := by
  induction line generalizing r with
  | nil =>
      cases read
      exact h
  | cons c rest ih =>
      rw [read_cons] at read
      obtain ⟨next, stepped, read⟩ := Option.bind_eq_some_iff.mp read
      exact ih (h.step stepped) read

theorem Began.finish (h : Began done w r.done r.word) {ws : List Word} (finished : r.finish = some ws) :
    ∃ (w' : Word) (more : List Word),
      w.raw <+: w'.raw ∧ w.text <+: w'.text ∧ ws = done ++ w' :: more := by
  have flushed : Began done w r.flush.done r.flush.word := by
    unfold Reader.flush
    split
    · exact h
    · exact h.put _ _
  unfold Reader.finish at finished
  split at finished
  · cases finished
    obtain ⟨w', sameRaw, sameText, ⟨_, current⟩ | ⟨more, front⟩⟩ := flushed.close
    · cases current
    · exact ⟨w', more, sameRaw, sameText, front⟩
  · cases finished

end Reading

section Commands
variable {letters : Char → Bool} {m : Meaning} {line a : Text} {w : Word} {ws more : List Word}
  {args : List Text}

/-- A word that is an argument, and stands for nothing but itself. -/
structure Plain (letters : Char → Bool) (w : Word) (a : Text) : Prop where
  text : w.text = a
  notPart : w.raw ≠ [';']
  notEscaped : w.raw ≠ ['\\', ';']
  literal : Literal letters a

/-- What an argument list begins with, if it names a program by its place. -/
def Absolute (a : Text) : Prop := a.head? = some '/'

theorem program_kept (absolute : Absolute w.text) :
    (w :: ws).dropWhile (fun w => w.text = [';']) = w :: ws := by
  have program : w.text ≠ [';'] := by
    intro same
    rw [Absolute, same] at absolute
    cases absolute
  rw [List.dropWhile_cons, if_neg (by simp [program])]

theorem commands_only (absolute : Absolute w.text) (whole : ∀ v ∈ w :: ws, v.parts = false) :
    commands (w :: ws) = [w :: ws] := by
  rw [commands, List.splitOnP_eq_singleton whole, List.map_singleton, program_kept absolute]
  rfl

/-- The first command has the words up to the first semicolon that stands alone. -/
theorem commands_first (absolute : Absolute w.text) (notPart : w.parts = false) :
    ∃ others, commands (w :: ws) = (w :: ws.takeWhile fun w => !w.parts) :: others := by
  have cut (ws : List Word) :
      ∃ others, ws.splitOnP Word.parts = (ws.takeWhile fun w => !w.parts) :: others := by
    induction ws with
    | nil => exact ⟨[], rfl⟩
    | cons w rest ih =>
        obtain ⟨others, ih⟩ := ih
        rw [List.splitOnP_cons_eq_if_modifyHead]
        cases parts : w.parts with
        | true => exact ⟨rest.splitOnP Word.parts, by simp [parts]⟩
        | false => exact ⟨others, by simp [parts, ih]⟩
  obtain ⟨others, split⟩ := cut (w :: ws)
  refine ⟨(others.map fun c => c.dropWhile fun w => w.text = [';']).filter (· ≠ []), ?_⟩
  rw [commands, split, List.takeWhile_cons, if_pos (by simp [notPart]), List.map_cons,
    program_kept absolute]
  rfl

theorem argv_absolute (absolute : Absolute w.text) :
    argv letters m (w :: ws) = (specify letters m false w.text ::
      ws.map fun w => specify letters m false w.argument).flatMap (expand m) := by
  obtain ⟨rest, begins⟩ := List.head?_eq_some_iff.mp absolute
  have marks : w.text.takeWhile isPrefix = [] := by
    rw [begins]
    rfl
  have path : w.text.dropWhile isPrefix = w.text := by
    rw [begins]
    rfl
  simp only [argv, marks, path, List.not_mem_nil, if_false]

theorem Plain.expand {w : Word} (h : Plain letters w a) :
    expand m (specify letters m false w.argument) = [a] := by
  rw [Word.argument, if_neg h.notEscaped, h.text]
  exact h.literal.expand

theorem expand_plain (h : List.Forall₂ (Plain letters) ws args) :
    (ws.map fun w => specify letters m false w.argument).flatMap (expand m) = args := by
  induction h with
  | nil => rfl
  | cons first rest ih => rw [List.map_cons, List.flatMap_cons, first.expand, ih]; rfl

theorem notPart_of_mem (h : List.Forall₂ (Plain letters) ws args) (member : w ∈ ws) :
    w.raw ≠ [';'] := by
  induction h with
  | nil => cases member
  | cons first rest ih =>
      cases member with
      | head => exact first.notPart
      | tail _ later => exact ih later

/-- Words that are all their arguments make up one command. -/
theorem parse_plain (absolute : ∀ a, args.head? = some a → Absolute a) (nonempty : args ≠ [])
    (h : List.Forall₂ (Plain letters) ws args) (read : words line = some ws) :
    parse letters m line = some [args] := by
  cases h with
  | nil => exact absurd rfl nonempty
  | @cons w a ws args first rest =>
      have program : Absolute w.text := first.text ▸ absolute a rfl
      have whole : ∀ v ∈ w :: ws, v.parts = false := by
        intro v member
        exact decide_eq_false (notPart_of_mem (.cons first rest) member)
      rw [parse, read, Option.map_some, commands_only program whole, List.map_singleton,
        argv_absolute program]
      have program_ : specify letters m false w.text = specify letters m false w.argument := by
        rw [Word.argument, if_neg first.notEscaped]
      rw [program_]
      exact congrArg (fun l => some [l]) (expand_plain (.cons first rest))

/-- A word in the place of an argument that it is not: it parts two commands, or when all there is
to replace stands for something long it becomes another one. -/
def Spoiled (letters : Char → Bool) (w : Word) (a : Text) : Prop :=
  w.parts = true ∨ w.parts = false ∧ w.raw ≠ ['\\', ';'] ∧
    ∃ out, expand (drowned a.length) (specify letters (drowned a.length) false w.text) = [out] ∧
      out ≠ a

theorem Spoiled.of_text (notPart : w.raw ≠ [';']) (notEscaped : w.raw ≠ ['\\', ';'])
    (other : (¬ Literal letters w.text ∧ w.text = a) ∨
      (∃ c, isOrdinary c = true ∧ c ∈ w.text ∧ c ∉ a) ∨ ∃ c, c ∉ w.text ∧ c ∈ a) :
    Spoiled letters w a := by
  obtain ⟨out, becomes, fate⟩ := expand_drowned letters a.length w.text
  exact Or.inr ⟨decide_eq_false notPart, notEscaped, out, becomes, fate.ne (Nat.le_refl _) other⟩

theorem Spoiled.tail (h : Spoiled letters w a) (after : List Text) :
    (((w :: more).takeWhile fun w => !w.parts).map fun w =>
      specify letters (drowned a.length) false w.argument).flatMap (expand (drowned a.length)) ≠
        a :: after := by
  intro same
  obtain parts | ⟨notPart, notEscaped, out, becomes, other⟩ := h
  · simp [parts] at same
  · rw [List.takeWhile_cons, if_pos (by simp [notPart]), List.map_cons, List.flatMap_cons,
      Word.argument, if_neg notEscaped, becomes] at same
    exact other (List.cons.inj same).1

/-- One such word past words that are their arguments makes the whole line into something else. -/
theorem parse_spoiled {before : List Word} {after : List Text}
    (good : List.Forall₂ (Plain letters) before args) (spoiled : Spoiled letters w a)
    (program : ∀ first, args.head? = some first → Absolute first)
    (begins : args = [] → Absolute w.text ∧ w.parts = false)
    (read : words line = some (before ++ w :: more)) :
    parse letters (drowned a.length) line ≠ some [args ++ a :: after] := by
  intro same
  rw [parse, read, Option.map_some] at same
  cases good with
  | nil =>
      obtain ⟨absolute, notPart⟩ := begins rfl
      obtain ⟨others, first⟩ := @commands_first w more absolute notPart
      rw [List.nil_append, first, List.map_cons, argv_absolute absolute] at same
      have argument : w.argument = w.text := by
        obtain parts | ⟨_, notEscaped, _⟩ := spoiled
        · rw [notPart] at parts
          cases parts
        · exact if_neg notEscaped
      refine @Spoiled.tail letters a w more spoiled after ?_
      rw [List.takeWhile_cons, if_pos (by simp [notPart]), List.map_cons, argument]
      exact (List.cons.inj (Option.some.inj same)).1
  | @cons p first before args plain rest =>
      have absolute : Absolute p.text := plain.text ▸ program first rfl
      have notPart : p.parts = false := decide_eq_false plain.notPart
      obtain ⟨others, split⟩ := @commands_first p (before ++ w :: more) absolute notPart
      have kept : (before ++ w :: more).takeWhile (fun w => !w.parts) =
          before ++ (w :: more).takeWhile fun w => !w.parts :=
        List.takeWhile_append_of_pos fun v member => by
          simp [Word.parts, notPart_of_mem rest member]
      have argument : p.argument = p.text := if_neg plain.notEscaped
      rw [List.cons_append, split, List.map_cons, argv_absolute absolute, kept, List.map_append,
        ← argument] at same
      have front := expand_plain (m := drowned a.length) (.cons plain rest)
      have whole := (List.cons.inj (Option.some.inj same)).1
      rw [← List.cons_append, List.flatMap_append] at whole
      rw [List.map_cons] at front
      rw [front] at whole
      exact spoiled.tail after (List.append_cancel_left whole)

end Commands

end ExecLine
