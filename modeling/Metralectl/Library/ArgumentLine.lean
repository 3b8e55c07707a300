import Metralectl.Library.Shell

/-!
A command line as Windows cuts it into the arguments after the program: at the blanks outside
quotes. Backslashes stand for themselves, except those right before a quote: two of them there
stand for one, and one that is left over makes the quote an ordinary character.
-/
namespace ArgumentLine
open Shell

inductive Mode where
  | bare
  | quoted
  /-- Right past a quote that ended a quoted part. -/
  | closed
deriving DecidableEq

def Mode.past : Mode → Mode
  | .quoted => .quoted
  | .bare | .closed => .bare

/-- The arguments read so far, the one being read, and the backslashes whose meaning is still
open. -/
structure Reader where
  done : List Text
  current : Option Text
  backslashes : Nat
  mode : Mode
deriving DecidableEq

/-- What a quote right past a quoted part puts, and whether quotes are open after it: the one
thing the readers of such lines do not agree on. -/
structure Dialect where
  puts : Text
  opens : Bool
deriving DecidableEq

namespace Reader

def put (r : Reader) (text : Text) : Reader :=
  { r with current := some (r.current.getD [] ++ text) }

/-- The open backslashes stand for themselves. -/
def flush (r : Reader) : Reader :=
  if r.backslashes = 0 then r
  else { r.put (List.replicate r.backslashes '\\') with backslashes := 0 }

def close (r : Reader) : Reader := ⟨r.done ++ r.current.toList, none, 0, .bare⟩

def stepQuote (d : Dialect) (r : Reader) : Reader :=
  let halved := { r.put (List.replicate (r.backslashes / 2) '\\') with backslashes := 0 }
  if r.backslashes % 2 = 1 then halved.put ['"']
  else
    match r.mode with
    | .bare => { halved with mode := .quoted }
    | .quoted => { halved with mode := .closed }
    | .closed => { halved.put d.puts with mode := if d.opens then .quoted else .bare }

def step (d : Dialect) (r : Reader) (c : Char) : Reader :=
  if c = '\\' then { r with backslashes := r.backslashes + 1, mode := r.mode.past }
  else if c = '"' then r.stepQuote d
  else if isBlank c && r.mode ≠ .quoted then r.flush.close
  else { r.flush.put [c] with mode := r.mode.past }

def read (d : Dialect) (r : Reader) (text : Text) : Reader := text.foldl (step d) r

def start (done : List Text) : Reader := ⟨done, none, 0, .bare⟩

end Reader

/-- The arguments of a line. -/
def arguments (d : Dialect) (line : Text) : List Text :=
  ((Reader.start []).read d line).flush.close.done

section Reading
variable {d : Dialect} {r : Reader} {a b text arg : Text} {done : List Text} {c : Char}

theorem read_append : r.read d (a ++ b) = (r.read d a).read d b := List.foldl_append

theorem read_cons : r.read d (c :: text) = (r.step d c).read d text := rfl

@[simp] theorem flush_done : r.flush.done = r.done := by
  unfold Reader.flush
  split <;> rfl

@[simp] theorem flush_backslashes : r.flush.backslashes = 0 := by
  unfold Reader.flush
  split
  · assumption
  · rfl

theorem flush_of_zero (none_ : r.backslashes = 0) : r.flush = r := if_pos none_

/-- An argument as it reads wherever one may begin: whole, with no quotes open past it. -/
structure Reads (d : Dialect) (text arg : Text) : Prop where
  done : ∀ done, ((Reader.start done).read d text).done = done
  whole : ∀ done, ((Reader.start done).read d text).flush.current = some arg
  shut : ∀ done, ((Reader.start done).read d text).mode ≠ .quoted

theorem Reads.closed (h : Reads d text arg) (done : List Text) :
    ((Reader.start done).read d text).flush.close = Reader.start (done ++ [arg]) := by
  rw [Reader.close, flush_done, h.done, h.whole]
  rfl

/-- Past an argument and the blank after it. -/
theorem Reads.past (h : Reads d text arg) (done : List Text) (more : Text) :
    (Reader.start done).read d (text ++ ' ' :: more) =
      (Reader.start (done ++ [arg])).read d more := by
  have blank : ((Reader.start done).read d text).step d ' ' =
      ((Reader.start done).read d text).flush.close := by
    rw [Reader.step, if_neg (by decide), if_neg (by decide), if_pos]
    simpa [isBlank] using h.shut done
  rw [read_append, read_cons, blank, h.closed]

/-- A line of arguments that each read alone reads as those. -/
theorem arguments_spaced {texts args : List Text} (h : List.Forall₂ (Reads d) texts args) :
    arguments d (spaced texts) = args := by
  have from_ (done : List Text) :
      ((Reader.start done).read d (spaced texts)).flush.close.done = done ++ args := by
    induction h generalizing done with
    | nil => rfl
    | @cons text arg texts args first rest ih =>
        by_cases more : texts = []
        · subst more
          cases rest
          rw [spaced, first.closed]
          rfl
        · rw [spaced_cons more, first.past, ih, List.append_assoc]
          rfl
  exact from_ []

end Reading

section Characters
variable {d : Dialect} {r : Reader} {text : Text} {c : Char}

/-- A character that stands for itself outside quotes. -/
def isPlain (c : Char) : Bool := !isBlank c && c ≠ '"'

theorem step_plain (plain : isPlain c = true) (bare : r.mode = .bare) :
    (r.step d c).done = r.done ∧ (r.step d c).mode = .bare ∧
      (r.step d c).flush.current = some (r.flush.current.getD [] ++ [c]) := by
  simp only [isPlain, Bool.and_eq_true, Bool.not_eq_true', decide_eq_true_eq] at plain
  unfold Reader.step
  by_cases backslash : c = '\\'
  · rw [if_pos backslash, backslash]
    refine ⟨rfl, by rw [bare]; rfl, ?_⟩
    by_cases none_ : r.backslashes = 0
    · simp [Reader.flush, Reader.put, none_]
    · simp [Reader.flush, Reader.put, none_, List.replicate_succ']
  · simp only [if_neg backslash, if_neg plain.2, plain.1, Bool.false_and, Bool.false_eq_true,
      if_false]
    refine ⟨flush_done, by rw [bare]; rfl, ?_⟩
    exact congrArg Reader.current
      (@flush_of_zero { r.flush.put [c] with mode := r.mode.past } flush_backslashes)

/-- Plain text reads as itself. -/
theorem reads_plain (plain : text.all isPlain = true) (some_ : text ≠ []) : Reads d text text := by
  have from_ (r : Reader) (bare : r.mode = .bare) :
      (r.read d text).done = r.done ∧ (r.read d text).mode = .bare ∧
        (text ≠ [] → (r.read d text).flush.current = some (r.flush.current.getD [] ++ text)) := by
    clear some_
    induction text generalizing r with
    | nil => exact ⟨rfl, bare, fun some_ => absurd rfl some_⟩
    | cons c text ih =>
        rw [List.all_cons, Bool.and_eq_true] at plain
        obtain ⟨done, mode, current⟩ := step_plain plain.1 bare (d := d)
        obtain ⟨done', mode', current'⟩ := ih plain.2 _ mode
        refine ⟨done'.trans done, mode', fun _ => ?_⟩
        rw [read_cons]
        by_cases last : text = []
        · subst last
          exact current
        · rw [current' last, current, Option.getD_some, List.append_assoc]
          rfl
  refine ⟨fun done => (from_ _ rfl).1, fun done => ?_, fun done => ?_⟩
  · rw [(from_ _ rfl).2.2 some_]
    rfl
  · rw [(from_ _ rfl).2.1]
    decide

variable {done : List Text} {current : Option Text}

theorem read_backslashes (n k : Nat) :
    (⟨done, current, n, .quoted⟩ : Reader).read d (List.replicate k '\\') =
      ⟨done, current, n + k, .quoted⟩ := by
  induction k generalizing n with
  | zero => rfl
  | succ k ih =>
      rw [List.replicate_succ, read_cons]
      exact (ih (n + 1)).trans (by rw [Nat.add_right_comm, Nat.add_assoc])

/-- As many backslashes again as wait already, and a quote: the quotes are closed. -/
theorem step_closing (n : Nat) (text : Text) :
    (⟨done, some text, n + n, .quoted⟩ : Reader).step d '"' =
      ⟨done, some (text ++ List.replicate n '\\'), 0, .closed⟩ := by
  have even : (n + n) % 2 = 0 := by omega
  have half : (n + n) / 2 = n := by omega
  simp [Reader.step, Reader.stepQuote, Reader.put, even, half]

/-- One more than that, and the quote is one of the argument's own. -/
theorem step_escaped (n : Nat) (text : Text) :
    (⟨done, some text, n + (n + 1), .quoted⟩ : Reader).step d '"' =
      ⟨done, some (text ++ List.replicate n '\\' ++ ['"']), 0, .quoted⟩ := by
  have odd : (n + (n + 1)) % 2 = 1 := by omega
  have half : (n + (n + 1)) / 2 = n := by omega
  simp [Reader.step, Reader.stepQuote, Reader.put, odd, half]

/-- Any other character is read as it stands, after the backslashes before it. -/
theorem step_inside (n : Nat) (text : Text) (backslash : c ≠ '\\') (quote : c ≠ '"') :
    (⟨done, some text, n, .quoted⟩ : Reader).step d c =
      ⟨done, some (text ++ List.replicate n '\\' ++ [c]), 0, .quoted⟩ := by
  by_cases none_ : n = 0
  · simp [Reader.step, Reader.flush, Reader.put, Mode.past, backslash, quote, none_]
  · simp [Reader.step, Reader.flush, Reader.put, Mode.past, backslash, quote, none_]

end Characters
end ArgumentLine
