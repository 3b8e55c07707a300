import Metralectl.Core.Exposition
import Mathlib.Data.List.Dedup

/-!
The samples of an exposition as the format lets them be written, what they say, and
what is folded of them.
-/
namespace Metralectl
namespace Metrics
open SortedMaps

/-- A character of a metric's name; a label's has no colon. -/
def nameChar (c : Char) : Bool := c.isAlphanum || c = '_' || c = ':'

def IsName (name : Text) : Prop := name ≠ [] ∧ ∀ c ∈ name, nameChar c = true

/-- A number as it is written. -/
structure Written where
  text : Text
  number : Number
  some_ : text ≠ []
  solid : ∀ c ∈ text, isWhitespace c = false
  reads : parseF64 text = some number

/-- A label's value between its quotes. -/
def escape (c : Char) : Text :=
  if c = '\\' then ['\\', '\\'] else if c = '"' then ['\\', '"']
  else if c = '\n' then ['\\', 'n'] else [c]

structure Label where
  before : Text
  name : Text
  behind : Text
  gap : Text
  value : Text
  after : Text
  named : IsName name
  blank : Blank (before ++ behind ++ gap ++ after)

def Label.key (l : Label) : Text := l.before ++ (l.name ++ l.behind)

def Label.quoted (l : Label) : Text := '"' :: (l.value.flatMap escape ++ ['"'])

def Label.text (l : Label) : Text := l.key ++ '=' :: (l.gap ++ (l.quoted ++ l.after))

/-- Labels between commas; there may be one behind the last. -/
def written : List Label → Option Text → Text
  | [], tail => tail.getD []
  | [l], none => l.text
  | l :: more, tail => l.text ++ ',' :: written more tail

structure Braces where
  before : Text
  labels : List Label
  tail : Option Text
  blank : Blank before
  tail_blank : ∀ t ∈ tail, Blank t
  distinct : (labels.map Label.name).Nodup

def Braces.text (b : Braces) : Text := b.before ++ '\x7b' :: (written b.labels b.tail ++ ['\x7d'])

/-- A line with a sample on it. -/
structure Sample where
  lead : Text
  name : Text
  braces : Option Braces
  gap : Text
  value : Written
  timestamp : Option (Text × Written)
  trail : Text
  named : IsName name
  blank : Blank (lead ++ gap ++ trail)
  apart : braces = none → gap ≠ []
  stamped : ∀ t ∈ timestamp, t.1 ≠ [] ∧ Blank t.1

namespace Sample

def head (s : Sample) : Text := s.name ++ (s.braces.map Braces.text).getD []

def stamp (s : Sample) : Text := (s.timestamp.map fun t => t.1 ++ t.2.text).getD []

def text (s : Sample) : Text :=
  s.lead ++ (s.head ++ (s.gap ++ (s.value.text ++ s.stamp)) ++ s.trail)

def labels (s : Sample) : List (Text × Text) :=
  ((s.braces.map Braces.labels).getD []).map fun l => (l.name, l.value)

/-- The label's value, if the sample has the label. -/
def label (s : Sample) (key : Text) : Option Text := s.labels.lookup key

end Sample

inductive Line
  | sample (s : Sample)
  | comment (lead text : Text) (blank : Blank lead) (whole : '\n' ∉ text)
  | empty (blanks : Text) (blank : Blank blanks)

def Line.text : Line → Text
  | .sample s => s.text
  | .comment lead text _ _ => lead ++ '#' :: text
  | .empty blanks _ => blanks

/-- Every line ends. -/
def exposition (ls : List Line) : String := String.ofList (ls.flatMap fun l => l.text ++ ['\n'])

def bucketEnd : Text := "_bucket".toList
def sumEnd : Text := "_sum".toList
def countEnd : Text := "_count".toList
def leKey : Text := "le".toList

/-- A name that says no part of a histogram. -/
def PlainName (name : Text) : Prop :=
  ¬ bucketEnd <:+ name ∧ ¬ sumEnd <:+ name ∧ ¬ countEnd <:+ name

instance (name : Text) : Decidable (PlainName name) := inferInstanceAs (Decidable (_ ∧ _ ∧ _))

/-- A sample that is a number, and that number. -/
def finite (ls : List Line) : List (Sample × ℚ) :=
  ls.filterMap fun
    | .sample s => match s.value.number with
      | .finite v => some (s, v)
      | _ => none
    | _ => none

section Meaning
variable (fs : List (Sample × ℚ))

def named (name : Text) : List (Sample × ℚ) := fs.filter (·.1.name = name)

def summed (fs : List (Sample × ℚ)) : ℚ := (fs.map (·.2)).sum

/-- The buckets of a histogram, one for each sample. -/
def bucketSamples (base : Text) : List (Number × ℚ) :=
  (named fs (base ++ bucketEnd)).filterMap fun s =>
    ((s.1.label leKey).bind parseLe).map (·, s.2)

/-- The buckets of a histogram: one for each bound, over all label sets. -/
def merged (entries : List (Number × ℚ)) : List (Number × ℚ) :=
  ((entries.map (·.1)).dedup.insertionSort fun a c => a.totalLe c).map fun le =>
    (le, ((entries.filter (·.1 = le)).map (·.2)).sum)

/-- What a scrape is to say of the samples. -/
structure Folded (s : Scrape) : Prop where
  values : ∀ name, PlainName name →
    s.get name = if named fs name = [] then none else some (summed (named fs name))
  where_ : ∀ name label value, PlainName name → s.sumWhere name label value =
    if named fs name = [] then none
    else some (summed ((named fs name).filter fun x => x.1.label label = some value))
  sums : ∀ base, s.sums.get? base =
    if named fs (base ++ sumEnd) = [] ∧ named fs (base ++ countEnd) = [] then none
    else some (summed (named fs (base ++ sumEnd)), summed (named fs (base ++ countEnd)))
  buckets : ∀ base, s.buckets.get? base =
    if bucketSamples fs base = [] then none else some (merged (bucketSamples fs base))
  last : ∀ base, (∀ e ∈ bucketSamples fs base, e.1 ≠ .nan) →
    (∃ e ∈ bucketSamples fs base, e.1 = .infinity) →
    (((bucketSamples fs base).filter (·.1 = .infinity)).map (·.2)).sum =
      summed (named fs (base ++ countEnd)) →
    ∃ entries, s.buckets.get? base = some entries ∧
      (entries.getLast?).map (·.2) = some (summed (named fs (base ++ countEnd)))

end Meaning

/-- A label's value with no character in it that is escaped or separates labels. -/
def Clean (value : Text) : Prop :=
  ∀ c ∈ value, c ≠ ',' ∧ c ≠ '"' ∧ c ≠ '\\' ∧ c ≠ '\n'

instance (value : Text) : Decidable (Clean value) := List.decidableBAll _ value

/-- What a piece between commas is taken for a label of. -/
def keyOf (piece : Text) : Option Text := (splitOnce '=' piece).map fun pair => trimChars pair.1

/-- Nothing behind a comma in the label's value looks like a label of the key. -/
def Quiet (key : Text) (l : Label) : Prop :=
  ∀ piece ∈ (pieces ',' l.text).tail, keyOf piece ≠ some key

/-- How the labels of a sample have to be written for the line to be read as it says. -/
structure Sample.Direct (s : Sample) : Prop where
  close : ∀ b ∈ s.braces, b.before = []
  plain : PlainName s.name → ∀ b ∈ s.braces, ∀ l ∈ b.labels, Clean l.value
  bucket : bucketEnd <:+ s.name → ∀ b ∈ s.braces, ∀ l ∈ b.labels,
    (l.name = leKey → Clean l.value) ∧ Quiet leKey l

/-- Blanks stand before every value, and the labels of what counts are written so. -/
structure Faithful (ls : List Line) : Prop where
  apart : ∀ s, .sample s ∈ ls → s.gap ≠ []
  direct : ∀ s ∈ finite ls, s.1.Direct

/-- Every bound of a histogram stands once. -/
def Distinct (fs : List (Sample × ℚ)) : Prop :=
  ∀ base, ((bucketSamples fs base).map (·.1)).Nodup

section Characters
variable {t : Text} {c : Char} {s : Sample} {l : Label} {b : Braces}

theorem nameChar_solid (h : nameChar c = true) : isWhitespace c = false := by
  simp only [nameChar, Bool.or_eq_true, decide_eq_true_eq] at h
  rcases h with (alphanum | rfl) | rfl
  · exact isWhitespace_alphanum alphanum
  · rfl
  · rfl

theorem nameChar_ne {d : Char} (h : nameChar c = true) (other : nameChar d = false) : c ≠ d := by
  rintro rfl
  rw [other] at h
  cases h

theorem numberChar_ne {d : Char} (h : numberChar c = true) (other : numberChar d = false) :
    c ≠ d := by
  rintro rfl
  rw [other] at h
  cases h

theorem Blank.left {a : Text} (blank : Blank (a ++ t)) : Blank a := fun c hc =>
  blank c (List.mem_append_left t hc)

theorem Blank.right {a : Text} (blank : Blank (a ++ t)) : Blank t := fun c hc =>
  blank c (List.mem_append_right a hc)

theorem escape_no_feed (c : Char) : '\n' ∉ escape c := by
  unfold escape
  split
  · decide
  · split
    · decide
    · split
      · decide
      · next feed =>
          rw [List.mem_singleton]
          exact Ne.symm feed

theorem IsName.absent {d : Char} (h : IsName t) (other : nameChar d = false) : d ∉ t := fun hd =>
  nameChar_ne (h.2 d hd) other rfl

theorem Blank.absent {d : Char} (blank : Blank t) (other : d ≠ ' ' ∧ d ≠ '\t') :
    d ∉ t := fun hd =>
  (blank d hd).elim other.1 other.2

theorem Written.absent {d : Char} (w : Written) (other : numberChar d = false) : d ∉ w.text :=
  fun hd => numberChar_ne (parseF64_chars w.reads d hd) other rfl

theorem Label.parts (l : Label) :
    Blank l.before ∧ Blank l.behind ∧ Blank l.gap ∧ Blank l.after :=
  ⟨l.blank.left.left.left, l.blank.left.left.right, l.blank.left.right, l.blank.right⟩

theorem Label.no_feed (l : Label) : '\n' ∉ l.text := by
  obtain ⟨before, behind, gap, after⟩ := l.parts
  have value : '\n' ∉ l.value.flatMap escape := by
    rw [List.mem_flatMap]
    rintro ⟨c, _, feed⟩
    exact escape_no_feed c feed
  simp only [Label.text, Label.key, Label.quoted, List.mem_append, List.mem_cons, List.not_mem_nil,
    not_or, or_false]
  exact ⟨⟨before.absent (by decide), l.named.absent rfl, behind.absent (by decide)⟩, by decide,
    gap.absent (by decide), ⟨by decide, value, by decide⟩, after.absent (by decide)⟩

theorem written_cons (l : Label) (more : List Label) (tail : Option Text) :
    (more = [] ∧ tail = none ∧ written (l :: more) tail = l.text) ∨
      written (l :: more) tail = l.text ++ ',' :: written more tail := by
  cases more with
  | nil =>
      cases tail with
      | none => exact .inl ⟨rfl, rfl, rfl⟩
      | some t => exact .inr rfl
  | cons m more => exact .inr rfl

theorem written_no_feed {labels : List Label} {tail : Option Text} (blank : ∀ t ∈ tail, Blank t) :
    '\n' ∉ written labels tail := by
  induction labels with
  | nil =>
      cases tail with
      | none => exact List.not_mem_nil
      | some t => exact (blank t rfl).absent (by decide)
  | cons l more ih =>
      cases written_cons l more tail with
      | inl only =>
          rw [only.2.2]
          exact l.no_feed
      | inr longer =>
          rw [longer, List.mem_append, List.mem_cons, not_or, not_or]
          exact ⟨l.no_feed, by decide, ih⟩

/-- The labels end with a quote, a comma or a blank. -/
theorem written_last {labels : List Label} {tail : Option Text} (blank : ∀ t ∈ tail, Blank t) :
    ∀ c ∈ (written labels tail).getLast?, c ≠ '\x7d' := by
  have blanks {t : Text} (blank : Blank t) : ∀ c ∈ t.getLast?, c ≠ '\x7d' := by
    rintro c hc rfl
    exact blank.absent (by decide) (List.mem_of_getLast? hc)
  have text (l : Label) : ∀ c ∈ l.text.getLast?, c ≠ '\x7d' := by
    intro c hc
    by_cases none : l.after = []
    · have ends : l.text = l.key ++ '=' :: (l.gap ++ '"' :: l.value.flatMap escape) ++ ['"'] := by
        simp [Label.text, Label.quoted, none]
      rw [ends, List.getLast?_concat] at hc
      cases hc
      decide
    · have ends : l.text = l.key ++ '=' :: (l.gap ++ l.quoted) ++ l.after := by
        simp [Label.text]
      rw [ends, List.getLast?_append_of_ne_nil _ none] at hc
      exact blanks l.parts.2.2.2 c hc
  induction labels with
  | nil =>
      cases tail with
      | none => exact fun c hc => absurd hc (by simp [written])
      | some t => exact blanks (blank t rfl)
  | cons l more ih =>
      cases written_cons l more tail with
      | inl only =>
          rw [only.2.2]
          exact text l
      | inr longer =>
          intro c hc
          rw [longer, List.getLast?_append_of_ne_nil _ (List.cons_ne_nil _ _),
            List.getLast?_cons] at hc
          cases last : (written more tail).getLast? with
          | none =>
              rw [last] at hc
              cases hc
              decide
          | some d =>
              rw [last] at hc
              cases hc
              exact ih d last

end Characters

section Lines
variable {s : Sample} {ls : List Line}

theorem Sample.parts (s : Sample) : Blank s.lead ∧ Blank s.gap ∧ Blank s.trail :=
  ⟨s.blank.left.left, s.blank.left.right, s.blank.right⟩

theorem Sample.head_no_feed (s : Sample) : '\n' ∉ s.head := by
  unfold Sample.head
  rw [List.mem_append, not_or]
  refine ⟨s.named.absent rfl, ?_⟩
  cases s.braces with
  | none => exact List.not_mem_nil
  | some b =>
      simp only [Option.map_some, Option.getD_some, Braces.text, List.mem_append, List.mem_cons,
        List.not_mem_nil, or_false, not_or]
      exact ⟨b.blank.absent (by decide), by decide, written_no_feed b.tail_blank, by decide⟩

/-- A head begins with a name and ends with one or with a brace. -/
theorem Sample.head_ends (s : Sample) : s.head ≠ [] ∧
    (∀ c ∈ s.head.head?, isWhitespace c = false ∧ c ≠ '#') ∧
      ∀ c ∈ s.head.getLast?, isWhitespace c = false := by
  obtain ⟨some_, chars⟩ := s.named
  obtain ⟨x, name, whole⟩ := List.exists_cons_of_ne_nil some_
  have first : nameChar x = true := chars x (whole ▸ List.mem_cons_self)
  unfold Sample.head
  refine ⟨List.append_ne_nil_of_left_ne_nil some_ _, ?_, ?_⟩
  · rw [whole]
    intro c hc
    cases hc
    exact ⟨nameChar_solid first, nameChar_ne first rfl⟩
  · cases s.braces with
    | none =>
        intro c hc
        rw [Option.map_none, Option.getD_none, List.append_nil] at hc
        exact nameChar_solid (chars c (List.mem_of_getLast? hc))
    | some b =>
        intro c hc
        have ends : s.name ++ ((some b).map Braces.text).getD [] =
            s.name ++ (b.before ++ '\x7b' :: written b.labels b.tail) ++ ['\x7d'] := by
          simp [Braces.text]
        rw [ends, List.getLast?_concat] at hc
        cases hc
        rfl

theorem Sample.stamp_no_feed (s : Sample) : '\n' ∉ s.stamp := by
  unfold Sample.stamp
  cases timestamp : s.timestamp with
  | none => exact List.not_mem_nil
  | some t =>
      rw [Option.map_some, Option.getD_some, List.mem_append, not_or]
      exact ⟨(s.stamped t timestamp).2.absent (by decide), t.2.absent rfl⟩

theorem Sample.no_feed (s : Sample) : '\n' ∉ s.text := by
  obtain ⟨lead, gap, trail⟩ := s.parts
  simp only [Sample.text, List.mem_append, not_or]
  exact ⟨lead.absent (by decide), ⟨s.head_no_feed, gap.absent (by decide), s.value.absent rfl,
    s.stamp_no_feed⟩, trail.absent (by decide)⟩

/-- What is left of a sample's line when its blanks are trimmed. -/
def Sample.core (s : Sample) : Text := s.head ++ (s.gap ++ (s.value.text ++ s.stamp))

theorem Sample.core_ends (s : Sample) : s.core ≠ [] ∧
    (∀ c ∈ s.core.head?, isWhitespace c = false ∧ c ≠ '#') ∧
      ∀ c ∈ s.core.getLast?, isWhitespace c = false := by
  obtain ⟨some_, first, _⟩ := s.head_ends
  unfold Sample.core
  refine ⟨List.append_ne_nil_of_left_ne_nil some_ _, ?_, ?_⟩
  · intro c hc
    rw [List.head?_append_of_ne_nil _ some_] at hc
    exact first c hc
  · have value : s.value.text ++ s.stamp ≠ [] := List.append_ne_nil_of_left_ne_nil s.value.some_ _
    intro c hc
    rw [List.getLast?_append_of_ne_nil _ (List.append_ne_nil_of_right_ne_nil _ value),
      List.getLast?_append_of_ne_nil _ value] at hc
    unfold Sample.stamp at hc
    cases timestamp : s.timestamp with
    | none =>
        rw [timestamp, Option.map_none, Option.getD_none, List.append_nil] at hc
        exact s.value.solid c (List.mem_of_getLast? hc)
    | some t =>
        rw [timestamp, Option.map_some, Option.getD_some, ← List.append_assoc,
          List.getLast?_append_of_ne_nil _ t.2.some_] at hc
        exact t.2.solid c (List.mem_of_getLast? hc)

theorem Sample.trimmed (s : Sample) : trimChars s.text = s.core := by
  obtain ⟨lead, _, trail⟩ := s.parts
  obtain ⟨some_, first, last⟩ := s.core_ends
  have white : ∀ c ∈ s.lead ++ s.trail, isWhitespace c = true :=
    List.forall_mem_append.mpr ⟨lead.white, trail.white⟩
  exact trimChars_pad white some_ (fun c hc => (first c hc).1) last

/-- A sample's line ends with a blank or with a number. -/
theorem Sample.chomped_text (s : Sample) : chomped s.text = s.text := by
  obtain ⟨_, _, last⟩ := s.core_ends
  apply if_neg
  intro carriage
  have text : s.text = s.lead ++ s.core ++ s.trail := (List.append_assoc _ _ _).symm
  by_cases none : s.trail = []
  · rw [text, none, List.append_nil, List.getLast?_append_of_ne_nil _ s.core_ends.1] at carriage
    cases last _ carriage
  · rw [text, List.getLast?_append_of_ne_nil _ none] at carriage
    exact s.parts.2.2.absent (by decide) (List.mem_of_getLast? carriage)

theorem Sample.splitValue_core (apart : s.gap ≠ []) :
    splitValue s.core = some (s.head, s.value.text) := by
  obtain ⟨_, gap, _⟩ := s.parts
  obtain ⟨some_, _, ends⟩ := s.head_ends
  have reads : (parseF64 s.value.text).isSome := by rw [s.value.reads]; rfl
  unfold Sample.core Sample.stamp
  cases timestamp : s.timestamp with
  | some t =>
      obtain ⟨some_', gap'⟩ := s.stamped t timestamp
      rw [Option.map_some, Option.getD_some]
      exact splitValue_stamped apart gap some_' gap' s.value.some_ s.value.solid reads t.2.solid
        (by rw [t.2.reads]; rfl) some_ ends
  | none =>
      rw [Option.map_none, Option.getD_none, List.append_nil]
      apply splitValue_bare apart gap s.value.solid reads ends
      intro h m split
      unfold Sample.head at split
      cases braces : s.braces with
      | none =>
          rw [braces, Option.map_none, Option.getD_none, List.append_nil,
            rsplitOnce_none fun c hc => nameChar_solid (s.named.2 c hc)] at split
          cases split
      | some b =>
          have text : s.name ++ ((some b).map Braces.text).getD [] =
              s.name ++ (b.before ++ '\x7b' :: written b.labels b.tail) ++ ['\x7d'] := by
            simp [Braces.text]
          rw [braces, text] at split
          have brace := rsplitOnce_some split rfl
          cases number : parseF64 m with
          | none => rfl
          | some n => cases parseF64_chars number _ brace

/-- The event of a sample's line: its labels as the line is split for them. -/
def Sample.event (s : Sample) (v : ℚ) : Text × Labels × ℚ :=
  ((splitLabels s.head).1, (splitLabels s.head).2, v)

theorem Sample.readLine_text (apart : s.gap ≠ []) : readLine s.text =
    match s.value.number with
    | .finite v => some (s.event v)
    | _ => none := by
  obtain ⟨some_, first, _⟩ := s.core_ends
  have shown : ¬ (s.core = [] ∨ s.core.head? = some '#') := by
    rintro (empty | comment)
    · exact some_ empty
    · exact (first _ comment).2 rfl
  unfold readLine
  simp only [s.trimmed]
  rw [if_neg shown, Sample.splitValue_core apart]
  simp only [s.value.reads]
  cases s.value.number <;> rfl

theorem chomped_cons {a t : Text} {c : Char} (solid : c ≠ '\r') :
    ∃ t', chomped (a ++ c :: t) = a ++ c :: t' := by
  unfold chomped
  split
  · next carriage =>
      rw [List.getLast?_append_of_ne_nil _ (List.cons_ne_nil c t)] at carriage
      cases t with
      | nil =>
          cases carriage
          exact absurd rfl solid
      | cons d t =>
          refine ⟨(d :: t).dropLast, ?_⟩
          rw [List.dropLast_append_of_ne_nil (List.cons_ne_nil c _), List.dropLast_cons_cons]
  · exact ⟨t, rfl⟩

theorem Line.no_feed (l : Line) : '\n' ∉ l.text := by
  cases l with
  | sample s => exact s.no_feed
  | comment lead text blank whole =>
      rw [Line.text, List.mem_append, List.mem_cons, not_or, not_or]
      exact ⟨blank.absent (by decide), by decide, whole⟩
  | empty blanks blank => exact blank.absent (by decide)

/-- The event of a line. -/
def Line.event : Line → Option (Text × Labels × ℚ)
  | .sample s => match s.value.number with
    | .finite v => some (s.event v)
    | _ => none
  | _ => none

theorem Line.readLine_text {l : Line} (apart : ∀ s, l = .sample s → s.gap ≠ []) :
    readLine (chomped l.text) = l.event := by
  cases l with
  | sample s =>
      rw [Line.text, s.chomped_text, Sample.readLine_text (apart s rfl)]
      rfl
  | comment lead text blank whole =>
      obtain ⟨text', same⟩ := @chomped_cons lead text '#' (by decide)
      obtain ⟨rest, trimmed⟩ := @trimChars_front text' '#' lead blank.white rfl
      rw [Line.text, same]
      unfold readLine
      simp only [trimmed]
      rw [if_pos (.inr rfl)]
      rfl
  | empty blanks blank =>
      have kept : chomped blanks = blanks :=
        if_neg fun carriage => blank.absent (by decide) (List.mem_of_getLast? carriage)
      have trimmed : trimChars blanks = [] := by
        have none : blanks.dropWhile isWhitespace = [] := List.dropWhile_eq_nil_iff.mpr blank.white
        rw [trimChars, none]
        rfl
      rw [Line.text, kept]
      unfold readLine
      simp only [trimmed]
      rw [if_pos (.inl trivial)]
      rfl

theorem events_finite (ls : List Line) :
    ls.filterMap Line.event = (finite ls).map fun s => s.1.event s.2 := by
  unfold finite
  rw [List.map_filterMap]
  congr 1
  funext l
  cases l with
  | sample s => cases number : s.value.number <;> simp [Line.event, number]
  | comment _ _ _ _ => rfl
  | empty _ _ => rfl

theorem read_exposition (apart : ∀ s, .sample s ∈ ls → s.gap ≠ []) :
    (lines (exposition ls)).filterMap readLine = (finite ls).map fun s => s.1.event s.2 := by
  have whole : ∀ l ∈ ls.map Line.text, '\n' ∉ l := by
    intro t ht
    obtain ⟨l, _, rfl⟩ := List.mem_map.mp ht
    exact l.no_feed
  have text : exposition ls = String.ofList ((ls.map Line.text).flatMap (· ++ ['\n'])) := by
    rw [exposition, List.flatMap_map]
  rw [text, lines_chomped whole, List.map_map, List.filterMap_map, ← events_finite]
  apply List.filterMap_congr
  intro l hl
  exact Line.readLine_text fun s same => apart s (same ▸ hl)

end Lines

section Labelled
variable {m : Labels} {l : Label} {key : Text} {labels : List Label} {tail : Option Text}

/-- The labels between the braces, put into a map. -/
def insertText (m : Labels) (text : Text) : Labels := (pieces ',' text).foldl insertPair m

theorem insertText_sep (m : Labels) (a b : Text) :
    insertText m (a ++ ',' :: b) = insertText (insertText m a) b := by
  rw [insertText, pieces_sep, List.foldl_append]
  rfl

theorem insertText_blank {t : Text} (blank : Blank t) : insertText m t = m := by
  have one : pieces ',' t = [t] := pieces_self (blank.absent (by decide))
  have none : splitOnce '=' t = none := splitOnce_none (blank.absent (by decide))
  simp only [insertText, one, List.foldl_cons, List.foldl_nil, insertPair, none]

theorem insertText_written (blank : ∀ t ∈ tail, Blank t) (m : Labels) :
    insertText m (written labels tail) = labels.foldl (fun m l => insertText m l.text) m := by
  induction labels generalizing m with
  | nil =>
      cases tail with
      | none => rfl
      | some t => exact insertText_blank (blank t rfl)
  | cons l more ih =>
      cases written_cons l more tail with
      | inl only =>
          rw [only.2.2, only.1]
          rfl
      | inr longer => rw [longer, insertText_sep, ih, List.foldl_cons]

theorem Label.key_trimmed (l : Label) : trimChars l.key = l.name := by
  obtain ⟨before, behind, _, _⟩ := l.parts
  have solid : ∀ c ∈ l.name, isWhitespace c = false :=
    fun c hc => nameChar_solid (l.named.2 c hc)
  exact trimChars_pad (List.forall_mem_append.mpr ⟨before.white, behind.white⟩) l.named.1
    (fun c hc => solid c (List.mem_of_head? hc)) fun c hc => solid c (List.mem_of_getLast? hc)

theorem Label.key_absent {d : Char} (l : Label) (name : nameChar d = false)
    (blank : d ≠ ' ' ∧ d ≠ '\t') : d ∉ l.key := by
  obtain ⟨before, behind, _, _⟩ := l.parts
  simp only [Label.key, List.mem_append, not_or]
  exact ⟨before.absent blank, l.named.absent name, behind.absent blank⟩

theorem escape_clean {value : Text} (clean : Clean value) : value.flatMap escape = value := by
  induction value with
  | nil => rfl
  | cons c value ih =>
      obtain ⟨⟨_, quote, backslash, feed⟩, rest⟩ := List.forall_mem_cons.mp clean
      have own : escape c = [c] := by
        rw [escape, if_neg backslash, if_neg quote, if_neg feed]
      rw [List.flatMap_cons, own, ih rest, List.singleton_append]

/-- Quotes around a value with none in it are stripped. -/
theorem trimQuotes_clean {value : Text} (clean : Clean value) :
    trimQuotes ('"' :: (value ++ ['"'])) = value := by
  have opened : ('"' :: (value ++ ['"'])).dropWhile (· = '"') =
      (value ++ ['"']).dropWhile (· = '"') := by
    rw [List.dropWhile_cons, if_pos (by decide)]
  rw [trimQuotes, opened]
  cases value with
  | nil => rfl
  | cons c value =>
      have first : ¬ decide (c = '"') = true := by simpa using (clean c List.mem_cons_self).2.1
      have kept : (c :: value ++ ['"']).dropWhile (· = '"') = c :: value ++ ['"'] := by
        rw [List.cons_append, List.dropWhile_cons, if_neg first]
      rw [kept, List.rdropWhile_concat_pos _ _ _ (by decide), List.rdropWhile_eq_self_iff]
      intro some_ quote
      exact (clean _ (List.getLast_mem some_)).2.1 (by simpa using quote)

/-- A clean value is read whole. -/
theorem insertText_clean (clean : Clean l.value) (m : Labels) :
    insertText m l.text = m.insert l.name l.value := by
  obtain ⟨_, _, gap, after⟩ := l.parts
  have quoted : l.quoted = '"' :: (l.value ++ ['"']) := by rw [Label.quoted, escape_clean clean]
  have comma : ',' ∉ l.text := by
    simp only [Label.text, quoted, List.mem_append, List.mem_cons, List.not_mem_nil, or_false,
      not_or]
    exact ⟨l.key_absent rfl (by decide), by decide, gap.absent (by decide),
      ⟨by decide, fun there => (clean _ there).1 rfl, by decide⟩, after.absent (by decide)⟩
  have pair : splitOnce '=' l.text = some (l.key, l.gap ++ (l.quoted ++ l.after)) :=
    splitOnce_first (l.key_absent rfl (by decide)) _
  have value : trimChars (l.gap ++ (l.quoted ++ l.after)) = l.quoted := by
    apply trimChars_pad (List.forall_mem_append.mpr ⟨gap.white, after.white⟩)
    · exact List.cons_ne_nil _ _
    · intro c hc
      cases hc
      rfl
    · intro c hc
      rw [Label.quoted, ← List.cons_append, List.getLast?_concat] at hc
      cases hc
      rfl
  simp only [insertText, pieces_self comma, List.foldl_cons, List.foldl_nil, insertPair, pair,
    l.key_trimmed, value]
  rw [quoted, trimQuotes_clean clean]

theorem insertPair_other {piece : Text} (other : keyOf piece ≠ some key) :
    (insertPair m piece).get? key = m.get? key := by
  unfold keyOf at other
  unfold insertPair
  cases split : splitOnce '=' piece with
  | none => rfl
  | some pair =>
      rw [split, Option.map_some] at other
      have ne : key ≠ trimChars pair.1 := fun same => other (congrArg some same.symm)
      simp only [SortedMap.get?_insert, if_neg ne]

theorem foldl_insertPair_other {ps : List Text} (others : ∀ piece ∈ ps, keyOf piece ≠ some key)
    (m : Labels) : (ps.foldl insertPair m).get? key = m.get? key := by
  induction ps generalizing m with
  | nil => rfl
  | cons p ps ih =>
      obtain ⟨first, rest⟩ := List.forall_mem_cons.mp others
      rw [List.foldl_cons, ih rest, insertPair_other first]

/-- Another label, with nothing in it that looks like one of the key. -/
theorem insertText_quiet (other : l.name ≠ key) (quiet : Quiet key l) (m : Labels) :
    (insertText m l.text).get? key = m.get? key := by
  have front : ',' ∉ l.key ++ ['='] := by
    rw [List.mem_append, not_or]
    exact ⟨l.key_absent rfl (by decide), by decide⟩
  have text : l.text = l.key ++ ['='] ++ (l.gap ++ (l.quoted ++ l.after)) := by simp [Label.text]
  obtain ⟨p, rest, _, parts⟩ := pieces_prepend front (l.gap ++ (l.quoted ++ l.after))
  rw [← text] at parts
  have own : keyOf (l.key ++ ['='] ++ p) = some l.name := by
    rw [keyOf, List.append_assoc, List.singleton_append,
      splitOnce_first (l.key_absent rfl (by decide)), Option.map_some, l.key_trimmed]
  unfold Quiet at quiet
  rw [parts, List.tail_cons] at quiet
  rw [insertText, parts, List.foldl_cons, foldl_insertPair_other quiet, insertPair_other]
  rw [own]
  exact fun same => other (Option.some.inj same)

/-- Where every label is read as itself, the map has what the labels say. -/
theorem foldl_get? (distinct : (labels.map Label.name).Nodup)
    (each : ∀ l ∈ labels, ∀ m : Labels,
      (insertText m l.text).get? key = if l.name = key then some l.value else m.get? key) :
    (labels.foldl (fun m l => insertText m l.text) m).get? key =
      ((labels.map fun l => (l.name, l.value)).lookup key).or (m.get? key) := by
  induction labels generalizing m with
  | nil => rfl
  | cons l labels ih =>
      obtain ⟨first, rest⟩ := List.forall_mem_cons.mp each
      rw [List.map_cons, List.nodup_cons] at distinct
      rw [List.foldl_cons, ih distinct.2 rest, first, List.map_cons, List.lookup_cons]
      by_cases here : l.name = key
      · have absent : (labels.map fun l => (l.name, l.value)).lookup key = none := by
          rw [List.lookup_eq_none_iff]
          intro pair hp
          obtain ⟨d, hd, rfl⟩ := List.mem_map.mp hp
          rw [bne_iff_ne]
          intro same
          exact distinct.1 (List.mem_map.mpr ⟨d, hd, same.symm.trans here.symm⟩)
        rw [if_pos here, absent]
        simp [here]
      · have no : (key == l.name) = false := by simp [Ne.symm here]
        rw [if_neg here, no]

end Labelled

section Recorded
variable {s : Scrape} {name base k : Text} {labels : Labels} {v : ℚ}
  {es : List (Text × Labels × ℚ)}

theorem stripSuffix_append (base tail : Text) : stripSuffix tail (base ++ tail) = some base := by
  rw [stripSuffix, if_pos (List.suffix_append base tail)]
  simp

theorem stripSuffix_none {tail : Text} (h : ¬ tail <:+ name) : stripSuffix tail name = none :=
  if_neg h

/-- No name ends in two of the ways. -/
theorem ends_apart {a b : Text} (base : Text) (shorter : a.length ≤ b.length)
    (apart : ¬ a <:+ b) : ¬ a <:+ base ++ b := fun there =>
  apart (List.suffix_of_suffix_length_le there (List.suffix_append base b) shorter)

theorem ends_apart_of_longer {a b : Text} (base : Text) (longer : b.length ≤ a.length)
    (apart : ¬ b <:+ a) : ¬ a <:+ base ++ b := fun there =>
  apart (List.suffix_of_suffix_length_le (List.suffix_append base b) there longer)

theorem record_bucket : s.record (base ++ bucketEnd) labels v =
    match (labels.get? leKey).bind parseLe with
    | some le => { s with buckets := upsert s.buckets base [] (· ++ [(le, v)]) }
    | none => s := by
  have strip : stripSuffix "_bucket".toList (base ++ bucketEnd) = some base :=
    stripSuffix_append base _
  unfold Scrape.record
  rw [strip]
  rfl

theorem record_sum : s.record (base ++ sumEnd) labels v =
    { s with sums := upsert s.sums base (0, 0) fun e => (e.1 + v, e.2) } := by
  have bucket : stripSuffix "_bucket".toList (base ++ sumEnd) = none :=
    stripSuffix_none (ends_apart_of_longer base (by decide) (by decide))
  have strip : stripSuffix "_sum".toList (base ++ sumEnd) = some base := stripSuffix_append base _
  unfold Scrape.record
  rw [bucket, strip]

theorem record_count : s.record (base ++ countEnd) labels v =
    { s with sums := upsert s.sums base (0, 0) fun e => (e.1, e.2 + v) } := by
  have bucket : stripSuffix "_bucket".toList (base ++ countEnd) = none :=
    stripSuffix_none (ends_apart_of_longer base (by decide) (by decide))
  have sum : stripSuffix "_sum".toList (base ++ countEnd) = none :=
    stripSuffix_none (ends_apart base (by decide) (by decide))
  have strip : stripSuffix "_count".toList (base ++ countEnd) = some base :=
    stripSuffix_append base _
  unfold Scrape.record
  rw [bucket, sum, strip]

theorem record_plain (plain : PlainName name) : s.record name labels v =
    { s with
      values := upsert s.values name 0 (· + v)
      series := upsert s.series name [] (· ++ [⟨labels, v⟩]) } := by
  have bucket : stripSuffix "_bucket".toList name = none := stripSuffix_none plain.1
  have sum : stripSuffix "_sum".toList name = none := stripSuffix_none plain.2.1
  have count : stripSuffix "_count".toList name = none := stripSuffix_none plain.2.2
  unfold Scrape.record
  rw [bucket, sum, count]

/-- Every name is one of these. -/
theorem name_cases (name : Text) : PlainName name ∨ (∃ base, name = base ++ bucketEnd) ∨
    (∃ base, name = base ++ sumEnd) ∨ ∃ base, name = base ++ countEnd := by
  by_cases bucket : bucketEnd <:+ name
  · obtain ⟨base, whole⟩ := bucket
    exact .inr (.inl ⟨base, whole.symm⟩)
  · by_cases sum : sumEnd <:+ name
    · obtain ⟨base, whole⟩ := sum
      exact .inr (.inr (.inl ⟨base, whole.symm⟩))
    · by_cases count : countEnd <:+ name
      · obtain ⟨base, whole⟩ := count
        exact .inr (.inr (.inr ⟨base, whole.symm⟩))
      · exact .inl ⟨bucket, sum, count⟩

theorem not_plain_bucket (base : Text) : ¬ PlainName (base ++ bucketEnd) := fun plain =>
  plain.1 (List.suffix_append _ _)

theorem not_plain_sum (base : Text) : ¬ PlainName (base ++ sumEnd) := fun plain =>
  plain.2.1 (List.suffix_append _ _)

theorem not_plain_count (base : Text) : ¬ PlainName (base ++ countEnd) := fun plain =>
  plain.2.2 (List.suffix_append _ _)

theorem plain_ne {a : Text} (other : ¬ PlainName a) (plain : PlainName k) : a ≠ k := by
  rintro rfl
  exact other plain

theorem sum_ne_bucket (a b : Text) : a ++ sumEnd ≠ b ++ bucketEnd := fun same =>
  ends_apart_of_longer a (by decide) (by decide) (same ▸ List.suffix_append b bucketEnd)

theorem count_ne_bucket (a b : Text) : a ++ countEnd ≠ b ++ bucketEnd := fun same =>
  ends_apart_of_longer a (by decide) (by decide) (same ▸ List.suffix_append b bucketEnd)

theorem count_ne_sum (a b : Text) : a ++ countEnd ≠ b ++ sumEnd := fun same =>
  ends_apart a (by decide) (by decide) (same ▸ List.suffix_append b sumEnd)

/-- What one sample changes in each of the four maps. -/
theorem record_values (plain : PlainName k) : (s.record name labels v).values.get? k =
    if name = k then some ((s.values.get? k).getD 0 + v) else s.values.get? k := by
  obtain own | ⟨base, rfl⟩ | ⟨base, rfl⟩ | ⟨base, rfl⟩ := name_cases name
  · rw [record_plain own]
    simp only [upsert, SortedMap.get?_insert, eq_comm]
    split
    · next same => rw [same]
    · rfl
  · rw [if_neg (plain_ne (not_plain_bucket base) plain), record_bucket]
    cases (labels.get? leKey).bind parseLe <;> rfl
  · rw [if_neg (plain_ne (not_plain_sum base) plain), record_sum]
  · rw [if_neg (plain_ne (not_plain_count base) plain), record_count]

theorem record_series (plain : PlainName k) : (s.record name labels v).series.get? k =
    if name = k then some ((s.series.get? k).getD [] ++ [⟨labels, v⟩]) else s.series.get? k := by
  obtain own | ⟨base, rfl⟩ | ⟨base, rfl⟩ | ⟨base, rfl⟩ := name_cases name
  · rw [record_plain own]
    simp only [upsert, SortedMap.get?_insert, eq_comm]
    split
    · next same => rw [same]
    · rfl
  · rw [if_neg (plain_ne (not_plain_bucket base) plain), record_bucket]
    cases (labels.get? leKey).bind parseLe <;> rfl
  · rw [if_neg (plain_ne (not_plain_sum base) plain), record_sum]
  · rw [if_neg (plain_ne (not_plain_count base) plain), record_count]

/-- The bucket a sample is, of the histogram. -/
def bucketOf (base : Text) (e : Text × Labels × ℚ) : Option (Number × ℚ) :=
  if e.1 = base ++ bucketEnd then ((e.2.1.get? leKey).bind parseLe).map (·, e.2.2) else none

theorem record_buckets : (s.record name labels v).buckets.get? base =
    match bucketOf base (name, labels, v) with
    | some entry => some ((s.buckets.get? base).getD [] ++ [entry])
    | none => s.buckets.get? base := by
  have other (ne : name ≠ base ++ bucketEnd) : bucketOf base (name, labels, v) = none := if_neg ne
  obtain own | ⟨b, rfl⟩ | ⟨b, rfl⟩ | ⟨b, rfl⟩ := name_cases name
  · rw [other (plain_ne (not_plain_bucket base) own).symm, record_plain own]
  · rw [record_bucket]
    by_cases same : b = base
    · subst same
      have here : bucketOf b (b ++ bucketEnd, labels, v) =
          ((labels.get? leKey).bind parseLe).map (·, v) := if_pos rfl
      rw [here]
      cases (labels.get? leKey).bind parseLe with
      | none => rfl
      | some le => simp [upsert]
    · rw [other fun whole => same (List.append_cancel_right whole)]
      cases (labels.get? leKey).bind parseLe with
      | none => rfl
      | some le => simp [upsert, Ne.symm same]
  · rw [other (sum_ne_bucket b base), record_sum]
  · rw [other (count_ne_bucket b base), record_count]

theorem record_sums : (s.record name labels v).sums.get? base =
    if name = base ++ sumEnd then
      some (((s.sums.get? base).getD (0, 0)).1 + v, ((s.sums.get? base).getD (0, 0)).2)
    else if name = base ++ countEnd then
      some (((s.sums.get? base).getD (0, 0)).1, ((s.sums.get? base).getD (0, 0)).2 + v)
    else s.sums.get? base := by
  obtain own | ⟨b, rfl⟩ | ⟨b, rfl⟩ | ⟨b, rfl⟩ := name_cases name
  · rw [if_neg (plain_ne (not_plain_sum base) own).symm,
      if_neg (plain_ne (not_plain_count base) own).symm, record_plain own]
  · rw [if_neg (sum_ne_bucket base b).symm, if_neg (count_ne_bucket base b).symm, record_bucket]
    cases (labels.get? leKey).bind parseLe <;> rfl
  · rw [record_sum, if_neg (count_ne_sum base b).symm]
    by_cases same : b = base
    · subst same
      simp [upsert]
    · rw [if_neg fun whole => same (List.append_cancel_right whole)]
      simp [upsert, Ne.symm same]
  · rw [record_count, if_neg (count_ne_sum b base)]
    by_cases same : b = base
    · subst same
      simp [upsert]
    · rw [if_neg fun whole => same (List.append_cancel_right whole)]
      simp [upsert, Ne.symm same]

end Recorded

section Runs
variable {fs : List (Sample × ℚ)} {ls : List Line} {name base : Text}

/-- What is recorded of a list of events. -/
def recorded (es : List (Text × Labels × ℚ)) : Scrape :=
  es.foldl (fun s e => s.record e.1 e.2.1 e.2.2) .empty

/-- Where each event of a kind is added to what is there, all of them are. -/
theorem accumulated {α : Type} {r : Scrape → Option α} {p : Text × Labels × ℚ → Bool}
    {f : α → Text × Labels × ℚ → α} {z : α} (none_yet : r .empty = none)
    (step : ∀ s e, r (s.record e.1 e.2.1 e.2.2) =
      if p e then some (f ((r s).getD z) e) else r s)
    (es : List (Text × Labels × ℚ)) : r (recorded es) =
      if es.filter p = [] then none else some ((es.filter p).foldl f z) := by
  induction es using List.reverseRecOn with
  | nil => exact none_yet
  | append_singleton es e ih =>
      have run : recorded (es ++ [e]) = (recorded es).record e.1 e.2.1 e.2.2 := by
        rw [recorded, List.foldl_append]
        rfl
      rw [run, step, List.filter_append]
      cases here : p e with
      | false =>
          have none : [e].filter p = [] := by simp [here]
          rw [if_neg Bool.false_ne_true, none, List.append_nil, ih]
      | true =>
          have one : [e].filter p = [e] := by simp [here]
          have longer : es.filter p ++ [e] ≠ [] :=
            List.append_ne_nil_of_right_ne_nil _ (List.cons_ne_nil e [])
          rw [if_pos rfl, one, if_neg longer, List.foldl_append, ih]
          by_cases empty : es.filter p = []
          · rw [if_pos empty, empty]
            rfl
          · rw [if_neg empty]
            rfl

theorem foldl_sum (es : List (Text × Labels × ℚ)) (q : ℚ) :
    es.foldl (fun acc e => acc + e.2.2) q = q + (es.map (·.2.2)).sum := by
  induction es generalizing q with
  | nil => simp
  | cons e es ih => rw [List.foldl_cons, ih, List.map_cons, List.sum_cons, add_assoc]

theorem foldl_collect {α : Type} (f : Text × Labels × ℚ → Option α)
    (es : List (Text × Labels × ℚ))
    (xs : List α) : es.foldl (fun acc e => acc ++ (f e).toList) xs = xs ++ es.filterMap f := by
  induction es generalizing xs with
  | nil => simp
  | cons e es ih =>
      rw [List.foldl_cons, ih, List.append_assoc]
      cases here : f e with
      | none => rw [List.filterMap_cons_none here]; rfl
      | some x => rw [List.filterMap_cons_some here]; rfl

theorem recorded_values (plain : PlainName name) (es : List (Text × Labels × ℚ)) :
    (recorded es).values.get? name =
      if es.filter (·.1 = name) = [] then none
      else some ((es.filter (·.1 = name)).map (·.2.2)).sum := by
  have run := accumulated (r := fun s => s.values.get? name) (p := (·.1 = name))
    (f := fun acc e => acc + e.2.2) (z := 0) rfl (fun s e => by simp [record_values plain]) es
  rw [run, foldl_sum, zero_add]

theorem recorded_series (plain : PlainName name) (es : List (Text × Labels × ℚ)) :
    (recorded es).series.get? name =
      if es.filter (·.1 = name) = [] then none
      else some ((es.filter (·.1 = name)).map fun e => ⟨e.2.1, e.2.2⟩) := by
  have run := accumulated (r := fun s => s.series.get? name) (p := (·.1 = name))
    (f := fun acc e => acc ++ (some (⟨e.2.1, e.2.2⟩ : Series)).toList) (z := []) rfl
    (fun s e => by simp [record_series plain]) es
  have collected := foldl_collect (fun e => some (⟨e.2.1, e.2.2⟩ : Series))
    (es.filter (·.1 = name)) []
  rw [run, collected, List.nil_append, List.filterMap_eq_map']

theorem filterMap_isSome {α : Type} (f : Text × Labels × ℚ → Option α)
    (es : List (Text × Labels × ℚ)) :
    (es.filter fun e => (f e).isSome).filterMap f = es.filterMap f ∧
      (es.filter (fun e => (f e).isSome) = [] ↔ es.filterMap f = []) := by
  induction es with
  | nil => simp
  | cons e es ih =>
      cases here : f e with
      | none =>
          rw [List.filter_cons_of_neg (by rw [here]; exact Bool.false_ne_true),
            List.filterMap_cons_none here]
          exact ih
      | some x =>
          rw [List.filter_cons_of_pos (by rw [here]; rfl), List.filterMap_cons_some here,
            List.filterMap_cons_some here, ih.1]
          exact ⟨rfl, by simp⟩

theorem recorded_buckets (base : Text) (es : List (Text × Labels × ℚ)) :
    (recorded es).buckets.get? base =
      if es.filterMap (bucketOf base) = [] then none else some (es.filterMap (bucketOf base)) := by
  have run := accumulated (r := fun s => s.buckets.get? base)
    (p := fun e => (bucketOf base e).isSome) (f := fun acc e => acc ++ (bucketOf base e).toList)
    (z := []) rfl (fun s e => by
      rw [record_buckets]
      cases bucketOf base e <;> rfl) es
  obtain ⟨same, empty⟩ := filterMap_isSome (bucketOf base) es
  rw [run, foldl_collect, List.nil_append, same]
  simp only [empty]

/-- One sum or one count more. -/
def addSum (base : Text) (acc : ℚ × ℚ) (e : Text × Labels × ℚ) : ℚ × ℚ :=
  if e.1 = base ++ sumEnd then (acc.1 + e.2.2, acc.2) else (acc.1, acc.2 + e.2.2)

/-- A sample that counts in a histogram's sums. -/
def counts (base : Text) (e : Text × Labels × ℚ) : Bool :=
  e.1 = base ++ sumEnd || e.1 = base ++ countEnd

theorem foldl_addSum (base : Text) (es : List (Text × Labels × ℚ)) (acc : ℚ × ℚ) :
    (es.filter (counts base)).foldl (addSum base) acc =
      (acc.1 + ((es.filter (·.1 = base ++ sumEnd)).map (·.2.2)).sum,
        acc.2 + ((es.filter (·.1 = base ++ countEnd)).map (·.2.2)).sum) := by
  induction es generalizing acc with
  | nil => simp
  | cons e es ih =>
      by_cases sum : e.1 = base ++ sumEnd
      · have other : e.1 ≠ base ++ countEnd := fun count =>
          count_ne_sum base base (count.symm.trans sum)
        have here : counts base e = true := by simp [counts, sum]
        have added : addSum base acc e = (acc.1 + e.2.2, acc.2) := if_pos sum
        rw [List.filter_cons_of_pos here, List.foldl_cons, ih, added,
          List.filter_cons_of_pos (by simpa using sum),
          List.filter_cons_of_neg (by simpa using other), List.map_cons, List.sum_cons, add_assoc]
      · have not_added : addSum base acc e = (acc.1, acc.2 + e.2.2) := if_neg sum
        by_cases count : e.1 = base ++ countEnd
        · have here : counts base e = true := by simp [counts, count]
          rw [List.filter_cons_of_pos here, List.foldl_cons, ih, not_added,
            List.filter_cons_of_neg (by simpa using sum),
            List.filter_cons_of_pos (by simpa using count), List.map_cons, List.sum_cons, add_assoc]
        · have other : ¬ counts base e = true := by simp [counts, sum, count]
          rw [List.filter_cons_of_neg other, ih, List.filter_cons_of_neg (by simpa using sum),
            List.filter_cons_of_neg (by simpa using count)]

theorem recorded_sums (base : Text) (es : List (Text × Labels × ℚ)) :
    (recorded es).sums.get? base =
      if es.filter (·.1 = base ++ sumEnd) = [] ∧ es.filter (·.1 = base ++ countEnd) = []
      then none
      else some (((es.filter (·.1 = base ++ sumEnd)).map (·.2.2)).sum,
        ((es.filter (·.1 = base ++ countEnd)).map (·.2.2)).sum) := by
  have run := accumulated (r := fun s => s.sums.get? base) (p := counts base)
    (f := addSum base) (z := (0, 0)) rfl (fun s e => by
      rw [record_sums]
      by_cases sum : e.1 = base ++ sumEnd
      · simp [sum, addSum, counts]
      · simp [sum, addSum, counts]) es
  have empty : es.filter (counts base) = [] ↔
      es.filter (·.1 = base ++ sumEnd) = [] ∧ es.filter (·.1 = base ++ countEnd) = [] := by
    simp only [List.filter_eq_nil_iff, counts, Bool.or_eq_true, decide_eq_true_eq, not_or]
    exact forall₂_and
  rw [run, foldl_addSum, zero_add, zero_add]
  simp only [empty]

end Runs

section Spoken
variable {fs : List (Sample × ℚ)} {ls : List Line} {s : Sample} {v : ℚ} {name base key : Text}

theorem splitLabels_none (h : '\x7b' ∉ name) : splitLabels name = (name, .empty) := by
  have dropped : name.dropWhile (· ≠ '\x7b') = [] := by
    rw [List.dropWhile_eq_nil_iff]
    exact fun x hx => decide_eq_true fun same => h (same ▸ hx)
  unfold splitLabels
  rw [dropped]

theorem splitLabels_braces {body : Text} (h : '\x7b' ∉ name)
    (ends : ∀ c ∈ body.getLast?, c ≠ '\x7d') :
    splitLabels (name ++ '\x7b' :: (body ++ ['\x7d'])) = (name, insertText .empty body) := by
  have other : ∀ x ∈ name, decide (x ≠ '\x7b') = true := fun x hx =>
    decide_eq_true fun same => h (same ▸ hx)
  have stop : ¬ decide ('\x7b' ≠ '\x7b') = true := by simp
  have stripped : (body ++ ['\x7d']).rdropWhile (· = '\x7d') = body := by
    rw [List.rdropWhile_concat_pos _ _ _ (by decide), List.rdropWhile_eq_self_iff]
    intro some_ brace
    exact ends _ (List.getLast?_eq_some_getLast some_) (by simpa using brace)
  unfold splitLabels
  rw [List.dropWhile_append_of_pos other, List.dropWhile_cons, if_neg stop,
    List.takeWhile_append_of_pos other, List.takeWhile_cons, if_neg stop, List.append_nil]
  simp only [stripped]
  rfl

/-- How a sample's line is split. -/
theorem Sample.splitLabels_head (direct : s.Direct) : splitLabels s.head =
    (s.name, ((s.braces.map fun b => insertText .empty (written b.labels b.tail)).getD .empty)) := by
  have brace : '\x7b' ∉ s.name := s.named.absent rfl
  unfold Sample.head
  cases braces : s.braces with
  | none =>
      rw [Option.map_none, Option.getD_none, List.append_nil]
      exact splitLabels_none brace
  | some b =>
      have text : s.name ++ ((some b).map Braces.text).getD [] =
          s.name ++ '\x7b' :: (written b.labels b.tail ++ ['\x7d']) := by
        simp [Braces.text, direct.close b braces]
      rw [text]
      exact splitLabels_braces brace (written_last b.tail_blank)

theorem Sample.event_name (direct : s.Direct) : (s.event v).1 = s.name := by
  rw [Sample.event, Sample.splitLabels_head direct]

/-- The label of a key, where every label is read as itself. -/
theorem Sample.event_label (direct : s.Direct)
    (each : ∀ b ∈ s.braces, ∀ l ∈ b.labels, ∀ m : Labels, (insertText m l.text).get? key =
      if l.name = key then some l.value else m.get? key) :
    (s.event v).2.1.get? key = s.label key := by
  rw [Sample.event, Sample.splitLabels_head direct]
  unfold Sample.label Sample.labels
  cases braces : s.braces with
  | none => rfl
  | some b =>
      simp only [Option.map_some, Option.getD_some, insertText_written b.tail_blank]
      rw [foldl_get? b.distinct (each b braces), SortedMap.get?_empty, Option.or_none]

theorem Sample.label_plain (direct : s.Direct) (plain : PlainName s.name) (key : Text) :
    (s.event v).2.1.get? key = s.label key := by
  apply Sample.event_label direct
  intro b hb l hl m
  rw [insertText_clean (direct.plain plain b hb l hl), SortedMap.get?_insert]
  by_cases own : l.name = key
  · rw [if_pos own, if_pos own.symm]
  · rw [if_neg own, if_neg (Ne.symm own)]

theorem Sample.label_bucket (direct : s.Direct) (bucket : bucketEnd <:+ s.name) :
    (s.event v).2.1.get? leKey = s.label leKey := by
  apply Sample.event_label direct
  intro b hb l hl m
  obtain ⟨clean, quiet⟩ := direct.bucket bucket b hb l hl
  by_cases le : l.name = leKey
  · rw [insertText_clean (clean le), SortedMap.get?_insert, if_pos le.symm, if_pos le]
  · rw [insertText_quiet le quiet, if_neg le]

/-- The events of samples. -/
def eventsOf (fs : List (Sample × ℚ)) : List (Text × Labels × ℚ) :=
  fs.map fun s => s.1.event s.2

theorem filter_events (direct : ∀ s ∈ fs, s.1.Direct) (name : Text) :
    (eventsOf fs).filter (·.1 = name) = eventsOf (named fs name) := by
  rw [eventsOf, List.filter_map, named, eventsOf]
  congr 1
  apply List.filter_congr
  intro s hs
  simp [Sample.event_name (direct s hs)]

theorem sum_events (fs : List (Sample × ℚ)) : ((eventsOf fs).map (·.2.2)).sum = summed fs := by
  rw [eventsOf, List.map_map]
  rfl

theorem eventsOf_nil : eventsOf fs = [] ↔ fs = [] := List.map_eq_nil_iff

/-- The series of a plain name that have a label, as they are recorded. -/
theorem where_events (direct : ∀ s ∈ fs, s.1.Direct) (plain : ∀ s ∈ fs, PlainName s.1.name)
    (label value : Text) :
    ((((eventsOf fs).map fun e => (⟨e.2.1, e.2.2⟩ : Series)).filter fun x =>
        x.labels.get? label = some value).map (·.value)).sum =
      summed (fs.filter fun x => x.1.label label = some value) := by
  rw [eventsOf, List.map_map, List.filter_map, List.map_map, summed]
  congr 1
  have same : fs.filter ((fun x : Series => decide (x.labels.get? label = some value)) ∘
      (fun e => (⟨e.2.1, e.2.2⟩ : Series)) ∘ fun s => s.1.event s.2) =
      fs.filter fun x => x.1.label label = some value := by
    apply List.filter_congr
    intro s hs
    simp only [Function.comp, Sample.label_plain (direct s hs) (plain s hs) label]
  rw [same]
  rfl

theorem buckets_events (direct : ∀ s ∈ fs, s.1.Direct) (base : Text) :
    (eventsOf fs).filterMap (bucketOf base) = bucketSamples fs base := by
  rw [eventsOf, List.filterMap_map, bucketSamples, named, List.filterMap_filter]
  apply List.filterMap_congr
  intro s hs
  have own := Sample.event_name (v := s.2) (direct s hs)
  by_cases bucket : s.1.name = base ++ bucketEnd
  · have label := Sample.label_bucket (v := s.2) (direct s hs)
      (bucket ▸ List.suffix_append base bucketEnd)
    simp only [Function.comp, bucketOf, own, bucket, if_true, decide_true, label]
    rfl
  · simp [bucketOf, own, bucket]

theorem parse_exposition (apart : ∀ s, .sample s ∈ ls → s.gap ≠ []) :
    parse (exposition ls) =
      { recorded (eventsOf (finite ls)) with
        buckets := (recorded (eventsOf (finite ls))).buckets.map
          (List.insertionSort fun a c => a.1.totalLe c.1) } := by
  have run :
      (lines (exposition ls)).foldl Scrape.line .empty = recorded (eventsOf (finite ls)) := by
    rw [recorded, eventsOf, ← read_exposition apart, List.foldl_filterMap]
    congr 1
    funext s l
    unfold Scrape.line
    cases readLine l <;> rfl
  rw [parse, run]

end Spoken

section Bounds
variable {entries : List (Number × ℚ)} {e : Number × ℚ}

theorem Number.totalLe_total (a b : Number) : a.totalLe b = true ∨ b.totalLe a = true := by
  cases a <;> cases b <;> simp [Number.totalLe, le_total]

theorem Number.totalLe_trans {a b c : Number} (h : a.totalLe b = true) (h' : b.totalLe c = true) :
    a.totalLe c = true := by
  cases a <;> cases b <;> cases c <;> simp [Number.totalLe] at h h' ⊢
  exact h.trans h'

instance : Std.Total fun a c : Number => a.totalLe c = true := ⟨Number.totalLe_total⟩

instance : IsTrans Number fun a c => a.totalLe c = true := ⟨fun _ _ _ => Number.totalLe_trans⟩

/-- Where a bound stands once, the one entry with it is its total. -/
theorem filter_bound (distinct : (entries.map (·.1)).Nodup) (member : e ∈ entries) :
    entries.filter (·.1 = e.1) = [e] := by
  induction entries with
  | nil => cases member
  | cons x entries ih =>
      rw [List.map_cons, List.nodup_cons] at distinct
      cases List.mem_cons.mp member with
      | inl here =>
          subst here
          have none : entries.filter (·.1 = e.1) = [] := by
            rw [List.filter_eq_nil_iff]
            intro y hy same
            exact distinct.1 (List.mem_map.mpr ⟨y, hy, by simpa using same⟩)
          rw [List.filter_cons_of_pos (by simp), none]
      | inr later =>
          have other : x.1 ≠ e.1 := fun same =>
            distinct.1 (List.mem_map.mpr ⟨e, later, same.symm⟩)
          rw [List.filter_cons_of_neg (by simpa using other), ih distinct.2 later]

/-- Sorting the samples is merging them just where every bound stands once. -/
theorem sorted_eq_merged : entries.insertionSort (fun a c => a.1.totalLe c.1) = merged entries ↔
    (entries.map (·.1)).Nodup := by
  constructor
  · intro same
    have lengths := congrArg List.length same
    rw [List.length_insertionSort, merged, List.length_map, List.length_insertionSort,
      ← List.length_map (f := Prod.fst)] at lengths
    exact List.dedup_eq_self.mp
      ((List.dedup_sublist _).eq_of_length lengths.symm)
  · intro distinct
    have kept : (entries.map (·.1)).map
        (fun le => (le, ((entries.filter (·.1 = le)).map (·.2)).sum)) = entries := by
      rw [List.map_map]
      conv_rhs => rw [← List.map_id entries]
      apply List.map_congr_left
      intro e he
      simp [filter_bound distinct he]
    rw [merged, distinct.dedup]
    conv_lhs => rw [← kept]
    symm
    apply List.map_insertionSort
    exact fun _ _ _ _ => Iff.rfl

/-- The last of the merged entries is the one with no bound, if there is one. -/
theorem merged_last (numbers : ∀ e ∈ entries, e.1 ≠ .nan)
    (unbounded : ∃ e ∈ entries, e.1 = .infinity) :
    (merged entries).getLast?.map (·.2) =
      some ((entries.filter (·.1 = .infinity)).map (·.2)).sum := by
  obtain ⟨e, member, infinite⟩ := unbounded
  have pairwise := List.pairwise_insertionSort (fun a c : Number => a.totalLe c)
    (entries.map (·.1)).dedup
  have inside (le : Number) :
      le ∈ (entries.map (·.1)).dedup.insertionSort (fun a c => a.totalLe c) ↔
        ∃ e ∈ entries, e.1 = le := by
    rw [List.mem_insertionSort, List.mem_dedup, List.mem_map]
  have there := (inside .infinity).mpr ⟨e, member, infinite⟩
  rw [merged, List.getLast?_map, Option.map_map]
  generalize (entries.map (·.1)).dedup.insertionSort (fun a c => a.totalLe c) = sorted
    at pairwise inside there ⊢
  obtain ⟨front, x, rfl⟩ := (List.eq_nil_or_concat sorted).resolve_left (List.ne_nil_of_mem there)
  rw [List.concat_eq_append] at pairwise inside there ⊢
  have last : x = .infinity := by
    obtain ⟨d, hd, same⟩ := (inside x).mp (by simp)
    have number : x ≠ .nan := same ▸ numbers d hd
    rw [List.mem_append, List.mem_singleton] at there
    cases there with
    | inr here => exact here.symm
    | inl before =>
        have below : Number.infinity.totalLe x = true :=
          (List.pairwise_append.mp pairwise).2.2 _ before x List.mem_cons_self
        cases x with
        | infinity => rfl
        | nan => exact absurd rfl number
        | negInfinity => cases below
        | finite q => cases below
  rw [List.getLast?_concat, last]
  rfl

end Bounds

/-- What a scrape of lines that are written faithfully says: everything is folded as the
samples say exactly if no bound of a histogram stands on two of them. -/
theorem exposition_folded (ls : List Line) (faithful : Faithful ls) :
    Folded (finite ls) (parse (exposition ls)) ↔ Distinct (finite ls) := by
  have direct := faithful.direct
  have read := parse_exposition faithful.apart
  have buckets (base : Text) : (parse (exposition ls)).buckets.get? base =
      if bucketSamples (finite ls) base = [] then none
      else some ((bucketSamples (finite ls) base).insertionSort fun a c => a.1.totalLe c.1) := by
    rw [read, SortedMap.get?_map, recorded_buckets, buckets_events direct]
    split <;> rfl
  have merges (base : Text) (distinct : Distinct (finite ls)) :
      (parse (exposition ls)).buckets.get? base =
        if bucketSamples (finite ls) base = [] then none
        else some (merged (bucketSamples (finite ls) base)) := by
    rw [buckets, sorted_eq_merged.mpr (distinct base)]
  constructor
  · intro folded base
    have same := (buckets base).symm.trans (folded.buckets base)
    by_cases empty : bucketSamples (finite ls) base = []
    · rw [empty]
      exact List.nodup_nil
    · rw [if_neg empty, if_neg empty] at same
      exact sorted_eq_merged.mp (Option.some.inj same)
  · intro distinct
    constructor
    · intro name plain
      rw [read, Scrape.get, recorded_values plain, filter_events direct, sum_events]
      simp only [eventsOf_nil]
    · intro name label value plain
      have own : ∀ s ∈ named (finite ls) name, s.1.Direct ∧ PlainName s.1.name := by
        intro s hs
        obtain ⟨member, same⟩ := List.mem_filter.mp hs
        exact ⟨direct s member, (decide_eq_true_eq.mp same).symm ▸ plain⟩
      have series := recorded_series plain (eventsOf (finite ls))
      rw [filter_events direct] at series
      simp only [eventsOf_nil] at series
      rw [read, Scrape.sumWhere]
      simp only [series]
      by_cases empty : named (finite ls) name = []
      · rw [if_pos empty, if_pos empty]
        rfl
      · rw [if_neg empty, if_neg empty, Option.map_some,
          where_events (fun s hs => (own s hs).1) fun s hs => (own s hs).2]
    · intro base
      rw [read]
      simp only [recorded_sums, filter_events direct, sum_events, eventsOf_nil]
    · exact fun base => merges base distinct
    · intro base numbers unbounded same
      have some_ : bucketSamples (finite ls) base ≠ [] := by
        obtain ⟨e, member, _⟩ := unbounded
        exact List.ne_nil_of_mem member
      refine ⟨_, (merges base distinct).trans (if_neg some_), ?_⟩
      rw [merged_last numbers unbounded, same]

section Fixed

instance (s : Sample) : Decidable s.Direct :=
  decidable_of_iff
    ((∀ b ∈ s.braces, b.before = []) ∧
      (PlainName s.name → ∀ b ∈ s.braces, ∀ l ∈ b.labels, Clean l.value) ∧
      (bucketEnd <:+ s.name → ∀ b ∈ s.braces, ∀ l ∈ b.labels,
        (l.name = leKey → Clean l.value) ∧ ∀ piece ∈ (pieces ',' l.text).tail,
          keyOf piece ≠ some leKey))
    ⟨fun h => ⟨h.1, h.2.1, h.2.2⟩, fun h => ⟨h.close, h.plain, h.bucket⟩⟩

/-- A figure. -/
def digit (c : Char) (value : ℚ) (solid : isWhitespace c = false)
    (reads : parseF64 [c] = some (.finite value)) : Written where
  text := [c]
  number := .finite value
  some_ := List.cons_ne_nil _ _
  solid := fun _ hc => by rw [List.mem_singleton.mp hc, solid]
  reads := reads

def two : Written := digit '2' 2 rfl (by decide +kernel)

def three : Written := digit '3' 3 rfl (by decide +kernel)

/-- A label with no blanks around it. -/
def plainLabel (name value : Text) (named : IsName name) : Label :=
  ⟨[], name, [], [], value, [], named, fun _ hc => absurd hc List.not_mem_nil⟩

theorem isName_of_all {name : Text} (some_ : name ≠ []) (h : name.all nameChar = true) :
    IsName name := ⟨some_, List.all_eq_true.mp h⟩

/-- A line with one blank on it, before the value. -/
def plainLine (name : Text) (labels : List Label) (value : Written) (isName : IsName name)
    (distinct : (labels.map Label.name).Nodup) : Sample where
  lead := []
  name := name
  braces := some {
    before := []
    labels := labels
    tail := none
    blank := fun _ hc => absurd hc List.not_mem_nil
    tail_blank := nofun
    distinct := distinct }
  gap := [' ']
  value := value
  timestamp := none
  trail := []
  named := isName
  blank := fun _ hc => .inl (List.mem_singleton.mp hc)
  apart := nofun
  stamped := nofun

/-- The label that tells the sets apart. -/
def setLabel (set : Text) : Label := plainLabel ['m'] set (isName_of_all (by decide) (by decide))

/-- A bucket of a label set. -/
def boundLine (set le : Text) (value : Written) : Sample :=
  plainLine "wait_bucket".toList
    [setLabel set, plainLabel leKey le (isName_of_all (by decide) (by decide))] value
    (isName_of_all (by decide) (by decide)) (by decide : [['m'], leKey].Nodup)

/-- A bucket of a label set, with no bound. -/
def bucketLine (set : Text) : Sample := boundLine set "+Inf".toList three

/-- The buckets of two label sets stand side by side. -/
theorem exposition_folded_sets :
    ¬ ∀ ls, Folded (finite ls) (parse (exposition ls)) := by
  intro folded
  have claimed := (folded [.sample (bucketLine ['a']), .sample (bucketLine ['b'])]).buckets
    "wait".toList
  revert claimed
  decide +kernel

/-- A counter of one label, with blanks and a timestamp. -/
def counterLine : Sample where
  lead := []
  name := "steps".toList
  braces := some {
    before := []
    labels := [setLabel "a = b".toList]
    tail := some [' ']
    blank := fun _ hc => absurd hc List.not_mem_nil
    tail_blank := by
      rintro t ⟨⟩ c hc
      exact .inl (List.mem_singleton.mp hc)
    distinct := by decide }
  gap := [' ']
  value := three
  timestamp := some (['\t'], three)
  trail := []
  named := isName_of_all (by decide) (by decide)
  blank := fun c hc => .inl (List.mem_singleton.mp hc)
  apart := nofun
  stamped := by
    rintro t ⟨⟩
    exact ⟨by decide, fun c hc => .inr (List.mem_singleton.mp hc)⟩

/-- A counter of two label sets and a histogram of one. -/
def engineLines : List Line :=
  [.comment [] " TYPE steps counter".toList (fun _ hc => absurd hc List.not_mem_nil) (by decide),
    .sample counterLine,
    .sample (plainLine "steps".toList [setLabel ['c']] two (isName_of_all (by decide) (by decide))
      (by decide)),
    .sample (boundLine ['a'] "0.5".toList two), .sample (bucketLine ['a']),
    .sample (plainLine "wait_sum".toList [setLabel ['a']] two
      (isName_of_all (by decide) (by decide)) (by decide)),
    .sample (plainLine "wait_count".toList [setLabel ['a']] three
      (isName_of_all (by decide) (by decide)) (by decide))]

theorem exposition_folded_engine :
    Folded (finite engineLines) (parse (exposition engineLines)) ∧
      (parse (exposition engineLines)).get "steps".toList = some 5 ∧
      (parse (exposition engineLines)).buckets.get? "wait".toList =
        some [(.finite (1 / 2), 2), (.infinity, 3)] := by
  have faithful : Faithful engineLines := by
    refine ⟨fun s member => ?_, by decide +kernel⟩
    simp only [engineLines, List.mem_cons, reduceCtorEq, Line.sample.injEq, List.not_mem_nil,
      or_false, false_or] at member
    rcases member with rfl | rfl | rfl | rfl | rfl | rfl <;> exact List.cons_ne_nil _ _
  have distinct : Distinct (finite engineLines) := by
    intro base
    by_cases wait : base = "wait".toList
    · rw [wait]
      decide +kernel
    · -- No other name of a bucket stands in the text.
      have only : ∀ s ∈ finite engineLines, s.1.name = "wait".toList ++ bucketEnd ∨
          ¬ bucketEnd <:+ s.1.name := by decide +kernel
      have none : named (finite engineLines) (base ++ bucketEnd) = [] := by
        refine List.filter_eq_nil_iff.mpr fun s hs => ?_
        rw [decide_eq_true_eq]
        intro same
        cases only s hs with
        | inl is_ => exact wait (List.append_cancel_right (same.symm.trans is_))
        | inr other => exact other ⟨base, same.symm⟩
      rw [bucketSamples, none]
      exact List.nodup_nil
  have folded := (exposition_folded engineLines faithful).mpr distinct
  refine ⟨folded, ?_, ?_⟩
  · rw [folded.values _ (by decide)]
    decide +kernel
  · rw [folded.buckets]
    decide +kernel

end Fixed

end Metrics
end Metralectl
