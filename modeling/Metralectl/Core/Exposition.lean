import Metralectl.Core.Metrics
import Metralectl.Core.Text
import Metralectl.Library.SortedMap
import Mathlib.Data.Char
import Mathlib.Data.List.DropRight
import Mathlib.Data.List.Lex
import Mathlib.Data.List.Sort

/-!
An engine's metrics as they are read from the text it exposes: a sample a line, its
labels folded away by summing across them.
-/
namespace Metralectl
namespace Metrics
open SortedMaps

abbrev Text := List Char

/-- The digits of a decimal number. -/
def digitsValue (digits : Text) : Nat :=
  digits.foldl (fun n c => n * 10 + (c.toNat - '0'.toNat)) 0

/-- An exponent's digits after a sign, or with none. -/
def signedValue : Text → Option Int
  | '-' :: digits =>
      if digits ≠ [] ∧ digits.all Char.isDigit then some (-digitsValue digits) else none
  | '+' :: digits =>
      if digits ≠ [] ∧ digits.all Char.isDigit then some (digitsValue digits) else none
  | digits => if digits ≠ [] ∧ digits.all Char.isDigit then some (digitsValue digits) else none

/-- Digits with at most one point among them, and an exponent. -/
def decimalValue (text : Text) : Option ℚ :=
  let whole := text.takeWhile Char.isDigit
  let behind := text.dropWhile Char.isDigit
  let (fraction, rest) := match behind with
    | '.' :: more => (more.takeWhile Char.isDigit, more.dropWhile Char.isDigit)
    | _ => ([], behind)
  let exponent : Option Int := match rest with
    | [] => some 0
    | e :: digits => if e = 'e' ∨ e = 'E' then signedValue digits else none
  if whole = [] ∧ fraction = [] then none
  else exponent.map fun e =>
    (digitsValue (whole ++ fraction) : ℚ) * 10 ^ (e - (fraction.length : Int))

/-- A floating-point number as the standard library reads it, exactly. -/
def parseF64 (text : Text) : Option Number :=
  let (negative, body) := match text with
    | '-' :: body => (true, body)
    | '+' :: body => (false, body)
    | body => (false, body)
  let word := body.map Char.toLower
  if word = "inf".toList ∨ word = "infinity".toList then
    some (if negative then .negInfinity else .infinity)
  else if word = "nan".toList then some .nan
  else (decimalValue body).map fun value => .finite (if negative then -value else value)

def trimEnd (text : Text) : Text := text.rdropWhile isWhitespace

/-- What is before and after the last character of a kind. -/
def rsplitOnce (kind : Char → Bool) (text : Text) : Option (Text × Text) :=
  match text.reverse.dropWhile fun c => !kind c with
  | [] => none
  | _ :: front => some (front.reverse, text.rtakeWhile fun c => !kind c)

def splitOnce (sep : Char) (text : Text) : Option (Text × Text) :=
  match text.dropWhile (· ≠ sep) with
  | [] => none
  | _ :: rest => some (text.takeWhile (· ≠ sep), rest)

/-- Split a line into everything before the value and the value itself. A trailing
timestamp is optional. -/
def splitValue (line : Text) : Option (Text × Text) :=
  match rsplitOnce isWhitespace line with
  | none => none
  | some (head, tail) =>
      if (parseF64 tail).isNone then none
      else
        match rsplitOnce isWhitespace (trimEnd head) with
        | some (h2, maybeValue) =>
            if (parseF64 maybeValue).isSome ∧ h2.any (fun c => !isWhitespace c) then
              some (trimEnd h2, maybeValue)
            else some (trimEnd head, tail)
        | none => some (trimEnd head, tail)

abbrev Labels := SortedMap Text Text

def trimQuotes (text : Text) : Text := (text.dropWhile (· = '"')).rdropWhile (· = '"')

/-- One piece between commas, which is a label if it has an equals sign. -/
def insertPair (labels : Labels) (pair : Text) : Labels :=
  match splitOnce '=' pair with
  | some (k, v) => labels.insert (trimChars k) (trimQuotes (trimChars v))
  | none => labels

/-- Split a name and the labels in braces after it. -/
def splitLabels (head : Text) : Text × Labels :=
  match head.dropWhile (· ≠ '\x7b') with
  | [] => (head, .empty)
  | _ :: rest =>
      let body := rest.rdropWhile (· = '\x7d')
      (head.takeWhile (· ≠ '\x7b'), (pieces ',' body).foldl insertPair .empty)

def parseLe (raw : Text) : Option Number :=
  if raw = "+Inf".toList ∨ raw = "Inf".toList then some .infinity else parseF64 raw

structure Series where
  labels : Labels
  value : ℚ
deriving DecidableEq

/-- One scrape, reduced to the series that are used. -/
structure Scrape where
  /-- Plain counters and gauges, summed across labels. -/
  values : SortedMap Text ℚ
  /-- Every sample of these with its labels intact. -/
  series : SortedMap Text (List Series)
  buckets : SortedMap Text Buckets
  /-- Histogram sums and counts. -/
  sums : SortedMap Text (ℚ × ℚ)
deriving DecidableEq

namespace Scrape

def empty : Scrape := ⟨.empty, .empty, .empty, .empty⟩

def get (s : Scrape) (name : Text) : Option ℚ := s.values.get? name

/-- Only the samples whose label has the value. -/
def sumWhere (s : Scrape) (name label value : Text) : Option ℚ :=
  (s.series.get? name).map fun series =>
    ((series.filter fun x => x.labels.get? label = some value).map (·.value)).sum

end Scrape

/-- A value for a key, made of the one there is or of a first one. -/
def upsert {α : Type} (m : SortedMap Text α) (k : Text) (first : α) (f : α → α) :
    SortedMap Text α :=
  m.insert k (f ((m.get? k).getD first))

def stripSuffix (tail text : Text) : Option Text :=
  if tail <:+ text then some (text.take (text.length - tail.length)) else none

/-- One sample, put where the ending of its name says. -/
def Scrape.record (s : Scrape) (name : Text) (labels : Labels) (value : ℚ) : Scrape :=
  match stripSuffix "_bucket".toList name with
  | some base =>
      match (labels.get? "le".toList).bind parseLe with
      | some le => { s with buckets := upsert s.buckets base [] (· ++ [(le, value)]) }
      | none => s
  | none =>
      match stripSuffix "_sum".toList name with
      | some base => { s with sums := upsert s.sums base (0, 0) fun e => (e.1 + value, e.2) }
      | none =>
          match stripSuffix "_count".toList name with
          | some base => { s with sums := upsert s.sums base (0, 0) fun e => (e.1, e.2 + value) }
          | none =>
              { s with
                values := upsert s.values name 0 (· + value)
                series := upsert s.series name [] (· ++ [⟨labels, value⟩]) }

/-- The sample of a line, if it is one and finite. -/
def readLine (line : Text) : Option (Text × Labels × ℚ) :=
  let line := trimChars line
  if line = [] ∨ line.head? = some '#' then none
  else
    match splitValue line with
    | none => none
    | some (head, tail) =>
        match parseF64 tail with
        | some (.finite value) =>
            let (name, labels) := splitLabels head
            some (name, labels, value)
        | _ => none

def Scrape.line (s : Scrape) (line : Text) : Scrape :=
  match readLine line with
  | some (name, labels, value) => s.record name labels value
  | none => s

/-- The order of upper bounds, in which every two of them stand. -/
def Number.totalLe : Number → Number → Bool
  | .negInfinity, _ => true
  | .finite _, .negInfinity => false
  | .finite a, .finite b => a ≤ b
  | .finite _, _ => true
  | .infinity, .negInfinity | .infinity, .finite _ => false
  | .infinity, _ => true
  | .nan, .nan => true
  | .nan, _ => false

/-- Parse Prometheus text exposition. -/
def parse (text : String) : Scrape :=
  let out := (lines text).foldl Scrape.line .empty
  { out with buckets := out.buckets.map (List.insertionSort fun a c => a.1.totalLe c.1) }

section Reading
variable {kind : Char → Bool} {a b t : Text} {c : Char}

theorem rsplitOnce_last (here : kind c = true) (behind : ∀ x ∈ t, kind x = false) :
    rsplitOnce kind (a ++ c :: t) = some (a, t) := by
  have turned : (a ++ c :: t).reverse = t.reverse ++ c :: a.reverse := by simp
  have none : ∀ x ∈ t.reverse, (!kind x) = true := by
    intro x hx
    rw [behind x (List.mem_reverse.mp hx)]
    rfl
  have stop : ¬ (!kind c) = true := by simp [here]
  have dropped : (a ++ c :: t).reverse.dropWhile (fun c => !kind c) = c :: a.reverse := by
    rw [turned, List.dropWhile_append_of_pos none, List.dropWhile_cons, if_neg stop]
  have taken : (a ++ c :: t).rtakeWhile (fun c => !kind c) = t := by
    rw [List.rtakeWhile, turned, List.takeWhile_append_of_pos none, List.takeWhile_cons,
      if_neg stop, List.append_nil, List.reverse_reverse]
  rw [rsplitOnce, dropped, taken]
  simp only [List.reverse_reverse]

theorem rsplitOnce_none (h : ∀ x ∈ t, kind x = false) : rsplitOnce kind t = none := by
  have dropped : t.reverse.dropWhile (fun c => !kind c) = [] := by
    rw [List.dropWhile_eq_nil_iff]
    intro x hx
    simp [h x (List.mem_reverse.mp hx)]
  rw [rsplitOnce, dropped]

/-- What stands last is in the second part. -/
theorem rsplitOnce_some (h : rsplitOnce kind (t ++ [c]) = some (a, b)) (not_kind : kind c = false) :
    c ∈ b := by
  unfold rsplitOnce at h
  split at h
  · cases h
  · cases h
    rw [List.rtakeWhile_concat_pos _ _ _ (by simp [not_kind])]
    exact List.mem_append_right _ List.mem_cons_self

theorem splitOnce_first {sep : Char} (h : sep ∉ a) (b : Text) :
    splitOnce sep (a ++ sep :: b) = some (a, b) := by
  have other : ∀ x ∈ a, decide (x ≠ sep) = true := fun x hx =>
    decide_eq_true fun same => h (same ▸ hx)
  have stop : ¬ decide (sep ≠ sep) = true := by simp
  rw [splitOnce, List.dropWhile_append_of_pos other, List.takeWhile_append_of_pos other,
    List.dropWhile_cons, if_neg stop, List.takeWhile_cons, if_neg stop, List.append_nil]

theorem splitOnce_none {sep : Char} (h : sep ∉ a) : splitOnce sep a = none := by
  have dropped : a.dropWhile (· ≠ sep) = [] := by
    rw [List.dropWhile_eq_nil_iff]
    exact fun x hx => decide_eq_true fun same => h (same ▸ hx)
  rw [splitOnce, dropped]

theorem trimEnd_append (white : ∀ x ∈ b, isWhitespace x = true)
    (last : ∀ x ∈ a.getLast?, isWhitespace x = false) : trimEnd (a ++ b) = a := by
  have behind : ∀ x ∈ b.reverse, isWhitespace x = true := fun x hx =>
    white x (List.mem_reverse.mp hx)
  have kept : a.reverse.dropWhile isWhitespace = a.reverse := by
    obtain rfl | ⟨front, x, rfl⟩ := List.eq_nil_or_concat a
    · rfl
    · have solid := last x (by simp)
      rw [List.concat_eq_append, List.reverse_append, List.reverse_singleton,
        List.singleton_append, List.dropWhile_cons_of_neg (by simp [solid])]
  rw [trimEnd, List.rdropWhile, List.reverse_append, List.dropWhile_append_of_pos behind, kept,
    List.reverse_reverse]

/-- The characters a number is written with. -/
def numberChar (c : Char) : Bool := c.isAlphanum || c = '.' || c = '+' || c = '-'

theorem numberChar_digits (h : t.all Char.isDigit = true) : ∀ c ∈ t, numberChar c = true := by
  intro c hc
  have digit := List.all_eq_true.mp h c hc
  simp [numberChar, Char.isAlphanum, digit]

theorem signedValue_chars {e : Int} (h : signedValue t = some e) :
    ∀ c ∈ t, numberChar c = true := by
  unfold signedValue at h
  split at h
  · split at h
    · next digits => exact List.forall_mem_cons.mpr ⟨rfl, numberChar_digits digits.2⟩
    · cases h
  · split at h
    · next digits => exact List.forall_mem_cons.mpr ⟨rfl, numberChar_digits digits.2⟩
    · cases h
  · split at h
    · next digits => exact numberChar_digits digits.2
    · cases h

theorem numberChar_run (t : Text) : ∀ c ∈ t.takeWhile Char.isDigit, numberChar c = true :=
  numberChar_digits (List.all_eq_true.mpr fun _ hc => List.mem_takeWhile_imp hc)

theorem decimalValue_chars {q : ℚ} (h : decimalValue t = some q) :
    ∀ c ∈ t, numberChar c = true := by
  have exponent {rest : Text} {e : Int} (read : (match rest with
      | [] => some 0
      | e :: digits => if e = 'e' ∨ e = 'E' then signedValue digits else none) = some e) :
      ∀ c ∈ rest, numberChar c = true := by
    cases rest with
    | nil => exact fun c hc => absurd hc List.not_mem_nil
    | cons x digits =>
        simp only at read
        split at read
        · next mark =>
            refine List.forall_mem_cons.mpr ⟨?_, signedValue_chars read⟩
            rcases mark with rfl | rfl <;> rfl
        · cases read
  rw [← List.takeWhile_append_dropWhile (p := Char.isDigit) (l := t), List.forall_mem_append]
  refine ⟨numberChar_run t, ?_⟩
  unfold decimalValue at h
  simp only at h
  generalize t.dropWhile Char.isDigit = behind at h ⊢
  split at h
  · next more =>
      split at h
      · cases h
      · obtain ⟨e, read, _⟩ := Option.map_eq_some_iff.mp h
        refine List.forall_mem_cons.mpr ⟨rfl, ?_⟩
        rw [← List.takeWhile_append_dropWhile (p := Char.isDigit) (l := more),
          List.forall_mem_append]
        exact ⟨numberChar_run more, exponent read⟩
  · split at h
    · cases h
    · obtain ⟨e, read, _⟩ := Option.map_eq_some_iff.mp h
      exact exponent read

theorem numberChar_of_lower {word : Text} (letters : word.all Char.isAlpha = true)
    (h : t.map Char.toLower = word) : ∀ c ∈ t, numberChar c = true := by
  intro c hc
  have lower : c.toLower.isAlpha = true :=
    List.all_eq_true.mp letters _ (h ▸ List.mem_map_of_mem hc)
  have alpha : c.isAlpha = true := by
    cases upper : c.isUpper with
    | true => exact Bool.or_eq_true_iff.mpr (.inl upper)
    | false =>
        have small : c.toLower = c := dif_neg (of_decide_eq_false upper)
        rwa [small] at lower
  simp [numberChar, Char.isAlphanum, alpha]

/-- A number's text has no blank in it, no brace and no quote. -/
theorem parseF64_chars {n : Number} (h : parseF64 t = some n) :
    ∀ c ∈ t, numberChar c = true := by
  have unsigned {body : Text} {first : Number} {sign : ℚ → ℚ} (read :
      (if body.map Char.toLower = "inf".toList ∨ body.map Char.toLower = "infinity".toList then
        some first
      else if body.map Char.toLower = "nan".toList then some .nan
      else (decimalValue body).map fun value => .finite (sign value)) = some n) :
      ∀ c ∈ body, numberChar c = true := by
    split at read
    · next infinite =>
        exact infinite.elim (numberChar_of_lower (by decide)) (numberChar_of_lower (by decide))
    · split at read
      · next none => exact numberChar_of_lower (by decide) none
      · obtain ⟨q, value, _⟩ := Option.map_eq_some_iff.mp read
        exact decimalValue_chars value
  unfold parseF64 at h
  simp only at h
  split at h
  · exact List.forall_mem_cons.mpr ⟨rfl, unsigned h⟩
  · exact List.forall_mem_cons.mpr ⟨rfl, unsigned h⟩
  · exact unsigned h

/-- Blanks between the parts of a sample. -/
def Blank (t : Text) : Prop := ∀ c ∈ t, c = ' ' ∨ c = '\t'

theorem Blank.white (blank : Blank t) : ∀ c ∈ t, isWhitespace c = true := by
  intro c hc
  rcases blank c hc with rfl | rfl <;> rfl

/-- A text before blanks and a word is split from the word. -/
theorem rsplitOnce_blank {gap : Text} (some_ : gap ≠ []) (blank : Blank gap)
    (solid : ∀ c ∈ t, isWhitespace c = false) : ∃ front, Blank front ∧
      rsplitOnce isWhitespace (a ++ (gap ++ t)) = some (a ++ front, t) := by
  obtain ⟨front, w, rfl⟩ := (List.eq_nil_or_concat gap).resolve_left some_
  rw [List.concat_eq_append] at blank ⊢
  obtain ⟨before, last⟩ := List.forall_mem_append.mp blank
  refine ⟨front, before, ?_⟩
  have white : isWhitespace w = true := Blank.white last w List.mem_cons_self
  have text : a ++ (front ++ [w] ++ t) = a ++ front ++ w :: t := by simp
  rw [text, rsplitOnce_last white solid]

section Values
variable {head gap value gap' stamp : Text}

/-- A value with no timestamp behind it. -/
theorem splitValue_bare (some_ : gap ≠ []) (blank : Blank gap)
    (solid : ∀ c ∈ value, isWhitespace c = false) (reads : (parseF64 value).isSome)
    (ends : ∀ c ∈ head.getLast?, isWhitespace c = false)
    (alone : ∀ h m, rsplitOnce isWhitespace head = some (h, m) → parseF64 m = none) :
    splitValue (head ++ (gap ++ value)) = some (head, value) := by
  obtain ⟨front, before, split⟩ := rsplitOnce_blank (a := head) some_ blank solid
  have trimmed := trimEnd_append before.white ends
  have isSome : ¬ (parseF64 value).isNone = true := by simp [Option.isSome_iff_ne_none.mp reads]
  unfold splitValue
  simp only [split, trimmed]
  rw [if_neg isSome]
  cases again : rsplitOnce isWhitespace head with
  | none => rfl
  | some both =>
      have none := alone both.1 both.2 again
      simp [none]

/-- A value before a timestamp. -/
theorem splitValue_stamped (some_ : gap ≠ []) (blank : Blank gap) (some_' : gap' ≠ [])
    (blank' : Blank gap') (value_ : value ≠ []) (solid : ∀ c ∈ value, isWhitespace c = false)
    (reads : (parseF64 value).isSome) (solid' : ∀ c ∈ stamp, isWhitespace c = false)
    (reads' : (parseF64 stamp).isSome) (head_ : head ≠ [])
    (ends : ∀ c ∈ head.getLast?, isWhitespace c = false) :
    splitValue (head ++ (gap ++ (value ++ (gap' ++ stamp)))) = some (head, value) := by
  obtain ⟨front, before, split⟩ := rsplitOnce_blank (a := head) some_ blank solid
  obtain ⟨front', before', split'⟩ :=
    rsplitOnce_blank (a := head ++ (gap ++ value)) some_' blank' solid'
  have last : ∀ c ∈ (head ++ (gap ++ value)).getLast?, isWhitespace c = false := by
    intro c hc
    rw [← List.append_assoc, List.getLast?_append_of_ne_nil _ value_] at hc
    exact solid c (List.mem_of_getLast? hc)
  have trimmed' := trimEnd_append before'.white last
  have trimmed := trimEnd_append before.white ends
  have isSome : ¬ (parseF64 stamp).isNone = true := by simp [Option.isSome_iff_ne_none.mp reads']
  have text : head ++ (gap ++ (value ++ (gap' ++ stamp))) =
      head ++ (gap ++ value) ++ (gap' ++ stamp) := by simp
  have shown : (head ++ front).any (fun c => !isWhitespace c) = true := by
    rw [List.any_eq_true]
    have there := List.getLast_mem head_
    refine ⟨head.getLast head_, List.mem_append_left _ there, ?_⟩
    rw [ends _ (List.getLast?_eq_some_getLast head_)]
    rfl
  unfold splitValue
  simp only [text, split', trimmed', split]
  rw [if_neg isSome, if_pos ⟨reads, shown⟩, trimmed]

end Values
end Reading

end Metrics
end Metralectl
