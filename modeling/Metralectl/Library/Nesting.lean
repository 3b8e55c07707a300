import Metralectl.Library.Json

/-!
Where in its nesting a JSON text stands after each character. A text that is read as a
value ends as deep as it began, so what is left of an object's text when its end is cut
off is never read, and neither is that with the text of another object put after it.
-/
namespace JsonText

/-- Where a position lies: in a string, after the backslash of an escape there, after a
string, or anywhere else. -/
inductive Place where
  | outside
  | inside
  | escaped
  | ended
deriving DecidableEq

structure Nesting where
  depth : Nat
  place : Place
deriving DecidableEq

namespace Nesting

def start : Nesting := ⟨0, .outside⟩

/-- After a bracket that closes. -/
def up : Nat → Option Nesting
  | 0 => none
  | depth + 1 => some ⟨depth, .outside⟩

def step (s : Nesting) (c : Char) : Option Nesting :=
  match s.place with
  | .inside =>
      if c = '"' then some ⟨s.depth, .ended⟩
      else if c = '\\' then some ⟨s.depth, .escaped⟩
      else some s
  | .escaped => some ⟨s.depth, .inside⟩
  | .ended =>
      if isBlank c then some s
      else if c = ',' ∨ c = ':' then some ⟨s.depth, .outside⟩
      else if c = ']' ∨ c = '}' then up s.depth
      else none
  | .outside =>
      if c = '"' then some ⟨s.depth, .inside⟩
      else if c = '[' ∨ c = '{' then some ⟨s.depth + 1, .outside⟩
      else if c = ']' ∨ c = '}' then up s.depth
      else some s

def walk (s : Nesting) (text : List Char) : Option Nesting := text.foldlM step s

def deeper (s : Nesting) (n : Nat) : Nesting := ⟨s.depth + n, s.place⟩

end Nesting

open Nesting

section Walks
variable {s k : Nesting} {text a b : List Char} {c : Char}

theorem walk_cons : s.walk (c :: text) = (s.step c).bind (·.walk text) := rfl

theorem walk_append : s.walk (a ++ b) = (s.walk a).bind (·.walk b) := by
  rw [walk, List.foldlM_append]
  rfl

theorem up_deeper {depth : Nat} (h : up depth = some k) (n : Nat) :
    up (depth + n) = some (k.deeper n) := by
  cases depth with
  | zero => cases h
  | succ depth =>
      rw [Nat.succ_add_eq_add_succ]
      obtain rfl := Option.some.inj h
      rfl

theorem step_deeper (h : s.step c = some k) (n : Nat) :
    (s.deeper n).step c = some (k.deeper n) := by
  obtain ⟨depth, place⟩ := s
  cases place with
  | inside =>
      simp only [step, deeper] at h ⊢
      split at h
      · next quote => rw [if_pos quote, ← Option.some.inj h]
      · next quote =>
          rw [if_neg quote]
          split at h
          · next backslash => rw [if_pos backslash, ← Option.some.inj h]
          · next backslash => rw [if_neg backslash, ← Option.some.inj h]
  | escaped =>
      obtain rfl := Option.some.inj h
      rfl
  | ended =>
      simp only [step, deeper] at h ⊢
      split at h
      · next blank => rw [if_pos blank, ← Option.some.inj h]
      · next blank =>
          rw [if_neg blank]
          split at h
          · next mark => rw [if_pos mark, ← Option.some.inj h]
          · next mark =>
              rw [if_neg mark]
              split at h
              · next close => rw [if_pos close]; exact up_deeper h n
              · cases h
  | outside =>
      simp only [step, deeper] at h ⊢
      split at h
      · next quote => rw [if_pos quote, ← Option.some.inj h]
      · next quote =>
          rw [if_neg quote]
          split at h
          · next opened =>
              rw [if_pos opened, ← Option.some.inj h]
              simp only [Nat.add_right_comm]
          · next opened =>
              rw [if_neg opened]
              split at h
              · next close => rw [if_pos close]; exact up_deeper h n
              · next close => rw [if_neg close, ← Option.some.inj h]

/-- A text takes a position as far wherever it starts. -/
theorem walk_deeper (h : s.walk text = some k) (n : Nat) :
    (s.deeper n).walk text = some (k.deeper n) := by
  induction text generalizing s with
  | nil =>
      obtain rfl := Option.some.inj h
      rfl
  | cons c text ih =>
      rw [walk_cons] at h ⊢
      obtain ⟨m, first, rest⟩ := Option.bind_eq_some_iff.mp h
      rw [step_deeper first n, Option.bind_some]
      exact ih rest

theorem walk_prefix (h : s.walk (a ++ b) = some k) : ∃ m, s.walk a = some m := by
  rw [walk_append] at h
  obtain ⟨m, first, _⟩ := Option.bind_eq_some_iff.mp h
  exact ⟨m, first⟩

/-- No string, and outside of one. -/
def Place.Between (p : Place) : Prop := p = .outside ∨ p = .ended

theorem walk_blanks {p : Place} {depth : Nat} (between : p.Between)
    (h : ∀ c ∈ text, isBlank c = true) :
    (⟨depth, p⟩ : Nesting).walk text = some ⟨depth, p⟩ := by
  induction text with
  | nil => rfl
  | cons c text ih =>
      have blank := h c List.mem_cons_self
      have stays : (⟨depth, p⟩ : Nesting).step c = some ⟨depth, p⟩ := by
        cases between with
        | inl outside =>
            subst outside
            simp only [isBlank, Bool.or_eq_true, decide_eq_true_eq] at blank
            obtain ((rfl | rfl) | rfl) | rfl := blank <;> rfl
        | inr ended =>
            subst ended
            simp only [step, blank, if_true]
      rw [walk_cons, stays, Option.bind_some]
      exact ih fun d hd => h d (List.mem_cons_of_mem _ hd)

theorem step_close {p : Place} {depth : Nat} (between : p.Between) (close : c = ']' ∨ c = '}') :
    (⟨depth + 1, p⟩ : Nesting).step c = some ⟨depth, .outside⟩ := by
  obtain rfl | rfl := between <;> obtain rfl | rfl := close <;> rfl

theorem step_mark {p : Place} {depth : Nat} (between : p.Between) (mark : c = ',' ∨ c = ':') :
    (⟨depth, p⟩ : Nesting).step c = some ⟨depth, .outside⟩ := by
  obtain rfl | rfl := between <;> obtain rfl | rfl := mark <;> rfl

end Walks

/-- What is read of the text ends as deep as it began, where a value may end. -/
def Passes (text rest : List Char) : Prop :=
  ∃ used place, text = used ++ rest ∧ start.walk used = some ⟨0, place⟩ ∧ place.Between

section Strings
variable {fuel : Nat} {text rest : List Char} {c : Char}

theorem skipBlanks_split (text : List Char) :
    ∃ blanks, text = blanks ++ skipBlanks text ∧ ∀ c ∈ blanks, isBlank c = true := by
  refine ⟨text.takeWhile isBlank, List.takeWhile_append_dropWhile.symm, fun c hc => ?_⟩
  exact List.all_eq_true.mp List.all_takeWhile c hc

theorem hexValue_plain {depth n : Nat} (h : hexValue c = some n) :
    (⟨depth, .inside⟩ : Nesting).step c = some ⟨depth, .inside⟩ := by
  have quote : c ≠ '"' := by rintro rfl; cases h
  have backslash : c ≠ '\\' := by rintro rfl; cases h
  simp only [step, if_neg quote, if_neg backslash]

theorem readUnit_walk (depth : Nat) {n : Nat} (h : readUnit text = some (n, rest)) :
    ∃ used, text = used ++ rest ∧
      (⟨depth, .inside⟩ : Nesting).walk used = some ⟨depth, .inside⟩ := by
  unfold readUnit at h
  split at h
  · next a b c d rest =>
      simp only [Option.bind_eq_bind, Option.bind_eq_some_iff] at h
      obtain ⟨x, hx, y, hy, z, hz, w, hw, same⟩ := h
      obtain ⟨_, rfl⟩ := Prod.mk.inj (Option.some.inj same)
      refine ⟨[a, b, c, d], rfl, ?_⟩
      rw [walk_cons, hexValue_plain hx, Option.bind_some, walk_cons, hexValue_plain hy,
        Option.bind_some, walk_cons, hexValue_plain hz, Option.bind_some, walk_cons,
        hexValue_plain hw]
      rfl
  · cases h

theorem readUnicode_walk (depth : Nat) (h : readUnicode text = some (c, rest)) :
    ∃ used, text = used ++ rest ∧
      (⟨depth, .inside⟩ : Nesting).walk used = some ⟨depth, .inside⟩ := by
  simp only [readUnicode, Option.bind_eq_bind, Option.bind_eq_some_iff] at h
  obtain ⟨⟨unit, after⟩, first, h⟩ := h
  obtain ⟨used, rfl, walked⟩ := readUnit_walk depth first
  split at h
  · split at h
    · next tail whole =>
        obtain rfl : after = '\\' :: 'u' :: tail := whole
        simp only [Option.bind_eq_some_iff] at h
        obtain ⟨⟨low, after'⟩, second, h⟩ := h
        obtain ⟨used', rfl, walked'⟩ := readUnit_walk depth second
        split at h
        · obtain ⟨_, rfl⟩ := Prod.mk.inj (Option.some.inj h)
          refine ⟨used ++ '\\' :: 'u' :: used', by simp, ?_⟩
          rw [walk_append, walked, Option.bind_some]
          exact walked'
        · cases h
    · cases h
  · split at h
    · cases h
    · obtain ⟨_, rfl⟩ := Prod.mk.inj (Option.some.inj h)
      exact ⟨used, rfl, walked⟩

theorem readEscape_walk (depth : Nat) (h : readEscape text = some (c, rest)) :
    ∃ used, text = used ++ rest ∧
      (⟨depth, .escaped⟩ : Nesting).walk used = some ⟨depth, .inside⟩ := by
  unfold readEscape at h
  split at h
  case h_9 =>
    obtain ⟨used, rfl, walked⟩ := readUnicode_walk depth h
    exact ⟨'u' :: used, rfl, walked⟩
  case h_10 => cases h
  all_goals
    obtain ⟨_, rfl⟩ := Prod.mk.inj (Option.some.inj h)
    exact ⟨[_], rfl, rfl⟩

theorem readChars_walk (depth : Nat) {cs : List Char} (h : readChars fuel text = some (cs, rest)) :
    ∃ used, text = used ++ rest ∧
      (⟨depth, .inside⟩ : Nesting).walk used = some ⟨depth, .ended⟩ := by
  induction fuel generalizing text cs with
  | zero => cases h
  | succ fuel ih =>
      unfold readChars at h
      split at h
      · cases h
      · next c text =>
          split at h
          · next quote =>
              obtain ⟨_, rfl⟩ := Prod.mk.inj (Option.some.inj h)
              subst quote
              exact ⟨['"'], rfl, rfl⟩
          · next quote =>
              split at h
              · next backslash =>
                  subst backslash
                  simp only [Option.bind_eq_bind, Option.bind_eq_some_iff] at h
                  obtain ⟨⟨d, after⟩, first, ⟨ds, after'⟩, later, same⟩ := h
                  obtain ⟨_, rfl⟩ := Prod.mk.inj (Option.some.inj same)
                  obtain ⟨escape, rfl, escaped⟩ := readEscape_walk depth first
                  obtain ⟨used, rfl, walked⟩ := ih later
                  refine ⟨'\\' :: escape ++ used, by simp, ?_⟩
                  rw [List.cons_append, walk_cons]
                  change (walk ⟨depth, .escaped⟩ (escape ++ used)) = _
                  rw [walk_append, escaped]
                  exact walked
              · next backslash =>
                  split at h
                  · cases h
                  · simp only [Option.bind_eq_bind, Option.bind_some, Option.bind_eq_some_iff] at h
                    obtain ⟨⟨ds, after⟩, later, same⟩ := h
                    obtain ⟨_, rfl⟩ := Prod.mk.inj (Option.some.inj same)
                    obtain ⟨used, rfl, walked⟩ := ih later
                    have stays : (⟨depth, .inside⟩ : Nesting).step c = some ⟨depth, .inside⟩ := by
                      simp only [step, if_neg quote, if_neg backslash]
                    refine ⟨c :: used, rfl, ?_⟩
                    rw [walk_cons, stays]
                    exact walked

theorem readString_walk (depth : Nat) {s : String} (h : readString text = some (s, rest)) :
    ∃ used, text = used ++ rest ∧
      (⟨depth, .inside⟩ : Nesting).walk used = some ⟨depth, .ended⟩ := by
  obtain ⟨⟨cs, after⟩, chars, same⟩ := Option.map_eq_some_iff.mp h
  obtain ⟨_, rfl⟩ := Prod.mk.inj same
  exact readChars_walk depth chars

end Strings

section Numbers
variable {φ : Type} {readFraction : List Char → Option φ} {text rest : List Char} {c : Char}

/-- No part of a string, and no bracket. -/
def isBare (c : Char) : Bool := c ≠ '"' && c ≠ '[' && c ≠ '{' && c ≠ ']' && c ≠ '}'

theorem walk_bare {depth : Nat} (h : ∀ c ∈ text, isBare c = true) :
    (⟨depth, .outside⟩ : Nesting).walk text = some ⟨depth, .outside⟩ := by
  induction text with
  | nil => rfl
  | cons c text ih =>
      have bare := h c List.mem_cons_self
      simp only [isBare, Bool.and_eq_true, decide_eq_true_eq] at bare
      have stays : (⟨depth, .outside⟩ : Nesting).step c = some ⟨depth, .outside⟩ := by
        simp only [step, bare, or_self, if_false]
      rw [walk_cons, stays]
      exact ih fun d hd => h d (List.mem_cons_of_mem _ hd)

theorem digit_bare (h : c.isDigit = true) : isBare c = true := by
  have other {d : Char} (hd : d.isDigit = false) : c ≠ d := by
    rintro rfl
    exact Bool.false_ne_true (hd.symm.trans h)
  simp [isBare, other (d := '"') rfl, other (d := '[') rfl, other (d := '{') rfl,
    other (d := ']') rfl, other (d := '}') rfl]

theorem readDigits_bare : ∃ used, text = used ++ (readDigits text).2 ∧
    ∀ c ∈ used, isBare c = true := by
  refine ⟨text.takeWhile Char.isDigit, List.takeWhile_append_dropWhile.symm, fun c hc => ?_⟩
  exact digit_bare (List.all_eq_true.mp List.all_takeWhile c hc)

theorem readPart_bare {mark : Char → Bool} {signed : Bool} {part : List Char}
    (marked : ∀ c, mark c = true → isBare c = true)
    (h : readPart mark signed text = some (part, rest)) :
    ∃ used, text = used ++ rest ∧ ∀ c ∈ used, isBare c = true := by
  have none_ : ∀ c ∈ ([] : List Char), isBare c = true := fun c hc => by cases hc
  unfold readPart at h
  split at h
  · obtain ⟨_, rfl⟩ := Prod.mk.inj (Option.some.inj h)
    exact ⟨[], rfl, none_⟩
  · next c text =>
      split at h
      · next there =>
          obtain ⟨sign, after, split_, bare, h⟩ : ∃ sign after, text = sign ++ after ∧
              (∀ c ∈ sign, isBare c = true) ∧ (if (readDigits after).1 = [] then none
                else some (c :: sign ++ (readDigits after).1, (readDigits after).2)) =
                  some (part, rest) := by
            cases text with
            | nil => exact ⟨[], [], rfl, none_, h⟩
            | cons s after =>
                by_cases sign : signed = true ∧ (s = '+' ∨ s = '-')
                · simp only [sign] at h
                  refine ⟨[s], after, rfl, fun c hc => ?_, h⟩
                  obtain rfl := List.mem_singleton.mp hc
                  obtain rfl | rfl := sign.2 <;> rfl
                · simp only [if_neg sign] at h
                  exact ⟨[], s :: after, rfl, none_, h⟩
          split at h
          · cases h
          · obtain ⟨_, rfl⟩ := Prod.mk.inj (Option.some.inj h)
            obtain ⟨digits, whole, digits_⟩ := @readDigits_bare after
            refine ⟨c :: sign ++ digits, ?_, fun d hd => ?_⟩
            · rw [split_, List.cons_append, List.cons_append, List.append_assoc, ← whole]
            · rw [List.cons_append, List.mem_cons, List.mem_append] at hd
              obtain rfl | hd | hd := hd
              · exact marked _ there
              · exact bare d hd
              · exact digits_ d hd
      · obtain ⟨_, rfl⟩ := Prod.mk.inj (Option.some.inj h)
        exact ⟨[], rfl, none_⟩

theorem readUnsigned_bare {negative : Bool} {n : Number φ}
    (h : readUnsigned readFraction negative text = some (n, rest)) :
    ∃ used, text = used ++ rest ∧ ∀ c ∈ used, isBare c = true := by
  obtain ⟨digits, whole, digits_⟩ := @readDigits_bare text
  simp only [readUnsigned, Option.bind_eq_bind] at h
  split at h
  · cases h
  · simp only [Option.bind_eq_some_iff] at h
    obtain ⟨⟨decimals, after⟩, first, ⟨exponent, after'⟩, second, h⟩ := h
    have point (c : Char) (hc : decide (c = '.') = true) : isBare c = true := by
      obtain rfl := of_decide_eq_true hc
      rfl
    have power (c : Char) (hc : decide (c = 'e' ∨ c = 'E') = true) : isBare c = true := by
      obtain rfl | rfl := of_decide_eq_true hc <;> rfl
    obtain ⟨used, rest_, bare⟩ := readPart_bare point first
    obtain ⟨used', rest_', bare'⟩ := readPart_bare power second
    have ends : after' = rest := by
      -- Whatever its sign, an integer that is kept exactly or a fraction.
      split at h <;> split at h
      case isTrue.isTrue | isFalse.isTrue => exact (Prod.mk.inj (Option.some.inj h)).2
      case isTrue.isFalse | isFalse.isFalse =>
        obtain ⟨f, _, same⟩ := Option.bind_eq_some_iff.mp h
        exact (Prod.mk.inj (Option.some.inj same)).2
    refine ⟨digits ++ used ++ used', ?_, fun c hc => ?_⟩
    · rw [whole, rest_]
      simp only at rest_'
      rw [rest_', ends, List.append_assoc, List.append_assoc]
    · rw [List.mem_append, List.mem_append] at hc
      obtain (hc | hc) | hc := hc
      · exact digits_ c hc
      · exact bare c hc
      · exact bare' c hc

theorem readNumber_bare {n : Number φ} (h : readNumber readFraction text = some (n, rest)) :
    ∃ used, text = used ++ rest ∧ ∀ c ∈ used, isBare c = true := by
  unfold readNumber at h
  split at h
  · next sign =>
      obtain ⟨tail, rfl⟩ : ∃ tail, text = '-' :: tail := by
        cases text with
        | nil => cases sign
        | cons c tail => exact ⟨tail, by rw [Option.some.inj sign]⟩
      obtain ⟨used, whole, bare⟩ := readUnsigned_bare h
      refine ⟨'-' :: used, by rw [List.cons_append, ← whole]; rfl, fun c hc => ?_⟩
      cases List.mem_cons.mp hc with
      | inl first => exact first ▸ rfl
      | inr later => exact bare c later
  · exact readUnsigned_bare h

end Numbers

section Values
variable {φ α : Type} {readFraction : List Char → Option φ} {text rest : List Char}
  {read : Reader α} {close : Char} {fuel : Nat}

/-- Everything that is read ends as deep as it began. -/
def Level (read : Reader α) : Prop := ∀ text x rest, read text = some (x, rest) → Passes text rest

/-- Blanks after a text that passes, and what they come to. -/
theorem Passes.blanks (h : Passes text rest) : ∃ used place,
    text = used ++ skipBlanks rest ∧ start.walk used = some ⟨0, place⟩ ∧ place.Between := by
  obtain ⟨used, place, rfl, walked, between⟩ := h
  obtain ⟨blanks, whole, all⟩ := skipBlanks_split rest
  refine ⟨used ++ blanks, place, ?_, ?_, between⟩
  · rw [List.append_assoc, ← whole]
  · rw [walk_append, walked, Option.bind_some]
    exact walk_blanks between all

theorem readElements_level (level : Level read) {xs : List α}
    (h : readElements read close fuel text = some (xs, rest)) :
    ∃ used place, text = used ++ close :: rest ∧ start.walk used = some ⟨0, place⟩ ∧
      place.Between := by
  induction fuel generalizing text xs with
  | zero => cases h
  | succ fuel ih =>
      simp only [readElements, Option.bind_eq_bind, Option.bind_eq_some_iff] at h
      obtain ⟨⟨x, after⟩, first, h⟩ := h
      obtain ⟨used, place, whole, walked, between⟩ := (level _ _ _ first).blanks
      split at h
      · cases h
      · next c more next_ =>
          rw [next_] at whole
          split at h
          · next closed =>
              obtain ⟨_, rfl⟩ := Prod.mk.inj (Option.some.inj h)
              exact ⟨used, place, closed ▸ whole, walked, between⟩
          · split at h
            · next comma =>
                simp only [Option.bind_eq_some_iff] at h
                obtain ⟨⟨ys, after'⟩, later, same⟩ := h
                obtain ⟨_, rfl⟩ := Prod.mk.inj (Option.some.inj same)
                obtain ⟨used', place', whole', walked', between'⟩ := ih later
                refine ⟨used ++ c :: used', place', ?_, ?_, between'⟩
                · rw [whole, whole', List.append_assoc]
                  rfl
                · rw [walk_append, walked, Option.bind_some, walk_cons,
                    step_mark between (.inl comma)]
                  exact walked'
            · cases h

theorem readSequence_level (level : Level read) {xs : List α}
    (h : readSequence read close text = some (xs, rest)) :
    ∃ used place, text = used ++ close :: rest ∧ start.walk used = some ⟨0, place⟩ ∧
      place.Between := by
  unfold readSequence at h
  split at h
  · next empty =>
      obtain ⟨_, rfl⟩ := Prod.mk.inj (Option.some.inj h)
      obtain ⟨blanks, whole, all⟩ := skipBlanks_split text
      refine ⟨blanks, .outside, ?_, walk_blanks (.inl rfl) all, .inl rfl⟩
      cases more : skipBlanks text with
      | nil => rw [more] at empty; cases empty
      | cons c tail =>
          rw [more] at empty whole
          rw [← Option.some.inj empty]
          exact whole
  · exact readElements_level level h

theorem readMember_level {read : Reader (Json φ)} (level : Level read) :
    Level (readMember read) := by
  intro text m rest h
  obtain ⟨blanks, whole, all⟩ := skipBlanks_split text
  unfold readMember at h
  split at h
  · next tail quote =>
      simp only [Option.bind_eq_bind, Option.bind_eq_some_iff] at h
      obtain ⟨⟨key, after⟩, string, h⟩ := h
      obtain ⟨used, rfl, walked⟩ := readString_walk 0 string
      obtain ⟨blanks', whole', all'⟩ := skipBlanks_split after
      split at h
      · next tail' colon =>
          simp only [Option.bind_eq_some_iff] at h
          obtain ⟨⟨v, after'⟩, value, same⟩ := h
          obtain ⟨_, rfl⟩ := Prod.mk.inj (Option.some.inj same)
          obtain ⟨used', place, rest_, walked', between⟩ := level _ _ _ value
          simp only at colon rest_
          refine ⟨blanks ++ '"' :: used ++ blanks' ++ ':' :: used', place, ?_, ?_, between⟩
          · rw [whole, quote, whole', colon, rest_]
            simp
          · have opened : start.walk (blanks ++ '"' :: used) = some ⟨0, .ended⟩ := by
              rw [walk_append]
              simp only [start, @walk_blanks blanks .outside 0 (.inl rfl) all, Option.bind_some]
              exact walked
            rw [walk_append, walk_append, opened, Option.bind_some,
              walk_blanks (.inr rfl) all', Option.bind_some]
            exact walked'
      · cases h
  · cases h

theorem readWord_level {word : String} (bare : word.toList.all isBare = true) (v : Json φ) :
    Level (readWord word v) := by
  intro text x rest h
  unfold readWord at h
  split at h
  · next front =>
      obtain ⟨_, rfl⟩ := Prod.mk.inj (Option.some.inj h)
      obtain ⟨tail, rfl⟩ := front
      exact ⟨word.toList, .outside, by rw [List.drop_left], walk_bare (List.all_eq_true.mp bare), .inl rfl⟩
  · cases h

/-- A bracket and what it closes on, after blanks. -/
theorem passes_nested {opened : Char} {blanks used : List Char} {place : Place}
    (bracket : opened = '[' ∧ close = ']' ∨ opened = '{' ∧ close = '}')
    (all : ∀ c ∈ blanks, isBlank c = true) (walked : start.walk used = some ⟨0, place⟩)
    (between : place.Between) : Passes (blanks ++ opened :: (used ++ close :: rest)) rest := by
  refine ⟨blanks ++ opened :: (used ++ [close]), .outside, by simp, ?_, .inl rfl⟩
  have down : start.step opened = some (start.deeper 1) := by
    obtain ⟨rfl, _⟩ | ⟨rfl, _⟩ := bracket <;> rfl
  have closes : (⟨1, place⟩ : Nesting).step close = some start :=
    step_close between (bracket.imp And.right And.right)
  rw [walk_append, start, walk_blanks (.inl rfl) all, Option.bind_some, walk_cons]
  change (start.step opened).bind _ = _
  rw [down, Option.bind_some, walk_append, walk_deeper walked 1, Option.bind_some, walk_cons]
  change ((⟨1, place⟩ : Nesting).step close).bind _ = _
  rw [closes]
  rfl

theorem readNode_level {inner : Option (Reader (Json φ))} (level : ∀ read ∈ inner, Level read) :
    Level (readNode readFraction inner) := by
  intro text x rest h
  obtain ⟨blanks, whole, all⟩ := skipBlanks_split text
  have lead {after : List Char} (h : Passes (skipBlanks text) after) : Passes text after := by
    obtain ⟨used, place, split_, walked, between⟩ := h
    refine ⟨blanks ++ used, place, by rw [List.append_assoc, ← split_, ← whole], ?_, between⟩
    rw [walk_append, start, walk_blanks (.inl rfl) all]
    exact walked
  unfold readNode at h
  split at h
  · cases h
  · next c tail node =>
      rw [node] at whole lead
      split at h
      · next quote =>
          obtain ⟨⟨s, after⟩, string, same⟩ := Option.map_eq_some_iff.mp h
          obtain ⟨_, rfl⟩ := Prod.mk.inj same
          obtain ⟨used, rfl, walked⟩ := readString_walk 0 string
          exact lead ⟨c :: used, .ended, rfl, by rw [quote]; exact walked, .inr rfl⟩
      · split at h
        · next bracket =>
            simp only [Option.bind_eq_bind, Option.bind_eq_some_iff] at h
            obtain ⟨read, there, ⟨items, after⟩, sequence, same⟩ := h
            obtain ⟨_, rfl⟩ := Prod.mk.inj (Option.some.inj same)
            obtain ⟨used, place, split_, walked, between⟩ :=
              readSequence_level (level read there) sequence
            rw [whole, split_]
            exact passes_nested (.inl ⟨bracket, rfl⟩) all walked between
        · split at h
          · next brace =>
              simp only [Option.bind_eq_bind, Option.bind_eq_some_iff] at h
              obtain ⟨read, there, ⟨members, after⟩, sequence, same⟩ := h
              obtain ⟨_, rfl⟩ := Prod.mk.inj (Option.some.inj same)
              obtain ⟨used, place, split_, walked, between⟩ :=
                readSequence_level (readMember_level (level read there)) sequence
              rw [whole, split_]
              exact passes_nested (.inr ⟨brace, rfl⟩) all walked between
          · split at h
            · exact lead (readWord_level (by decide) _ _ _ _ h)
            · split at h
              · exact lead (readWord_level (by decide) _ _ _ _ h)
              · split at h
                · exact lead (readWord_level (by decide) _ _ _ _ h)
                · obtain ⟨⟨n, after⟩, number, same⟩ := Option.map_eq_some_iff.mp h
                  obtain ⟨_, rfl⟩ := Prod.mk.inj same
                  obtain ⟨used, split_, bare⟩ := readNumber_bare number
                  exact lead ⟨used, .outside, split_, walk_bare bare, .inl rfl⟩

theorem readValue_level (limit : Nat) : Level (readValue readFraction limit) := by
  induction limit with
  | zero => exact readNode_level fun read there => by cases there
  | succ limit ih =>
      refine readNode_level fun read there => ?_
      obtain rfl := Option.some.inj there
      exact ih

/-- A text that is a value ends as deep as it began. -/
theorem parseWithin_level {limit : Nat} {v : Json φ} (h : parseWithin readFraction limit text = some v) :
    ∃ place, start.walk text = some ⟨0, place⟩ := by
  unfold parseWithin at h
  split at h
  · next x rest read =>
      obtain ⟨used, place, whole, walked, _⟩ := (readValue_level limit _ _ _ read).blanks
      split at h
      · next none_ =>
          rw [none_, List.append_nil] at whole
          exact ⟨place, whole ▸ walked⟩
      · cases h
  · cases h

end Values

section Torn
variable {φ : Type} {display : φ → List Char} {readFraction : List Char → Option φ}
  {text p q : List Char} {limit : Nat}

/-- The text of an object: its braces, and between them nothing that closes them. -/
def Braced (text : List Char) : Prop :=
  ∃ body place, text = '{' :: (body ++ ['}']) ∧ start.walk body = some ⟨0, place⟩ ∧ place.Between

theorem braced_object {members : List (String × Json φ)}
    (readable : Readable display readFraction (.object members)) :
    Braced (render display (.object members)) := by
  have inside := (Json.everywhere_object.mp readable).2
  obtain ⟨limit, within⟩ : ∃ limit, ∀ m ∈ members, m.2.Within limit := by
    have whole := @within_length φ display (.object members)
    rw [render, List.length_cons] at whole
    exact ⟨_, whole⟩
  have back : readSequence (readMember (readValue readFraction limit)) '}'
      (commaSeparated (members.map fun m => writeMember (m.1, render display m.2)) ++ ['}']) =
        some (members, []) :=
    readSequence_written (.inr rfl)
      (fun m hm rest ends => readMember_written (readValue_render m.2 (inside m hm)
        (within m hm) ends))
      (fun _ _ => ⟨'"', _, rfl, by decide⟩)
  obtain ⟨used, place, whole, walked, between⟩ := readSequence_level
    (readMember_level (readValue_level _)) back
  refine ⟨used, place, ?_, walked, between⟩
  rw [render, renderMembers_eq, List.map_map, ← whole]
  rfl

theorem Braced.prefix_walks (h : Braced text) (front : p <+: text) :
    ∃ s, start.walk p = some s := by
  obtain ⟨body, place, rfl, walked, between⟩ := h
  obtain ⟨rest, whole⟩ := front
  have all : start.walk ('{' :: (body ++ ['}'])) = some ⟨0, .outside⟩ := by
    change (start.deeper 1).walk (body ++ ['}']) = _
    rw [walk_append, walk_deeper walked 1, Option.bind_some]
    change ((⟨1, place⟩ : Nesting).step '}').bind _ = _
    rw [step_close between (.inr rfl)]
    rfl
  exact walk_prefix (whole ▸ all)

/-- No value, whatever follows that closes less than it opens. -/
def Torn (text : List Char) : Prop := ∀ s, start.walk text = some s → 0 < s.depth

theorem Torn.not_read (h : Torn text) : parseWithin readFraction limit text = none := by
  cases read : parseWithin readFraction limit text with
  | none => rfl
  | some v =>
      obtain ⟨place, walked⟩ := parseWithin_level read
      exact absurd (h _ walked) (Nat.lt_irrefl 0)

/-- What is left of an object's text when its end is cut off. -/
theorem torn_of_prefix (h : Braced text) (front : p <+: text) (some_ : p ≠ [])
    (cut : p ≠ text) : Torn p := by
  obtain ⟨s, walked⟩ := h.prefix_walks front
  obtain ⟨body, place, rfl, whole, between⟩ := h
  cases p with
  | nil => exact absurd rfl some_
  | cons c b =>
      obtain ⟨rfl, front⟩ := List.cons_prefix_cons.mp front
      -- All of it before the last brace.
      have inner : b <+: body := by
        obtain ⟨tail, split_⟩ := front
        cases List.eq_nil_or_concat tail with
        | inl none_ => exact absurd (by rw [← split_, none_, List.append_nil]) cut
        | inr more =>
            obtain ⟨tail, last, rfl⟩ := more
            rw [List.concat_eq_append, ← List.append_assoc] at split_
            exact ⟨tail, (List.append_inj' (List.cons.inj split_).2 rfl).1⟩
      obtain ⟨rest, rfl⟩ := inner
      obtain ⟨m, first⟩ := walk_prefix whole
      intro k there
      change (start.deeper 1).walk b = some k at there
      rw [walk_deeper first 1] at there
      obtain rfl := Option.some.inj there
      exact Nat.succ_pos _

/-- A text that is no value is none with the start of an object's text after it, when
that object's first key begins like no end of a string. -/
theorem Torn.append (h : Torn p) (braced : Braced text) (front : q <+: text) {k : Char}
    {more : List Char} (keyed : text = '{' :: '"' :: k :: more)
    (key : ∀ depth, (⟨depth, .ended⟩ : Nesting).step k = none) : Torn (p ++ q) := by
  intro s walked
  rw [walk_append] at walked
  obtain ⟨⟨depth, place⟩, first, second⟩ := Option.bind_eq_some_iff.mp walked
  have deep : 0 < depth := h _ first
  -- In a string, the brace is part of it and the quote ends it.
  have string (inside : (⟨depth, .inside⟩ : Nesting).walk (q.drop 1) = some s) : 0 < s.depth := by
    obtain ⟨tail, whole⟩ := front
    cases q with
    | nil => obtain rfl := Option.some.inj inside; exact deep
    | cons a q =>
        rw [keyed, List.cons_append] at whole
        cases q with
        | nil => obtain rfl := Option.some.inj inside; exact deep
        | cons b q =>
            obtain ⟨rfl, rest⟩ := List.cons.inj (List.cons.inj whole).2
            cases q with
            | nil => obtain rfl := Option.some.inj inside; exact deep
            | cons c q =>
                obtain ⟨rfl, _⟩ := List.cons.inj rest
                change ((⟨depth, .ended⟩ : Nesting).step c).bind _ = _ at inside
                rw [key] at inside
                cases inside
  cases q with
  | nil => obtain rfl := Option.some.inj second; exact deep
  | cons a q =>
      obtain rfl : a = '{' := by
        obtain ⟨tail, whole⟩ := front
        exact (List.cons.inj (keyed ▸ whole)).1
      cases place with
      | inside => exact string second
      | escaped => exact string second
      | ended => cases second
      | outside =>
          obtain ⟨m, all⟩ := braced.prefix_walks front
          have there := walk_deeper all depth
          rw [show start.deeper depth = ⟨depth, .outside⟩ from congrArg (Nesting.mk · _)
            (Nat.zero_add depth), second] at there
          obtain rfl := Option.some.inj there
          exact Nat.lt_add_left _ deep

end Torn

end JsonText
