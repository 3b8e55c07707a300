import Mathlib.Data.List.Sort
import Mathlib.Data.List.Nodup
import Mathlib.Tactic.IntervalCases

/-!
JSON values, their compact text, and reading a text back. Numbers that are not
integers stay abstract: how one is written and read are parameters. A reader gives
up below a number of nested arrays and objects.
-/
namespace JsonText
variable {φ : Type}

inductive Number (φ : Type) where
  | int (n : Int)
  | fraction (f : φ)
deriving DecidableEq

inductive Json (φ : Type) where
  | null
  | bool (b : Bool)
  | number (n : Number φ)
  | string (s : String)
  | array (items : List (Json φ))
  | object (members : List (String × Json φ))

namespace Json

/-- Induction over a value and all that is nested in it. -/
@[induction_eliminator] theorem nested {motive : Json φ → Prop}
    (null : motive null) (bool : ∀ b, motive (bool b)) (number : ∀ n, motive (number n))
    (string : ∀ s, motive (string s))
    (array : ∀ items, (∀ x ∈ items, motive x) → motive (array items))
    (object : ∀ members, (∀ m ∈ members, motive m.2) → motive (object members))
    (v : Json φ) : motive v :=
  Json.rec (motive_1 := motive) (motive_2 := fun items => ∀ x ∈ items, motive x)
    (motive_3 := fun members => ∀ m ∈ members, motive m.2) (motive_4 := fun m => motive m.2)
    null bool number string array object
    (fun _ h => absurd h List.not_mem_nil)
    (fun _ _ first later _ h => (List.mem_cons.mp h).elim (fun e => e ▸ first) (later _))
    (fun _ h => absurd h List.not_mem_nil)
    (fun _ _ first later _ h => (List.mem_cons.mp h).elim (fun e => e ▸ first) (later _))
    (fun _ _ h => h) v


mutual
/-- The value and every value nested in it. -/
def parts : Json φ → List (Json φ)
  | .array items => .array items :: itemParts items
  | .object members => .object members :: memberParts members
  | v => [v]
def itemParts : List (Json φ) → List (Json φ)
  | [] => []
  | x :: rest => parts x ++ itemParts rest
def memberParts : List (String × Json φ) → List (Json φ)
  | [] => []
  | (_, v) :: rest => parts v ++ memberParts rest
end

/-- Of the value and of every value nested in it. -/
def Everywhere (P : Json φ → Prop) (v : Json φ) : Prop := ∀ w ∈ v.parts, P w

/-- No more arrays and objects inside one another than this. -/
def Within : Nat → Json φ → Prop
  | 0, .array _ | 0, .object _ => False
  | limit + 1, .array items => ∀ x ∈ items, Within limit x
  | limit + 1, .object members => ∀ m ∈ members, Within limit m.2
  | _, _ => True

section Parts
variable {P : Json φ → Prop} {items : List (Json φ)} {members : List (String × Json φ)}

theorem itemParts_eq (items : List (Json φ)) : itemParts items = items.flatMap parts := by
  induction items with
  | nil => rfl
  | cons x rest ih => rw [itemParts, ih, List.flatMap_cons]

theorem memberParts_eq (members : List (String × Json φ)) :
    memberParts members = members.flatMap fun m => parts m.2 := by
  induction members with
  | nil => rfl
  | cons m rest ih => rw [memberParts, ih, List.flatMap_cons]

theorem everywhere_array :
    Everywhere P (.array items) ↔ P (.array items) ∧ ∀ x ∈ items, Everywhere P x := by
  simp only [Everywhere, parts, itemParts_eq, List.forall_mem_cons, List.mem_flatMap]
  refine and_congr_right fun _ => ⟨fun h x hx w hw => h w ⟨x, hx, hw⟩, ?_⟩
  rintro h w ⟨x, hx, hw⟩
  exact h x hx w hw

theorem everywhere_object :
    Everywhere P (.object members) ↔
      P (.object members) ∧ ∀ m ∈ members, Everywhere P m.2 := by
  simp only [Everywhere, parts, memberParts_eq, List.forall_mem_cons, List.mem_flatMap]
  refine and_congr_right fun _ => ⟨fun h m hm w hw => h w ⟨m, hm, hw⟩, ?_⟩
  rintro h w ⟨m, hm, hw⟩
  exact h m hm w hw

theorem Within.mono {v : Json φ} {n m : Nat} (h : Within n v) (hn : n ≤ m) : Within m v := by
  induction v generalizing n m with
  | null | bool _ | number _ | string _ => cases m <;> trivial
  | array items ih =>
      cases n with
      | zero => exact h.elim
      | succ n =>
          obtain ⟨m, rfl⟩ := Nat.exists_eq_add_of_le' (Nat.one_le_of_lt hn)
          exact fun x hx => ih x hx (h x hx) (Nat.le_of_succ_le_succ hn)
  | object members ih =>
      cases n with
      | zero => exact h.elim
      | succ n =>
          obtain ⟨m, rfl⟩ := Nat.exists_eq_add_of_le' (Nat.one_le_of_lt hn)
          exact fun x hx => ih x hx (h x hx) (Nat.le_of_succ_le_succ hn)

end Parts

end Json

section Writing

def escapeChar (c : Char) : List Char :=
  match c with
  | '"' => ['\\', '"']
  | '\\' => ['\\', '\\']
  | '\x08' => ['\\', 'b']
  | '\t' => ['\\', 't']
  | '\n' => ['\\', 'n']
  | '\x0c' => ['\\', 'f']
  | '\r' => ['\\', 'r']
  | c =>
      if c.toNat < 0x20 then
        ['\\', 'u', '0', '0', (c.toNat / 16).digitChar, (c.toNat % 16).digitChar]
      else [c]

def quoted (s : String) : List Char := '"' :: (s.toList.flatMap escapeChar ++ ['"'])

def commaSeparated : List (List Char) → List Char
  | [] => []
  | [text] => text
  | text :: rest => text ++ ',' :: commaSeparated rest

def writeMember (member : String × List Char) : List Char :=
  quoted member.1 ++ ':' :: member.2

variable (display : φ → List Char)

def writeNumber : Number φ → List Char
  | .int n => (toString n).toList
  | .fraction f => display f

mutual
/-- The compact text, members as they stand. -/
def render : Json φ → List Char
  | .null => "null".toList
  | .bool b => (if b then "true" else "false").toList
  | .number n => writeNumber display n
  | .string s => quoted s
  | .array items => '[' :: (commaSeparated (renderItems items) ++ [']'])
  | .object members => '{' :: (commaSeparated ((renderMembers members).map writeMember) ++ ['}'])
def renderItems : List (Json φ) → List (List Char)
  | [] => []
  | x :: rest => render x :: renderItems rest
def renderMembers : List (String × Json φ) → List (String × List Char)
  | [] => []
  | (key, v) :: rest => (key, render v) :: renderMembers rest
end

end Writing

abbrev Reader (α : Type) := List Char → Option (α × List Char)

section Reading

def isBlank (c : Char) : Bool := c = ' ' || c = '\t' || c = '\n' || c = '\r'

def skipBlanks (text : List Char) : List Char := text.dropWhile isBlank

def hexValue (c : Char) : Option Nat :=
  if '0' ≤ c ∧ c ≤ '9' then some (c.toNat - '0'.toNat)
  else if 'a' ≤ c ∧ c ≤ 'f' then some (c.toNat - 'a'.toNat + 10)
  else if 'A' ≤ c ∧ c ≤ 'F' then some (c.toNat - 'A'.toNat + 10)
  else none

def readUnit : Reader Nat
  | a :: b :: c :: d :: rest => do
      let high := (← hexValue a) * 16 + (← hexValue b)
      let low := (← hexValue c) * 16 + (← hexValue d)
      some (high * 256 + low, rest)
  | _ => none

/-- What follows `\u`: one unit, or two that make a pair of surrogates. -/
def readUnicode (text : List Char) : Option (Char × List Char) := do
  let (unit, rest) ← readUnit text
  if 0xD800 ≤ unit ∧ unit < 0xDC00 then
    match rest with
    | '\\' :: 'u' :: rest =>
        let (low, rest) ← readUnit rest
        if 0xDC00 ≤ low ∧ low < 0xE000 then
          some (Char.ofNat (0x10000 + (unit - 0xD800) * 0x400 + (low - 0xDC00)), rest)
        else none
    | _ => none
  else if 0xDC00 ≤ unit ∧ unit < 0xE000 then none
  else some (Char.ofNat unit, rest)

def readEscape : Reader Char
  | '"' :: rest => some ('"', rest)
  | '\\' :: rest => some ('\\', rest)
  | '/' :: rest => some ('/', rest)
  | 'b' :: rest => some ('\x08', rest)
  | 'f' :: rest => some ('\x0c', rest)
  | 'n' :: rest => some ('\n', rest)
  | 'r' :: rest => some ('\r', rest)
  | 't' :: rest => some ('\t', rest)
  | 'u' :: rest => readUnicode rest
  | _ => none

/-- The characters up to the closing quote, none of them a bare control character. -/
def readChars : Nat → Reader (List Char)
  | 0, _ => none
  | fuel + 1, text =>
      match text with
      | [] => none
      | c :: rest =>
          if c = '"' then some ([], rest)
          else do
            let (c, rest) ←
              if c = '\\' then readEscape rest
              else if c.toNat < 0x20 then none
              else some (c, rest)
            let (cs, rest) ← readChars fuel rest
            some (c :: cs, rest)

def readString (text : List Char) : Option (String × List Char) :=
  (readChars text.length text).map fun (cs, rest) => (String.ofList cs, rest)

def readDigits (text : List Char) : List Char × List Char :=
  (text.takeWhile Char.isDigit, text.dropWhile Char.isDigit)

/-- A mark and the digits after it, if the mark is there. -/
def readPart (mark : Char → Bool) (signed : Bool) : Reader (List Char)
  | [] => some ([], [])
  | c :: rest =>
      if mark c then
        let (sign, rest) :=
          match rest with
          | s :: after => if signed ∧ (s = '+' ∨ s = '-') then ([s], after) else ([], rest)
          | [] => ([], [])
        let (digits, rest) := readDigits rest
        if digits = [] then none else some (c :: sign ++ digits, rest)
      else some ([], c :: rest)

/-- The integers kept exactly. -/
def Admitted (n : Int) : Prop := -(2 ^ 63) ≤ n ∧ n < 2 ^ 64

instance (n : Int) : Decidable (Admitted n) := inferInstanceAs (Decidable (_ ∧ _))

variable (readFraction : List Char → Option φ)

/-- The number after its sign; a negative zero is no integer. -/
def readUnsigned (negative : Bool) (text : List Char) : Option (Number φ × List Char) := do
  let (digits, rest) := readDigits text
  if digits = [] ∨ (digits.head? = some '0' ∧ digits ≠ ['0']) then none
  else
    let (decimals, rest) ← readPart (· = '.') false rest
    let (exponent, rest) ← readPart (fun c => c = 'e' ∨ c = 'E') true rest
    let size : Int := Nat.ofDigitChars 10 digits 0
    let n := if negative then -size else size
    if decimals = [] ∧ exponent = [] ∧ Admitted n ∧ (negative = true → n ≠ 0) then
      some (.int n, rest)
    else
      let sign := if negative then ['-'] else []
      let f ← readFraction (sign ++ digits ++ decimals ++ exponent)
      some (.fraction f, rest)

def readNumber (text : List Char) : Option (Number φ × List Char) :=
  if text.head? = some '-' then readUnsigned readFraction true text.tail
  else readUnsigned readFraction false text

/-- What stands between the brackets, one after another, the opening one read. -/
def readElements {α : Type} (read : Reader α) (close : Char) : Nat → Reader (List α)
  | 0, _ => none
  | fuel + 1, text => do
      let (x, rest) ← read text
      match skipBlanks rest with
      | [] => none
      | c :: rest =>
          if c = close then some ([x], rest)
          else if c = ',' then do
            let (xs, rest) ← readElements read close fuel rest
            some (x :: xs, rest)
          else none

def readSequence {α : Type} (read : Reader α) (close : Char) (text : List Char) :
    Option (List α × List Char) :=
  if (skipBlanks text).head? = some close then some ([], (skipBlanks text).tail)
  else readElements read close text.length text

def readMember (read : Reader (Json φ)) (text : List Char) :
    Option ((String × Json φ) × List Char) :=
  match skipBlanks text with
  | '"' :: rest => do
      let (key, rest) ← readString rest
      match skipBlanks rest with
      | ':' :: rest =>
          let (v, rest) ← read rest
          some ((key, v), rest)
      | _ => none
  | _ => none

def readWord (word : String) (v : Json φ) (text : List Char) : Option (Json φ × List Char) :=
  if word.toList <+: text then some (v, text.drop word.toList.length) else none

/-- A value; `inner` reads those nested in it, if it may have any. -/
def readNode (inner : Option (Reader (Json φ))) (text : List Char) :
    Option (Json φ × List Char) :=
  match skipBlanks text with
  | [] => none
  | c :: rest =>
      if c = '"' then (readString rest).map fun (s, rest) => (.string s, rest)
      else if c = '[' then do
        let read ← inner
        let (items, rest) ← readSequence read ']' rest
        some (.array items, rest)
      else if c = '{' then do
        let read ← inner
        let (members, rest) ← readSequence (readMember read) '}' rest
        some (.object members, rest)
      else if c = 'n' then readWord "null" .null (c :: rest)
      else if c = 't' then readWord "true" (.bool true) (c :: rest)
      else if c = 'f' then readWord "false" (.bool false) (c :: rest)
      else (readNumber readFraction (c :: rest)).map fun (n, rest) => (.number n, rest)

/-- A value with at most so many arrays and objects inside one another. -/
def readValue : Nat → Reader (Json φ)
  | 0 => readNode readFraction none
  | limit + 1 => readNode readFraction (some (readValue limit))

/-- The value a text is, its members in the order they are written. -/
def parseWithin (limit : Nat) (text : List Char) : Option (Json φ) :=
  match readValue readFraction limit text with
  | some (v, rest) => if skipBlanks rest = [] then some v else none
  | none => none

/-- As `parseWithin`, with no bound that a text could exceed. -/
def parse (text : List Char) : Option (Json φ) := parseWithin readFraction text.length text

end Reading

section Strings
variable {fuel : Nat} {cs text rest : List Char}

theorem escapeChar_ne_nil (c : Char) : escapeChar c ≠ [] := by
  unfold escapeChar
  split <;> first | exact List.cons_ne_nil _ _ | (split <;> exact List.cons_ne_nil _ _)

theorem hexValue_digitChar : ∀ n < 16, hexValue n.digitChar = some n := by decide

/-- A control character is read back from its number. -/
theorem readUnicode_control {c : Char} (h : c.toNat < 0x20) :
    readUnicode ('0' :: '0' :: (c.toNat / 16).digitChar :: (c.toNat % 16).digitChar :: rest) =
      some (c, rest) := by
  have zero : hexValue '0' = some 0 := hexValue_digitChar 0 (by decide)
  have high := hexValue_digitChar (c.toNat / 16) (by omega)
  have low := hexValue_digitChar (c.toNat % 16) (by omega)
  have whole : c.toNat / 16 * 16 + c.toNat % 16 = c.toNat := by omega
  simp only [readUnicode, readUnit, zero, high, low, Option.bind_eq_bind,
    Option.bind_some, Nat.zero_mul, Nat.zero_add, whole]
  rw [if_neg (by omega), if_neg (by omega), Char.ofNat_toNat]

theorem readChars_printed {c : Char} (quote : c ≠ '"') (backslash : c ≠ '\\')
    (printed : ¬ c.toNat < 0x20) :
    readChars (fuel + 1) (c :: text) =
      (readChars fuel text).map fun (cs, rest) => (c :: cs, rest) := by
  simp only [readChars, if_neg quote, if_neg backslash, if_neg printed, Option.bind_eq_bind,
    Option.bind_some]
  cases readChars fuel text <;> rfl

theorem readChars_escape {c : Char} {after : List Char} (h : readEscape text = some (c, after)) :
    readChars (fuel + 1) ('\\' :: text) =
      (readChars fuel after).map fun (cs, rest) => (c :: cs, rest) := by
  rw [readChars, if_neg (by decide)]
  simp only [h, if_true, Option.bind_eq_bind, Option.bind_some]
  cases readChars fuel after <;> rfl

theorem readChars_escapeChar (c : Char) :
    readChars (fuel + 1) (escapeChar c ++ text) =
      (readChars fuel text).map fun (cs, rest) => (c :: cs, rest) := by
  unfold escapeChar
  split
  case h_8 quote backslash _ _ _ _ _ =>
    split
    · next control => exact readChars_escape (readUnicode_control control)
    · next printed => exact readChars_printed quote backslash printed
  all_goals exact readChars_escape rfl

theorem readChars_escaped (h : cs.length < fuel) :
    readChars fuel (cs.flatMap escapeChar ++ '"' :: rest) = some (cs, rest) := by
  induction cs generalizing fuel with
  | nil =>
      obtain ⟨fuel, rfl⟩ := Nat.exists_eq_add_of_le' (Nat.one_le_of_lt h)
      rfl
  | cons c cs ih =>
      obtain ⟨fuel, rfl⟩ := Nat.exists_eq_add_of_le' (Nat.one_le_of_lt h)
      rw [List.flatMap_cons, List.append_assoc, readChars_escapeChar,
        ih (Nat.lt_of_succ_lt_succ h)]
      rfl

theorem length_le_escaped (cs : List Char) : cs.length ≤ (cs.flatMap escapeChar).length := by
  induction cs with
  | nil => exact Nat.le_refl _
  | cons c cs ih =>
      have one := List.length_pos_iff.mpr (escapeChar_ne_nil c)
      rw [List.flatMap_cons, List.length_append, List.length_cons]
      omega

theorem readString_quoted (s : String) (rest : List Char) :
    readString (s.toList.flatMap escapeChar ++ '"' :: rest) = some (s, rest) := by
  have room : s.toList.length < (s.toList.flatMap escapeChar ++ '"' :: rest).length := by
    have := length_le_escaped s.toList
    rw [List.length_append, List.length_cons]
    omega
  simp only [readString, readChars_escaped room, Option.map_some, String.ofList_toList]

end Strings

/-- What stands after a value: the end, a comma or a closing bracket. -/
def Ends (rest : List Char) : Prop := ∀ c ∈ rest.head?, c = ',' ∨ c = ']' ∨ c = '}'

section Numbers
variable {rest : List Char} {n : Int}

theorem toDigits_leading (n : Nat) (h : (Nat.toDigits 10 n).head? = some '0') :
    Nat.toDigits 10 n = ['0'] := by
  induction n using Nat.strongRecOn with
  | ind n ih =>
      by_cases small : n < 10
      · rw [Nat.toDigits_of_lt_base small] at h ⊢
        exact congrArg (· :: []) (Option.some.inj h)
      · have large : 10 ≤ n := not_lt.mp small
        rw [Nat.toDigits_of_base_le (by decide) large] at h
        rw [List.head?_append_of_ne_nil _ Nat.toDigits_ne_nil] at h
        have zero := congrArg (fun ds => Nat.ofDigitChars 10 ds 0) (ih (n / 10) (by omega) h)
        simp only [Nat.ofDigitChars_ten_toDigits] at zero
        have none : n / 10 = 0 := zero
        omega

theorem readDigits_toDigits (n : Nat) (h : Ends rest) :
    readDigits (Nat.toDigits 10 n ++ rest) = (Nat.toDigits 10 n, rest) := by
  have digits : ∀ c ∈ Nat.toDigits 10 n, c.isDigit = true :=
    fun c hc => Nat.isDigit_of_mem_toDigits (by decide) (by decide) hc
  have stop : rest.takeWhile Char.isDigit = [] ∧ rest.dropWhile Char.isDigit = rest := by
    cases rest with
    | nil => exact ⟨rfl, rfl⟩
    | cons c rest =>
        have no : c.isDigit = false := by
          obtain rfl | rfl | rfl := h c rfl <;> rfl
        exact ⟨List.takeWhile_cons_of_neg (by simp [no]),
          List.dropWhile_cons_of_neg (by simp [no])⟩
  rw [readDigits, List.takeWhile_append_of_pos digits, List.dropWhile_append_of_pos digits,
    stop.1, stop.2, List.append_nil]

theorem readPart_ends (mark : Char → Bool) (signed : Bool) (h : Ends rest)
    (other : mark ',' = false ∧ mark ']' = false ∧ mark '}' = false) :
    readPart mark signed rest = some ([], rest) := by
  cases rest with
  | nil => rfl
  | cons c rest =>
      have no : mark c = false := by
        obtain rfl | rfl | rfl := h c rfl
        exacts [other.1, other.2.1, other.2.2]
      simp [readPart, no]

variable (display : φ → List Char) (readFraction : List Char → Option φ)

/-- The number is read back where its text stands, and known for one by its start. -/
structure Reads (n : Number φ) : Prop where
  back : ∀ rest, Ends rest →
    readNumber readFraction (writeNumber display n ++ rest) = some (n, rest)
  start : ∃ c text, writeNumber display n = c :: text ∧ (c.isDigit = true ∨ c = '-')

theorem toList_int (n : Int) :
    (toString n).toList =
      if 0 ≤ n then Nat.toDigits 10 n.toNat else '-' :: Nat.toDigits 10 (-n).toNat := by
  rw [Int.toString_eq_repr, Int.repr_eq_if]
  split
  · rw [Nat.toList_repr]
  · rw [String.toList_append, Nat.toList_repr]
    rfl

variable {readFraction} in
theorem readUnsigned_toDigits {negative : Bool} {m : Nat}
    (admitted : Admitted (if negative then -m else m)) (zero : negative = true → m ≠ 0)
    (ends : Ends rest) :
    readUnsigned readFraction negative (Nat.toDigits 10 m ++ rest) =
      some (.int (if negative then -m else m), rest) := by
  have leading : ¬ (Nat.toDigits 10 m = [] ∨
      (Nat.toDigits 10 m).head? = some '0' ∧ Nat.toDigits 10 m ≠ ['0']) := by
    rintro (none | ⟨zero, more⟩)
    · exact Nat.toDigits_ne_nil none
    · exact more (toDigits_leading m zero)
  have nonzero : negative = true → (if negative then -(m : Int) else m) ≠ 0 := by
    intro h
    simpa [h] using zero h
  simp only [readUnsigned, readDigits_toDigits m ends, if_neg leading, Option.bind_eq_bind,
    readPart_ends (· = '.') false ends (by decide), Option.bind_some,
    readPart_ends (fun c => c = 'e' ∨ c = 'E') true ends (by decide),
    Nat.ofDigitChars_ten_toDigits, admitted, true_and]
  rw [if_pos nonzero]

variable {readFraction} in
theorem Admitted.reads (h : Admitted n) : Reads display readFraction (.int n) := by
  constructor
  · intro rest ends
    rw [readNumber, writeNumber, toList_int]
    by_cases nonneg : 0 ≤ n
    · have size : ((n.toNat : Nat) : Int) = n := Int.toNat_of_nonneg nonneg
      have unsigned : (Nat.toDigits 10 n.toNat ++ rest).head? ≠ some '-' := by
        rw [List.head?_append_of_ne_nil _ Nat.toDigits_ne_nil]
        intro sign
        have digit : '-'.isDigit = true := Nat.isDigit_of_mem_toDigits (by decide) (by decide)
          (List.mem_of_head? sign)
        exact absurd digit (by decide)
      rw [if_pos nonneg, if_neg unsigned,
        readUnsigned_toDigits (by simpa [size] using h) (by simp) ends]
      simp [size]
    · have size : -(((-n).toNat : Nat) : Int) = n := by omega
      rw [if_neg nonneg, List.cons_append, List.head?_cons, if_pos rfl]
      refine (readUnsigned_toDigits (by simpa only [if_true, size] using h)
        (fun _ => by omega) ends).trans ?_
      simp only [if_true, size]
  · rw [writeNumber, toList_int]
    split
    · cases digits : Nat.toDigits 10 n.toNat with
      | nil => exact absurd digits Nat.toDigits_ne_nil
      | cons c text =>
          exact ⟨c, text, rfl, .inl (Nat.isDigit_of_mem_toDigits (by decide) (by decide)
            (digits ▸ List.mem_cons_self))⟩
    · exact ⟨'-', _, rfl, .inr rfl⟩

end Numbers
/-- A text that starts like a value: neither a blank nor what ends one. -/
def Starts (text : List Char) : Prop :=
  ∃ c rest, text = c :: rest ∧ isBlank c = false ∧ c ≠ ',' ∧ c ≠ ']' ∧ c ≠ '}'

section Sequences
variable {α : Type} {read : Reader α} {write : α → List Char} {close : Char} {xs : List α}
  {fuel : Nat} {text rest : List Char}

theorem Starts.not_blank (h : Starts text) : skipBlanks (text ++ rest) = text ++ rest := by
  obtain ⟨c, tail, rfl, printed, _⟩ := h
  exact List.dropWhile_cons_of_neg (by simp [printed])

theorem skipBlanks_cons {c : Char} (h : isBlank c = false) : skipBlanks (c :: rest) = c :: rest :=
  List.dropWhile_cons_of_neg (by simp [h])

theorem commaSeparated_cons (text : List Char) {more : List (List Char)} (h : more ≠ []) :
    commaSeparated (text :: more) = text ++ ',' :: commaSeparated more := by
  cases more with
  | nil => exact absurd rfl h
  | cons _ _ => rfl

theorem readElements_written (hclose : close = ']' ∨ close = '}')
    (back : ∀ x ∈ xs, ∀ rest, Ends rest → read (write x ++ rest) = some (x, rest))
    (some_ : xs ≠ []) (room : xs.length ≤ fuel) :
    readElements read close fuel (commaSeparated (xs.map write) ++ close :: rest) =
      some (xs, rest) := by
  have closes : isBlank close = false ∧ close ≠ ',' := by
    obtain rfl | rfl := hclose <;> decide
  induction xs generalizing fuel with
  | nil => exact absurd rfl some_
  | cons x xs ih =>
      obtain ⟨fuel, rfl⟩ := Nat.exists_eq_add_of_le' (Nat.one_le_of_lt room)
      have first := back x List.mem_cons_self
      by_cases more : xs = []
      · subst more
        have ends : Ends (close :: rest) := by
          intro c hc
          obtain rfl := Option.some.inj hc
          exact hclose.elim (fun e => .inr (.inl e)) fun e => .inr (.inr e)
        rw [List.map_singleton, commaSeparated, readElements, first _ ends]
        simp only [Option.bind_eq_bind, Option.bind_some, skipBlanks_cons closes.1, if_true]
      · have ends : Ends (',' :: (commaSeparated (xs.map write) ++ close :: rest)) := by
          intro c hc
          exact .inl (Option.some.inj hc).symm
        have later := ih (fun x hx => back x (List.mem_cons_of_mem _ hx)) more
          (Nat.le_of_succ_le_succ room)
        rw [List.map_cons, commaSeparated_cons _ (by simpa using more), List.append_assoc,
          List.cons_append, readElements, first _ ends]
        simp only [Option.bind_eq_bind, Option.bind_some]
        rw [skipBlanks_cons (by decide)]
        simp only [if_neg (Ne.symm closes.2), if_true, later, Option.bind_some]

theorem length_le_written (h : ∀ x ∈ xs, Starts (write x)) :
    xs.length ≤ (commaSeparated (xs.map write)).length := by
  induction xs with
  | nil => exact Nat.le_refl _
  | cons x xs ih =>
      obtain ⟨c, tail, first, _⟩ := h x List.mem_cons_self
      have later := ih fun x hx => h x (List.mem_cons_of_mem _ hx)
      cases xs with
      | nil => simp [commaSeparated, first]
      | cons y ys =>
          rw [List.map_cons, commaSeparated_cons _ (by simp), List.length_append, first]
          simp only [List.length_cons] at later ⊢
          omega

theorem readSequence_written (hclose : close = ']' ∨ close = '}')
    (back : ∀ x ∈ xs, ∀ rest, Ends rest → read (write x ++ rest) = some (x, rest))
    (starts : ∀ x ∈ xs, Starts (write x)) :
    readSequence read close (commaSeparated (xs.map write) ++ close :: rest) =
      some (xs, rest) := by
  cases xs with
  | nil =>
      have kept : skipBlanks (close :: rest) = close :: rest :=
        skipBlanks_cons (by obtain rfl | rfl := hclose <;> decide)
      rw [readSequence, List.map_nil, commaSeparated, List.nil_append, kept, List.head?_cons,
        if_pos rfl]
      rfl
  | cons x xs =>
      have room := length_le_written starts
      obtain ⟨c, tail, first, printed, _, bracket, brace⟩ := starts x List.mem_cons_self
      obtain ⟨more, whole⟩ : ∃ more, commaSeparated ((x :: xs).map write) = c :: more := by
        cases xs with
        | nil => exact ⟨tail, first⟩
        | cons y ys =>
            rw [List.map_cons, commaSeparated_cons _ (by simp), first]
            exact ⟨_, rfl⟩
      have other : (skipBlanks (commaSeparated ((x :: xs).map write) ++ close :: rest)).head? ≠
          some close := by
        rw [whole, List.cons_append, skipBlanks_cons printed, List.head?_cons]
        intro same
        obtain rfl := Option.some.inj same
        exact hclose.elim bracket brace
      rw [readSequence, if_neg other]
      refine readElements_written hclose back (List.cons_ne_nil _ _) (room.trans ?_)
      rw [List.length_append]
      exact Nat.le_add_right _ _

end Sequences

section RoundTrip
variable (display : φ → List Char) (readFraction : List Char → Option φ)

/-- Every number of the value is read back where it is written. -/
def Readable (v : Json φ) : Prop :=
  v.Everywhere fun w => ∀ n, w = .number n → Reads display readFraction n

theorem renderItems_eq (items : List (Json φ)) :
    renderItems display items = items.map (render display) := by
  induction items with
  | nil => rfl
  | cons x rest ih => rw [renderItems, ih, List.map_cons]

theorem renderMembers_eq (members : List (String × Json φ)) :
    renderMembers display members = members.map fun m => (m.1, render display m.2) := by
  induction members with
  | nil => rfl
  | cons m rest ih => rw [renderMembers, ih, List.map_cons]

variable {display readFraction}
variable {v : Json φ} {rest : List Char} {limit : Nat} {read : Reader (Json φ)}

theorem Reads.starts {n : Number φ} (h : Reads display readFraction n) :
    Starts (writeNumber display n) := by
  obtain ⟨c, text, whole, digit⟩ := h.start
  refine ⟨c, text, whole, ?_⟩
  cases digit with
  | inl digit =>
      have other {d : Char} (hd : d.isDigit = false) : c ≠ d := by
        rintro rfl
        exact Bool.false_ne_true (hd.symm.trans digit)
      simp [isBlank, other (d := ' ') rfl, other (d := '\t') rfl, other (d := '\n') rfl,
        other (d := '\r') rfl, other (d := ',') rfl, other (d := ']') rfl, other (d := '}') rfl]
  | inr minus => rw [minus]; decide

theorem render_starts (h : Readable display readFraction v) : Starts (render display v) := by
  cases v with
  | null => exact ⟨'n', _, rfl, by decide⟩
  | bool b => cases b <;> exact ⟨_, _, rfl, by decide⟩
  | number n => exact (h (.number n) (List.mem_singleton.mpr rfl) n rfl).starts
  | string s => exact ⟨'"', _, rfl, by decide⟩
  | array items => exact ⟨'[', _, rfl, by decide⟩
  | object members => exact ⟨'{', _, rfl, by decide⟩

theorem readMember_written {key : String} (h : read (render display v ++ rest) = some (v, rest)) :
    readMember read (writeMember (key, render display v) ++ rest) = some ((key, v), rest) := by
  have key_back := readString_quoted key (':' :: (render display v ++ rest))
  simp only [readMember, writeMember, quoted, List.cons_append, List.append_assoc]
  rw [skipBlanks_cons (by decide)]
  simp only [List.nil_append, key_back, Option.bind_eq_bind, Option.bind_some]
  rw [skipBlanks_cons (by decide)]
  simp only [h, Option.bind_some]

theorem readNode_number {n : Number φ} {inner : Option (Reader (Json φ))}
    (h : Reads display readFraction n) (ends : Ends rest) :
    readNode readFraction inner (writeNumber display n ++ rest) = some (.number n, rest) := by
  obtain ⟨c, text, whole, digit⟩ := h.start
  have other {d : Char} (hd : d.isDigit = false) (minus : d ≠ '-') : c ≠ d := by
    rintro rfl
    exact digit.elim (fun digit => Bool.false_ne_true (hd.symm.trans digit)) minus
  have back := h.back rest ends
  rw [readNode, h.starts.not_blank]
  rw [whole, List.cons_append] at back ⊢
  simp only [other (d := '"') rfl (by decide), other (d := '[') rfl (by decide),
    other (d := '{') rfl (by decide), other (d := 'n') rfl (by decide),
    other (d := 't') rfl (by decide), other (d := 'f') rfl (by decide), if_false, back,
    Option.map_some]

/-- The text of a value is read back, whatever ends it. -/
theorem readValue_render (v : Json φ) {limit : Nat} {rest : List Char}
    (readable : Readable display readFraction v) (within : v.Within limit) (ends : Ends rest) :
    readValue readFraction limit (render display v ++ rest) = some (v, rest) := by
  induction v generalizing limit rest with
  | null => cases limit <;> rfl
  | bool b => cases limit <;> cases b <;> rfl
  | number n =>
      have back := readable (.number n) (List.mem_singleton.mpr rfl) n rfl
      cases limit <;> exact readNode_number back ends
  | string s =>
      have back (inner : Option (Reader (Json φ))) :
          readNode readFraction inner (render display (.string s) ++ rest) =
            some (.string s, rest) := by
        rw [readNode, render, quoted, List.cons_append, skipBlanks_cons (by decide),
          List.append_assoc]
        simp only [if_true, List.cons_append, List.nil_append, readString_quoted, Option.map_some]
      cases limit <;> exact back _
  | array items ih =>
      have inside := (Json.everywhere_array.mp readable).2
      cases limit with
      | zero => exact within.elim
      | succ limit =>
          have back : readSequence (readValue readFraction limit) ']'
              (commaSeparated (items.map (render display)) ++ ']' :: rest) = some (items, rest) :=
            readSequence_written (.inl rfl)
              (fun x hx rest ends => ih x hx (inside x hx) (within x hx) ends)
              (fun x hx => render_starts (inside x hx))
          rw [readValue, readNode, render, renderItems_eq, List.cons_append,
            skipBlanks_cons (by decide), List.append_assoc]
          simp only [Char.reduceEq, if_false, if_true, List.cons_append, List.nil_append, back,
            Option.bind_eq_bind, Option.bind_some]
  | object members ih =>
      have inside := (Json.everywhere_object.mp readable).2
      cases limit with
      | zero => exact within.elim
      | succ limit =>
          have back : readSequence (readMember (readValue readFraction limit)) '}'
              (commaSeparated (members.map fun m => writeMember (m.1, render display m.2)) ++
                '}' :: rest) = some (members, rest) :=
            readSequence_written (.inr rfl)
              (fun m hm rest ends => readMember_written (ih m hm (inside m hm) (within m hm) ends))
              (fun _ _ => ⟨'"', _, rfl, by decide⟩)
          rw [readValue, readNode, render, renderMembers_eq, List.map_map, List.cons_append,
            skipBlanks_cons (by decide), List.append_assoc]
          simp only [Char.reduceEq, if_false, if_true, List.cons_append, List.nil_append,
            Function.comp_def, back, Option.bind_eq_bind, Option.bind_some]

theorem parseWithin_render (readable : Readable display readFraction v) (within : v.Within limit) :
    parseWithin readFraction limit (render display v) = some v := by
  have ends : Ends [] := fun c hc => by cases hc
  have back := readValue_render v readable within ends
  rw [List.append_nil] at back
  simp only [parseWithin, back]
  rfl

theorem length_le_commaSeparated {texts : List (List Char)} {text : List Char} (h : text ∈ texts) :
    text.length ≤ (commaSeparated texts).length := by
  induction texts with
  | nil => exact absurd h List.not_mem_nil
  | cons first rest ih =>
      cases rest with
      | nil => rw [List.mem_singleton.mp h]; exact Nat.le_refl _
      | cons second rest =>
          rw [commaSeparated_cons _ (List.cons_ne_nil _ _), List.length_append, List.length_cons]
          cases List.mem_cons.mp h with
          | inl same => rw [same]; omega
          | inr later => have := ih later; omega

theorem within_length (v : Json φ) : v.Within (render display v).length := by
  induction v with
  | null => trivial
  | bool b => cases b <;> trivial
  | number n => cases (render display (.number n)).length <;> trivial
  | string s => trivial
  | array items ih =>
      rw [render, List.length_cons]
      intro x hx
      refine (ih x hx).mono ?_
      have one := length_le_commaSeparated (List.mem_map_of_mem (f := render display) hx)
      rw [renderItems_eq, List.length_append]
      omega
  | object members ih =>
      rw [render, List.length_cons]
      intro m hm
      refine (ih m hm).mono ?_
      have one := length_le_commaSeparated
        (List.mem_map_of_mem (f := fun m => writeMember (m.1, render display m.2)) hm)
      rw [renderMembers_eq, List.map_map, List.length_append]
      simp only [writeMember, List.length_append, List.length_cons] at one
      simp only [Function.comp_def, writeMember]
      omega

/-- A value whose numbers are read back is read back from its text. -/
theorem parse_render (readable : Readable display readFraction v) :
    parse readFraction (render display v) = some v :=
  parseWithin_render readable (within_length v)

end RoundTrip

section Printed
variable {display : φ → List Char}

/-- No control character, and so none that ends a line. -/
def Printed (text : List Char) : Prop := ∀ c ∈ text, 0x20 ≤ c.toNat

theorem Printed.append {a b : List Char} (ha : Printed a) (hb : Printed b) : Printed (a ++ b) := by
  intro c hc
  cases List.mem_append.mp hc with
  | inl left => exact ha c left
  | inr right => exact hb c right

theorem Printed.cons {c : Char} {text : List Char} (hc : 0x20 ≤ c.toNat) (h : Printed text) :
    Printed (c :: text) := by
  intro d hd
  cases List.mem_cons.mp hd with
  | inl same => exact same ▸ hc
  | inr later => exact h d later

theorem printed_digit {n : Nat} (h : n < 16) : 0x20 ≤ n.digitChar.toNat := by
  revert n
  decide

theorem printed_escapeChar (c : Char) : Printed (escapeChar c) := by
  unfold escapeChar
  split
  case h_8 =>
    split
    · have high := printed_digit (n := c.toNat / 16) (by omega)
      have low := printed_digit (n := c.toNat % 16) (by omega)
      intro d hd
      simp only [List.mem_cons, List.not_mem_nil, or_false] at hd
      obtain rfl | rfl | rfl | rfl | rfl | rfl := hd
      exacts [by decide, by decide, by decide, by decide, high, low]
    · next control =>
        intro d hd
        rw [List.mem_singleton.mp hd]
        exact Nat.le_of_not_lt control
  all_goals
    intro d hd
    simp only [List.mem_cons, List.not_mem_nil, or_false] at hd
    obtain rfl | rfl := hd <;> decide

theorem printed_quoted (s : String) : Printed (quoted s) := by
  refine .cons (by decide) (.append (fun c hc => ?_) (.cons (by decide) fun c hc => by cases hc))
  obtain ⟨d, _, there⟩ := List.mem_flatMap.mp hc
  exact printed_escapeChar d c there

theorem printed_commaSeparated {ts : List (List Char)} (h : ∀ t ∈ ts, Printed t) :
    Printed (commaSeparated ts) := by
  induction ts with
  | nil => exact fun c hc => by cases hc
  | cons t ts ih =>
      have first := h t List.mem_cons_self
      have later := ih fun u hu => h u (List.mem_cons_of_mem _ hu)
      cases ts with
      | nil => exact first
      | cons u us =>
          rw [commaSeparated_cons _ (List.cons_ne_nil _ _)]
          exact first.append (.cons (by decide) later)

theorem printed_word (word : String) (h : word.toList.all (0x20 ≤ ·.toNat) = true) :
    Printed word.toList :=
  fun c hc => of_decide_eq_true (List.all_eq_true.mp h c hc)

theorem printed_render (v : Json φ)
    (h : v.Everywhere fun w => ∀ n, w = .number n → Printed (writeNumber display n)) :
    Printed (render display v) := by
  induction v with
  | null => exact printed_word "null" (by decide)
  | bool b => cases b <;> exact printed_word _ (by decide)
  | number n => exact h (.number n) (List.mem_singleton.mpr rfl) n rfl
  | string s => exact printed_quoted s
  | array items ih =>
      have inside := (Json.everywhere_array.mp h).2
      rw [render, renderItems_eq]
      refine .cons (by decide) (.append (printed_commaSeparated fun t ht => ?_)
        (.cons (by decide) fun c hc => by cases hc))
      obtain ⟨x, hx, rfl⟩ := List.mem_map.mp ht
      exact ih x hx (inside x hx)
  | object members ih =>
      have inside := (Json.everywhere_object.mp h).2
      rw [render, renderMembers_eq, List.map_map]
      refine .cons (by decide) (.append (printed_commaSeparated fun t ht => ?_)
        (.cons (by decide) fun c hc => by cases hc))
      obtain ⟨m, hm, rfl⟩ := List.mem_map.mp ht
      exact (printed_quoted m.1).append (.cons (by decide) (ih m hm (inside m hm)))

end Printed

end JsonText
