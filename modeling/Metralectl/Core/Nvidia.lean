import Metralectl.Core.Exposition
import Metralectl.Library.Rounding
import Metralectl.Library.Traversal

/-!
What `nvidia-smi` prints of the accelerators, and how it is read: a line an accelerator, its
fields between commas. Multiplication is that of a build that checks for overflow; one that does
not goes on with the remainder.
-/
namespace Metralectl
namespace Nvidia
open Metrics Rounding Traversal

/-- A product does not fit. -/
inductive Overflow where
  | overflow
deriving DecidableEq

def mulU64 (a b : Nat) : Except Overflow Nat :=
  if a * b < 2 ^ 64 then .ok (a * b) else .error .overflow

/-- `m * 1024 * 1024`. -/
def mibBytes (m : Nat) : Except Overflow Nat := do
  let kib ← mulU64 m 1024
  mulU64 kib 1024

def mibField (reading : Option Nat) : Except Overflow (Option Nat) :=
  match reading with
  | some m => (mibBytes m).map some
  | none => .ok none

/-- A field the tool declines to answer, in any of its spellings. -/
def declined (raw : Text) : Bool :=
  let t := trimChars raw
  t = [] ∨ (t.head? = some '[' ∧ t.getLast? = some ']') ∨ t.map Char.toLower = "n/a".toList

def stripPlus : Text → Text
  | '+' :: digits => digits
  | digits => digits

/-- An unsigned number of so many bits. -/
def parseUnsigned (bits : Nat) (text : Text) : Option Nat :=
  let digits := stripPlus text
  if digits ≠ [] ∧ digits.all Char.isDigit ∧ digitsValue digits < 2 ^ bits then
    some (digitsValue digits)
  else none

section Identity

/-- One accelerator, as far as the tool answers for it. -/
structure NvidiaGpu where
  name : Option Text
  driver : Option Text
  count : Option Nat
  computeCap : Option (Nat × Nat)
  /-- Its own framebuffer. -/
  memoryTotalBytes : Option Nat
deriving DecidableEq

/-- The field in a position, unless it is declined. -/
def answered (f : List Text) (i : Nat) : Option Text :=
  (f[i]?.filter fun v => !declined v).map trimChars

def parseCap (v : Text) : Option (Nat × Nat) := do
  let (major, minor) ← splitOnce '.' v
  return (← parseUnsigned 32 major, ← parseUnsigned 32 minor)

/-- The framebuffer in MiB, a bare number. -/
def totalMib (f : List Text) : Option Nat :=
  ((answered f 4).bind (parseUnsigned 64)).filter (0 < ·)

def parseGpu (line : Text) : Except Overflow NvidiaGpu := do
  let f := pieces ',' line
  let memory ← mibField (totalMib f)
  return {
    name := answered f 0
    driver := answered f 1
    count := (answered f 2).bind (parseUnsigned 32)
    computeCap := (answered f 3).bind parseCap
    memoryTotalBytes := memory }

/-- The lines an accelerator stands on. -/
def gpuLines (csv : String) : List Text := (lines csv).filter fun l => trimChars l ≠ []

def parseNvidiaIdentity (csv : String) : Except Overflow (List NvidiaGpu) :=
  (gpuLines csv).mapM parseGpu

end Identity

section Sample

/-- One accelerator's live readings, as far as it reports them. -/
structure NvidiaSample where
  name : Option Text
  memoryTotalBytes : Option Nat
  memoryUsedBytes : Option Nat
  utilPct : Option Number
  smClockMhz : Option Nat
  temperatureC : Option Number
  powerW : Option Number
deriving DecidableEq

/-- The nearest number of 64 bits. -/
def toF64 : Number → Number
  | .finite q =>
      match binary64.round q with
      | some r => .finite r
      | none => if 0 < q then .infinity else .negInfinity
  | n => n

/-- The first word between white space. -/
def firstWord (raw : Text) : Option Text :=
  match (raw.dropWhile isWhitespace).takeWhile fun c => !isWhitespace c with
  | [] => none
  | word => some word

/-- The number in front of a field's unit, unless declined. -/
def number (raw : Text) : Option Number :=
  if declined raw then none else ((firstWord raw).bind parseF64).map toF64

/-- A number that is not negative, cast to 64 bits: cut to a whole one, and to the largest. -/
def whole : Number → Option Nat
  | .finite q => if 0 ≤ q then some (min ⌊q⌋.toNat (2 ^ 64 - 1)) else none
  | .infinity => some (2 ^ 64 - 1)
  | .negInfinity | .nan => none

/-- The field in a position, empty if there is none. -/
def position (f : List Text) (i : Nat) : Text := f[i]?.getD []

/-- A memory field's reading in MiB. -/
def mib (f : List Text) (i : Nat) : Option Nat := (number (position f i)).bind whole

def parseNvidiaSample (line : Text) : Except Overflow NvidiaSample := do
  let f := pieces ',' line
  let total ← mibField (mib f 1)
  let used ← mibField (mib f 2)
  return {
    name := if declined (position f 0) then none else some (trimChars (position f 0))
    memoryTotalBytes := total
    memoryUsedBytes := used
    utilPct := number (position f 3)
    smClockMhz := ((number (position f 4)).bind whole).filter (· < 2 ^ 32)
    temperatureC := number (position f 5)
    powerW := number (position f 6) }

end Sample

section Meaning

/-- The number a field prints, in front of its unit if it has one. -/
def printed (field : Text) : Option ℚ :=
  match (firstWord field).bind parseF64 with
  | some (.finite q) => some q
  | _ => none

/-- The field of a line of so many: no field but the name has commas in it. -/
def inPlace (fields i : Nat) (f : List Text) : Text := position f (i + (f.length - fields))

/-- Nothing, or the whole number of MiB that is printed, as bytes that fit. -/
def Exactly (field : Text) (bytes : Option Nat) : Prop :=
  ∀ b, bytes = some b → ∃ m : Nat, printed field = some (m : ℚ) ∧ b = m * 2 ^ 20 ∧ b < 2 ^ 64

/-- No product overflows, and every memory field is its own. -/
def IdentityExact (csv : String) : Prop :=
  ∃ gpus, parseNvidiaIdentity csv = .ok gpus ∧
    List.Forall₂ (fun line gpu => Exactly (inPlace 5 4 (pieces ',' line)) gpu.memoryTotalBytes)
      (gpuLines csv) gpus

def SampleExact (line : Text) : Prop :=
  ∃ s, parseNvidiaSample line = .ok s ∧
    Exactly (inPlace 7 1 (pieces ',' line)) s.memoryTotalBytes ∧
    Exactly (inPlace 7 2 (pieces ',' line)) s.memoryUsedBytes

/-- What is read in a field's position is a whole number below 2^44; and where a name has commas,
the field prints the same. -/
def Fits (fields i : Nat) (f : List Text) (reading : Option Nat) : Prop :=
  ∀ m, reading = some m →
    if f.length ≤ fields then ∃ n : Nat, printed (position f i) = some (n : ℚ) ∧ n < 2 ^ 44
    else m < 2 ^ 44 ∧ printed (inPlace fields i f) = some (m : ℚ)

end Meaning

section Reading
variable {raw text : Text} {m n : Nat} {f : List Text}

theorem mibBytes_eq (m : Nat) :
    mibBytes m = if m < 2 ^ 44 then .ok (m * 2 ^ 20) else .error .overflow := by
  have product : m * 1024 * 1024 = m * 2 ^ 20 := Nat.mul_assoc m 1024 1024
  by_cases fits : m < 2 ^ 44
  · have first : mulU64 m 1024 = .ok (m * 1024) := if_pos (by omega)
    have second : mulU64 (m * 1024) 1024 = .ok (m * 1024 * 1024) := if_pos (by omega)
    rw [if_pos fits, mibBytes, first, ← product]
    exact second
  · rw [if_neg fits, mibBytes]
    have second : mulU64 (m * 1024) 1024 = .error .overflow := if_neg (by omega)
    by_cases half : m * 1024 < 2 ^ 64
    · have first : mulU64 m 1024 = .ok (m * 1024) := if_pos half
      rw [first]
      exact second
    · have first : mulU64 m 1024 = .error .overflow := if_neg half
      rw [first]
      rfl

theorem numberChar_solid {c : Char} (h : numberChar c = true) : isWhitespace c = false := by
  simp only [numberChar, Bool.or_eq_true, decide_eq_true_eq] at h
  rcases h with ((alphanum | rfl) | rfl) | rfl
  · exact isWhitespace_alphanum alphanum
  · rfl
  · rfl
  · rfl

/-- What is trimmed and has no white space in it is the first word. -/
theorem firstWord_trimChars (solid : ∀ c ∈ trimChars raw, isWhitespace c = false)
    (some_ : trimChars raw ≠ []) : firstWord raw = some (trimChars raw) := by
  have parts : trimChars raw ++ (raw.dropWhile isWhitespace).rtakeWhile isWhitespace =
      raw.dropWhile isWhitespace := List.rdropWhile_append_rtakeWhile ..
  have behind : ((raw.dropWhile isWhitespace).rtakeWhile isWhitespace).takeWhile
      (fun c => !isWhitespace c) = [] := by
    cases back : (raw.dropWhile isWhitespace).rtakeWhile isWhitespace with
    | nil => rfl
    | cons c rest =>
        have white : isWhitespace c = true :=
          List.mem_rtakeWhile_imp (back ▸ List.mem_cons_self)
        rw [List.takeWhile_cons_of_neg (by simp [white])]
  have word : (raw.dropWhile isWhitespace).takeWhile (fun c => !isWhitespace c) =
      trimChars raw := by
    rw [← parts, List.takeWhile_append_of_pos (by simpa using solid), behind, List.append_nil]
  rw [firstWord, word]
  cases h : trimChars raw with
  | nil => exact absurd h some_
  | cons c rest => rfl

/-- Digits are read as the number they are, with a plus sign before them or without. -/
theorem parseF64_digits (some_ : text ≠ []) (digits : text.all Char.isDigit = true) :
    parseF64 text = some (.finite (digitsValue text)) ∧
      parseF64 ('+' :: text) = some (.finite (digitsValue text)) := by
  have digit : ∀ c ∈ text, c.isDigit = true := List.all_eq_true.mp digits
  have lower : text.map Char.toLower = text := by
    refine (List.map_congr_left fun c hc => ?_).trans (List.map_id text)
    have upto := digit c hc
    simp only [Char.isDigit, Bool.and_eq_true, decide_eq_true_eq, UInt32.le_iff_toNat_le] at upto
    refine dif_neg ?_
    rintro ⟨above, _⟩
    rw [ge_iff_le, UInt32.le_iff_toNat_le] at above
    exact absurd (above.trans upto.2) (by decide)
  have letters (word : String) (h : word.toList.all Char.isDigit = false) :
      text.map Char.toLower ≠ word.toList := by
    rw [lower]
    rintro rfl
    rw [digits] at h
    cases h
  have decimal : decimalValue text = some (digitsValue text : ℚ) := by
    have all : text.takeWhile Char.isDigit = text := List.takeWhile_eq_self_iff.mpr digit
    have none_ : text.dropWhile Char.isDigit = [] := List.dropWhile_eq_nil_iff.mpr digit
    rw [decimalValue, all, none_]
    simp [some_]
  have body : (if text.map Char.toLower = "inf".toList ∨ text.map Char.toLower = "infinity".toList
      then some (if false then Number.negInfinity else .infinity)
      else if text.map Char.toLower = "nan".toList then some .nan
      else (decimalValue text).map fun value => .finite (if false then -value else value)) =
        some (.finite (digitsValue text)) := by
    rw [if_neg (not_or.mpr ⟨letters "inf" rfl, letters "infinity" rfl⟩),
      if_neg (letters "nan" rfl), decimal]
    rfl
  refine ⟨?_, body⟩
  unfold parseF64
  split
  next negative unsigned same =>
    split at same
    · exact absurd (digit '-' List.mem_cons_self) (by decide)
    · exact absurd (digit '+' List.mem_cons_self) (by decide)
    · cases same
      exact body

theorem stripPlus_cases (text : Text) : text = '+' :: stripPlus text ∨ stripPlus text = text := by
  unfold stripPlus
  split
  · exact .inl rfl
  · exact .inr rfl

theorem parseF64_unsigned {bits : Nat} (h : parseUnsigned bits text = some m) :
    parseF64 text = some (.finite (m : ℚ)) := by
  unfold parseUnsigned at h
  dsimp only at h
  split at h
  · next digits =>
      cases h
      obtain ⟨bare, signed⟩ := parseF64_digits digits.1 digits.2.1
      obtain plus | none_ := stripPlus_cases text
      · rwa [plus]
      · rw [none_] at bare ⊢
        exact bare
  · cases h

theorem printed_totalMib (h : totalMib f = some m) : printed (position f 4) = some (m : ℚ) := by
  unfold totalMib at h
  obtain ⟨read, _⟩ := Option.filter_eq_some_iff.mp h
  obtain ⟨text, there, read⟩ := Option.bind_eq_some_iff.mp read
  obtain ⟨raw, kept, rfl⟩ := Option.map_eq_some_iff.mp there
  obtain ⟨here, _⟩ := Option.filter_eq_some_iff.mp kept
  have value := parseF64_unsigned read
  have some_ : trimChars raw ≠ [] := by
    intro none_
    rw [none_] at value
    cases value
  have solid : ∀ c ∈ trimChars raw, isWhitespace c = false := fun c hc =>
    numberChar_solid (parseF64_chars value c hc)
  rw [printed, position, here, Option.getD_some, firstWord_trimChars solid some_,
    Option.bind_some, value]

theorem toF64_natCast (short : n < 2 ^ 44) : toF64 (.finite n) = .finite n := by
  have same := round_natCast binary64 (short.trans (by decide))
  change (match binary64.round n with
    | some r => Number.finite r
    | none => if (0 : ℚ) < n then .infinity else .negInfinity) = .finite n
  rw [same]

theorem mib_printed {i : Nat} (h : mib f i = some m)
    (says_ : printed (position f i) = some (n : ℚ)) (short : n < 2 ^ 44) : m = n := by
  obtain ⟨v, read, cut⟩ := Option.bind_eq_some_iff.mp h
  unfold number at read
  split at read
  · cases read
  · obtain ⟨exact_, word, rfl⟩ := Option.map_eq_some_iff.mp read
    rw [printed, word] at says_
    cases exact_ with
    | finite q =>
        obtain rfl := Option.some.inj says_
        rw [toF64_natCast short, whole, if_pos (Nat.cast_nonneg n), Int.floor_natCast,
          Int.toNat_natCast, Nat.min_eq_left (by omega)] at cut
        exact (Option.some.inj cut).symm
    | infinity | negInfinity | nan => cases says_

end Reading

section Exactness

theorem inPlace_of_le {fields i : Nat} {f : List Text} (few : f.length ≤ fields) :
    inPlace fields i f = position f i := by
  rw [inPlace, Nat.sub_eq_zero_of_le few, Nat.add_zero]

/-- A reading that agrees with the number its field prints, where that is a small whole one. -/
theorem exactly_iff {fields i : Nat} {f : List Text} {reading : Option Nat}
    (agrees : ∀ m n : Nat, reading = some m → printed (position f i) = some (n : ℚ) →
      n < 2 ^ 44 → m = n) :
    (∃ bytes, mibField reading = .ok bytes ∧ Exactly (inPlace fields i f) bytes) ↔
      Fits fields i f reading := by
  cases reading with
  | none => exact ⟨fun _ => nofun, fun _ => ⟨none, rfl, nofun⟩⟩
  | some m =>
      constructor
      · rintro ⟨bytes, ok, exactly⟩ _ ⟨⟩
        rw [mibField, mibBytes_eq] at ok
        split at ok
        · next small =>
            cases ok
            obtain ⟨k, own, same, _⟩ := exactly _ rfl
            obtain rfl : m = k := by omega
            split
            · next few => exact ⟨m, inPlace_of_le few ▸ own, small⟩
            · exact ⟨small, own⟩
        · cases ok
      · intro fits
        have here := fits m rfl
        have own : m < 2 ^ 44 ∧ printed (inPlace fields i f) = some (m : ℚ) := by
          split at here
          · next few =>
              obtain ⟨n, own, small⟩ := here
              obtain rfl := agrees m n rfl own small
              exact ⟨small, inPlace_of_le few ▸ own⟩
          · exact here
        refine ⟨some (m * 2 ^ 20), ?_, ?_⟩
        · rw [mibField, mibBytes_eq, if_pos own.1]
          rfl
        · rintro _ ⟨⟩
          exact ⟨m, own.2, rfl, by omega⟩

theorem parseGpu_exact (line : Text) :
    (∃ gpu, parseGpu line = .ok gpu ∧
      Exactly (inPlace 5 4 (pieces ',' line)) gpu.memoryTotalBytes) ↔
    Fits 5 4 (pieces ',' line) (totalMib (pieces ',' line)) := by
  have agrees (m n : Nat) (reading : totalMib (pieces ',' line) = some m)
      (own : printed (position (pieces ',' line) 4) = some (n : ℚ)) : m = n := by
    exact_mod_cast Option.some.inj ((printed_totalMib reading).symm.trans own)
  rw [← exactly_iff fun m n reading own _ => agrees m n reading own]
  unfold parseGpu
  dsimp only
  cases mibField (totalMib (pieces ',' line)) with
  | error e =>
      constructor
      · rintro ⟨_, ⟨⟩, _⟩
      · rintro ⟨_, ⟨⟩, _⟩
  | ok bytes =>
      constructor
      · rintro ⟨_, ⟨⟩, exactly⟩
        exact ⟨bytes, rfl, exactly⟩
      · rintro ⟨_, ⟨⟩, exactly⟩
        exact ⟨_, rfl, exactly⟩

theorem parseNvidiaSample_exact (line : Text) :
    SampleExact line ↔ ∀ i ∈ [1, 2],
      Fits 7 i (pieces ',' line) (mib (pieces ',' line) i) := by
  have field (i : Nat) : (∃ bytes, mibField (mib (pieces ',' line) i) = .ok bytes ∧
        Exactly (inPlace 7 i (pieces ',' line)) bytes) ↔
      Fits 7 i (pieces ',' line) (mib (pieces ',' line) i) :=
    exactly_iff fun m n reading own short => mib_printed reading own short
  rw [List.forall_mem_cons, List.forall_mem_singleton, ← field 1, ← field 2]
  unfold SampleExact parseNvidiaSample
  dsimp only
  cases mibField (mib (pieces ',' line) 1) with
  | error e =>
      constructor
      · rintro ⟨_, ⟨⟩, _⟩
      · rintro ⟨⟨_, ⟨⟩, _⟩, _⟩
  | ok total =>
      cases mibField (mib (pieces ',' line) 2) with
      | error e =>
          constructor
          · rintro ⟨_, ⟨⟩, _⟩
          · rintro ⟨_, _, ⟨⟩, _⟩
      | ok used =>
          constructor
          · rintro ⟨_, ⟨⟩, one, other⟩
            exact ⟨⟨total, rfl, one⟩, used, rfl, other⟩
          · rintro ⟨⟨_, ⟨⟩, one⟩, _, ⟨⟩, other⟩
            exact ⟨_, rfl, one, other⟩

end Exactness

/-- Whatever is printed: the memory fields are nothing or what is printed, and no product
overflows, if and only if every reading is of a whole number below 2^44 and of its own field. -/
theorem memory_exact (csv : String) (row : Text) :
    (IdentityExact csv ↔
      ∀ line ∈ gpuLines csv, Fits 5 4 (pieces ',' line) (totalMib (pieces ',' line))) ∧
    (SampleExact row ↔
      ∀ i ∈ [1, 2], Fits 7 i (pieces ',' row) (mib (pieces ',' row) i)) := by
  refine ⟨?_, parseNvidiaSample_exact row⟩
  exact mapM_forall₂.trans (forall₂_congr fun line _ => parseGpu_exact line)

/-- A framebuffer of 2^44 MiB overflows. With two commas in its name an accelerator's count is its
framebuffer, and with one it uses what it has in total. -/
theorem memory_exact_fails :
    (∃ csv, parseNvidiaIdentity csv = .error .overflow ∧ ¬ IdentityExact csv) ∧
    (∃ csv gpu, parseNvidiaIdentity csv = .ok [gpu] ∧ ¬ IdentityExact csv) ∧
    ∃ line sample, parseNvidiaSample line = .ok sample ∧ ¬ SampleExact line := by
  refine ⟨⟨"X, 580.1, 1, 9.0, 17592186044416", ?_⟩,
    ⟨"X, A, B, 580.1, 2, 9.0, 81559",
      ⟨some ['X'], some ['A'], none, some (580, 1), some 2097152⟩, by decide +kernel, ?_⟩,
    ⟨"X, A, 9 MiB, 0 MiB".toList ++ ",,,,".toList,
      ⟨some ['X'], none, some 9437184, some (.finite 0), none, none, none⟩, by decide +kernel, ?_⟩⟩
  · have wrong : parseNvidiaIdentity "X, 580.1, 1, 9.0, 17592186044416" = .error .overflow := by
      decide +kernel
    refine ⟨wrong, ?_⟩
    rintro ⟨gpus, ok, _⟩
    rw [wrong] at ok
    cases ok
  · intro exactly
    have line := mapM_forall₂.mp exactly "X, A, B, 580.1, 2, 9.0, 81559".toList (by decide +kernel)
    have fits := (parseGpu_exact _).mp line 2 (by decide +kernel)
    rw [if_neg (by decide +kernel)] at fits
    exact absurd fits.2 (by decide +kernel)
  · intro exactly
    have fits := (parseNvidiaSample_exact _).mp exactly 2 (by decide) 9 (by decide +kernel)
    rw [if_neg (by decide +kernel)] at fits
    exact absurd fits.2 (by decide +kernel)

end Nvidia
end Metralectl
