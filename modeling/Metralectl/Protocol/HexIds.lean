import Metralectl.Library.Utf8
import Metralectl.Protocol.Ids

/-!
Identifiers of a fixed width, written as hex. They are written in lower case and read in either:
what is read is the identifier that is written so.
-/
namespace Metralectl
namespace HexId
open Utf8

/-- The value of a byte as a hex digit of either case. -/
def digit (b : UInt8) : Option Nat :=
  let n := b.toNat
  if 48 ≤ n ∧ n ≤ 57 then some (n - 48)
  else if 97 ≤ n ∧ n ≤ 102 then some (n - 87)
  else if 65 ≤ n ∧ n ≤ 70 then some (n - 55)
  else none

/-- The bytes a text stands for, two characters each; a character left over is let go. -/
def pairs : Nat → Bytes → Except String Bytes
  | i, hi :: lo :: rest =>
      match digit hi, digit lo with
      | some h, some l => (pairs (i + 1) rest).map (UInt8.ofNat (h * 16 + l) :: ·)
      | _, _ => .error s!"character {i * 2} is not hexadecimal"
  | _, _ => .ok []

def decode (n : Nat) (s : Bytes) : Except String Bytes :=
  if s.length ≠ 2 * n then .error s!"expected {2 * n} hex characters, got {s.length}" else pairs 0 s

def hexDigit (d : Nat) : UInt8 := UInt8.ofNat (if d < 10 then 48 + d else 87 + d)

def encode (bytes : Bytes) : Bytes :=
  bytes.flatMap fun b => [hexDigit (b.toNat / 16), hexDigit (b.toNat % 16)]

def refuseZero (nonzero : Bool) (bytes : Bytes) (name : String) : Except String Unit :=
  if nonzero && bytes.all (· = 0) then .error s!"{name} is never all zero" else .ok ()

def toAsciiLowercase (b : UInt8) : UInt8 :=
  if 65 ≤ b.toNat ∧ b.toNat ≤ 90 then UInt8.ofNat (b.toNat + 32) else b

end HexId

/-- What is said of a text that is not such an identifier. -/
def HexId.said (name e : String) : String := s!"{name}: {e}"

/-- An identifier of so many bytes, and not all of them zero where it may not be. -/
structure HexId (name : String) (n : Nat) (nonzero : Bool) where
  bytes : Utf8.Bytes
  width : bytes.length = n
  live : HexId.refuseZero nonzero bytes name = .ok ()

namespace HexId
open Utf8
variable {name : String} {n : Nat} {nonzero : Bool}

def ofBytes (name : String) (n : Nat) (nonzero : Bool) (bytes : Bytes) (width : bytes.length = n) :
    Except String (HexId name n nonzero) :=
  match live : refuseZero nonzero bytes name with
  | .error e => .error e
  | .ok () => .ok ⟨bytes, width, live⟩

section Digits
variable {b : UInt8} {d : Nat}

theorem toNat_hexDigit (small : d < 16) :
    (hexDigit d).toNat = if d < 10 then 48 + d else 87 + d := by
  rw [hexDigit, UInt8.toNat_ofNat']
  split
  · omega
  · omega

/-- A digit is read exactly where its lower case is written. -/
theorem digit_iff (small : d < 16) :
    digit b = some d ↔ hexDigit d = toAsciiLowercase b := by
  have bound : b.toNat < 256 := b.toNat_lt
  have written := toNat_hexDigit small
  rw [← UInt8.toNat_inj, written, digit, toAsciiLowercase]
  by_cases number : 48 ≤ b.toNat ∧ b.toNat ≤ 57
  · have small : ¬(65 ≤ b.toNat ∧ b.toNat ≤ 90) := by omega
    rw [if_pos number, if_neg small, Option.some.injEq]
    split
    · omega
    · omega
  · by_cases upper : 65 ≤ b.toNat ∧ b.toNat ≤ 90
    · have lowered : (UInt8.ofNat (b.toNat + 32)).toNat = b.toNat + 32 := by
        rw [UInt8.toNat_ofNat']
        omega
      have not_lower : ¬(97 ≤ b.toNat ∧ b.toNat ≤ 102) := by omega
      rw [if_neg number, if_neg not_lower, if_pos upper, lowered]
      by_cases letter : 65 ≤ b.toNat ∧ b.toNat ≤ 70
      · rw [if_pos letter, Option.some.injEq]
        split
        · omega
        · omega
      · rw [if_neg letter]
        split
        · simp only [reduceCtorEq, false_iff]
          omega
        · simp only [reduceCtorEq, false_iff]
          omega
    · have not_upper : ¬(65 ≤ b.toNat ∧ b.toNat ≤ 70) := by omega
      rw [if_neg number, if_neg not_upper, if_neg upper]
      by_cases letter : 97 ≤ b.toNat ∧ b.toNat ≤ 102
      · rw [if_pos letter, Option.some.injEq]
        split
        · omega
        · omega
      · rw [if_neg letter]
        split
        · simp only [reduceCtorEq, false_iff]
          omega
        · simp only [reduceCtorEq, false_iff]
          omega

theorem digit_lt (read : digit b = some d) : d < 16 := by
  unfold digit at read
  dsimp only at read
  split at read
  · cases read
    omega
  · split at read
    · cases read
      omega
    · split at read
      · cases read
        omega
      · cases read

end Digits

/-- What is read is what is written so, the case left aside. -/
theorem pairs_ok {i : Nat} {s out : Bytes} (even : s.length = 2 * out.length) :
    pairs i s = .ok out ↔ encode out = s.map toAsciiLowercase := by
  induction out generalizing i s with
  | nil =>
      cases List.length_eq_zero_iff.mp even
      simp [pairs, encode]
  | cons b out ih =>
      rw [List.length_cons] at even
      match s, even with
      | hi :: lo :: rest, even =>
          have shorter : rest.length = 2 * out.length := by
            rw [List.length_cons, List.length_cons] at even
            omega
          have high : b.toNat / 16 < 16 := by
            have := b.toNat_lt
            omega
          have low : b.toNat % 16 < 16 := Nat.mod_lt _ (by decide)
          have written : encode (b :: out) =
              hexDigit (b.toNat / 16) :: hexDigit (b.toNat % 16) :: encode out := rfl
          rw [written, List.map_cons, List.map_cons, List.cons.injEq, List.cons.injEq,
            ← digit_iff high, ← digit_iff low, ← ih (i := i + 1) shorter, pairs]
          cases hd : digit hi with
          | none => simp
          | some h =>
              cases ld : digit lo with
              | none => simp
              | some l =>
                  have hlt := digit_lt hd
                  have llt := digit_lt ld
                  cases rests : pairs (i + 1) rest with
                  | error e => simp [Except.map]
                  | ok others =>
                      simp only [Except.map, Except.ok.injEq, List.cons.injEq, Option.some.injEq]
                      constructor
                      · rintro ⟨rfl, rfl⟩
                        rw [UInt8.toNat_ofNat']
                        refine ⟨?_, ?_, rfl⟩
                        · omega
                        · omega
                      · rintro ⟨rfl, rfl, rfl⟩
                        refine ⟨?_, rfl⟩
                        rw [Nat.div_add_mod' b.toNat 16]
                        exact UInt8.ofNat_toNat

theorem length_encode (bytes : Bytes) : (encode bytes).length = 2 * bytes.length := by
  induction bytes with
  | nil => rfl
  | cons b bytes ih =>
      have written : encode (b :: bytes) =
          hexDigit (b.toNat / 16) :: hexDigit (b.toNat % 16) :: encode bytes := rfl
      rw [written, List.length_cons, List.length_cons, ih, List.length_cons]
      omega

theorem length_pairs {i : Nat} {s out : Bytes} (read : pairs i s = .ok out) :
    out.length = s.length / 2 := by
  induction s using List.twoStepInduction generalizing i out with
  | nil =>
      cases read
      rfl
  | singleton _ =>
      cases read
      simp
  | cons_cons hi lo rest ih _ =>
      rw [pairs] at read
      split at read
      · cases rests : pairs (i + 1) rest with
        | error e =>
            rw [rests] at read
            cases read
        | ok others =>
            rw [rests] at read
            cases read
            rw [List.length_cons, ih rests, List.length_cons, List.length_cons]
            omega
      · cases read

theorem decode_ok {s out : Bytes} : decode n s = .ok out ↔
    out.length = n ∧ encode out = s.map toAsciiLowercase := by
  rw [decode]
  split
  · next wrong =>
      constructor
      · intro h
        cases h
      · rintro ⟨rfl, written⟩
        have same := congrArg List.length written
        rw [length_encode, List.length_map] at same
        exact absurd same.symm wrong
  · next right =>
      rw [Decidable.not_not] at right
      constructor
      · intro read
        have width : out.length = n := by
          rw [length_pairs read, right]
          omega
        exact ⟨width, (pairs_ok (width ▸ right)).mp read⟩
      · rintro ⟨rfl, written⟩
        exact (pairs_ok right).mpr written

theorem lower_encode (bytes : Bytes) : (encode bytes).map toAsciiLowercase = encode bytes := by
  have digits : ∀ d < 16, toAsciiLowercase (hexDigit d) = hexDigit d := by decide
  induction bytes with
  | nil => rfl
  | cons b bytes ih =>
      have written : encode (b :: bytes) =
          hexDigit (b.toNat / 16) :: hexDigit (b.toNat % 16) :: encode bytes := rfl
      have high : b.toNat / 16 < 16 := by
        have := b.toNat_lt
        omega
      rw [written, List.map_cons, List.map_cons, ih, digits _ high,
        digits _ (Nat.mod_lt _ (by decide))]

/-- The same digits, as characters. -/
theorem encode_text (bytes : Bytes) :
    Utf8.encode (bytes.flatMap fun b => hexDigits 2 b.toNat) = encode bytes := by
  have digits : ∀ d < 16, String.utf8EncodeChar d.digitChar = [hexDigit d] := by decide
  induction bytes with
  | nil => rfl
  | cons b bytes ih =>
      have written : encode (b :: bytes) =
          hexDigit (b.toNat / 16) :: hexDigit (b.toNat % 16) :: encode bytes := rfl
      have two : hexDigits 2 b.toNat = [(b.toNat / 16).digitChar, (b.toNat % 16).digitChar] := by
        have small : b.toNat / 16 % 16 = b.toNat / 16 := Nat.mod_eq_of_lt (by
          have := b.toNat_lt
          omega)
        simp only [hexDigits, List.range_succ, List.range_zero, List.nil_append,
          List.map_cons, List.map_nil, List.cons_append]
        rw [Nat.pow_one, small, Nat.pow_zero, Nat.div_one]
      have high : b.toNat / 16 < 16 := by
        have := b.toNat_lt
        omega
      rw [List.flatMap_cons, Utf8.encode_append, ih, written, two]
      simp only [Utf8.encode, List.flatMap_cons, List.flatMap_nil, digits _ high,
        digits _ (Nat.mod_lt _ (by decide : 0 < 16)), List.append_nil, List.cons_append,
        List.nil_append]

/-- An identifier as it is written. -/
def display (id : HexId name n nonzero) : Bytes := encode id.bytes

def parse (name : String) (n : Nat) (nonzero : Bool) (s : Bytes) :
    Except String (HexId name n nonzero) :=
  match read : decode n s with
  | .error e => .error (said name e)
  | .ok bytes => ofBytes name n nonzero bytes (decode_ok.mp read).1

/-- Why a text is not an identifier, and what is said of it. -/
inductive Fault (name : String) (n : Nat) (nonzero : Bool) (s : Bytes) : String → Prop
  | width : s.length ≠ 2 * n →
      Fault name n nonzero s (said name s!"expected {2 * n} hex characters, got {s.length}")
  | digit {before : Bytes} {hi lo : UInt8} {after : Bytes} {k : Nat} :
      s.length = 2 * n → s = before ++ hi :: lo :: after →
      before.length = 2 * k → (∀ b ∈ before, HexId.digit b ≠ none) →
      HexId.digit hi = none ∨ HexId.digit lo = none →
      Fault name n nonzero s (said name s!"character {k * 2} is not hexadecimal")
  | zero {bytes} : nonzero = true → (∀ b ∈ bytes, b = 0) → bytes.length = n →
      encode bytes = s.map toAsciiLowercase → Fault name n nonzero s s!"{name} is never all zero"

theorem pairs_error {i : Nat} {s : Bytes} {e : String} (failed : pairs i s = .error e) :
    ∃ (before : Bytes) (hi lo : UInt8) (after : Bytes) (k : Nat),
      s = before ++ hi :: lo :: after ∧ before.length = 2 * k ∧
      (∀ b ∈ before, HexId.digit b ≠ none) ∧ (HexId.digit hi = none ∨ HexId.digit lo = none) ∧
      e = s!"character {(i + k) * 2} is not hexadecimal" := by
  induction s using List.twoStepInduction generalizing i with
  | nil => cases failed
  | singleton _ => cases failed
  | cons_cons hi lo rest ih _ =>
      have here (bad : HexId.digit hi = none ∨ HexId.digit lo = none)
          (said : e = s!"character {i * 2} is not hexadecimal") :
          ∃ (before : Bytes) (a b : UInt8) (after : Bytes) (k : Nat),
            hi :: lo :: rest = before ++ a :: b :: after ∧
            before.length = 2 * k ∧ (∀ b ∈ before, HexId.digit b ≠ none) ∧
            (HexId.digit a = none ∨ HexId.digit b = none) ∧
            e = s!"character {(i + k) * 2} is not hexadecimal" :=
        ⟨[], hi, lo, rest, 0, rfl, rfl, fun _ h => absurd h List.not_mem_nil, bad, said⟩
      rw [pairs] at failed
      cases hd : digit hi with
      | none =>
          rw [hd] at failed
          exact here (.inl hd) (Except.error.inj failed).symm
      | some h =>
          cases ld : digit lo with
          | none =>
              rw [hd, ld] at failed
              exact here (.inr ld) (Except.error.inj failed).symm
          | some l =>
              rw [hd, ld] at failed
              cases rests : pairs (i + 1) rest with
              | ok others =>
                  rw [rests] at failed
                  cases failed
              | error why =>
                  rw [rests] at failed
                  cases failed
                  obtain ⟨before, a, b, after, k, same, even, fine, bad, said⟩ := ih rests
                  refine ⟨hi :: lo :: before, a, b, after, k + 1, by rw [same]; rfl, ?_, ?_, bad, ?_⟩
                  · rw [List.length_cons, List.length_cons, even]
                    omega
                  · intro c hc
                    rcases List.mem_cons.mp hc with rfl | hc
                    · rw [hd]
                      exact Option.some_ne_none h
                    · rcases List.mem_cons.mp hc with rfl | hc
                      · rw [ld]
                        exact Option.some_ne_none l
                      · exact fine c hc
                  · rw [said, Nat.add_right_comm, Nat.add_assoc]

section Reading
variable {s bytes : Bytes} {id : HexId name n nonzero} {width : bytes.length = n}

theorem ofBytes_ok : ofBytes name n nonzero bytes width = .ok id ↔ id.bytes = bytes := by
  unfold ofBytes
  split
  · next refused =>
      constructor
      · intro h
        cases h
      · rintro rfl
        rw [id.live] at refused
        cases refused
  · constructor
    · intro h
      cases h
      rfl
    · rintro rfl
      rfl

theorem parse_ok : parse name n nonzero s = .ok id ↔ display id = s.map toAsciiLowercase := by
  unfold parse
  split
  · next e failed =>
      constructor
      · intro h
        cases h
      · intro written
        rw [decode_ok.mpr ⟨id.width, written⟩] at failed
        cases failed
  · next bytes read =>
      have written := (decode_ok.mp read).2
      rw [ofBytes_ok, display, ← written]
      constructor
      · intro same
        rw [same]
      · intro same
        have mine := decode_ok.mpr ⟨id.width, same.trans written⟩
        rw [read] at mine
        exact (Except.ok.inj mine).symm

/-- A text is read exactly as the identifier that is written so, its case left aside; and to any
other it is said what is wrong first. -/
theorem parse_written (name : String) (n : Nat) (nonzero : Bool) (s : Bytes) :
    (∀ id : HexId name n nonzero, parse name n nonzero s = .ok id ↔
      display id = s.map toAsciiLowercase) ∧
    (∀ e, parse name n nonzero s = .error e → Fault name n nonzero s e) := by
  refine ⟨fun _ => parse_ok, ?_⟩
  intro e failed
  unfold parse at failed
  split at failed
  · next why wrong =>
      cases failed
      rw [decode] at wrong
      split at wrong
      · next width =>
          cases wrong
          exact .width width
      · next width =>
          obtain ⟨before, hi, lo, after, k, same, even, fine, bad, why⟩ := pairs_error wrong
          rw [why, Nat.zero_add]
          exact .digit (Decidable.not_not.mp width) same even fine bad
  · next bytes read =>
      unfold ofBytes at failed
      split at failed
      · next why refused =>
          cases failed
          rw [refuseZero] at refused
          split at refused
          · next zeros =>
              cases refused
              rw [Bool.and_eq_true, List.all_eq_true] at zeros
              exact .zero zeros.1 (fun b hb => of_decide_eq_true (zeros.2 b hb))
                (decode_ok.mp read).1 (decode_ok.mp read).2
          · cases refused
      · cases failed

end Reading

/-- A W3C trace id. -/
abbrev TraceId := HexId "TraceId" 16 true

/-- One control attempt, kept by every send of the same request. -/
abbrev AttemptId := HexId "AttemptId" 16 false

abbrev IdempotencyKey := HexId "IdempotencyKey" 16 false

/-- One running instance of a deployment. -/
abbrev InstanceId := HexId "InstanceId" 16 false

abbrev Sha256Digest := HexId "Sha256Digest" 32 false

/-- A full commit, never a branch or a tag. -/
abbrev GitCommit := HexId "GitCommit" 20 false

/-- The identity of a registry principal. -/
abbrev SignerId := HexId "SignerId" 32 false

end HexId
end Metralectl
