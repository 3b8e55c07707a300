import Metralectl.Library.Framing

/-!
A stream as its reader meets it: its bytes arrive in pieces, a read takes what the
piece in front holds and the reader has room for, and after the last piece the
stream is at its end.
-/
namespace Arrivals
open Framing (Bytes)

/-- What one read finds waiting: never nothing. -/
structure Piece where
  first : UInt8
  more : Bytes
deriving DecidableEq

def Piece.bytes (p : Piece) : Bytes := p.first :: p.more

abbrev Source := List Piece

/-- All that a source still holds. -/
def bytes (source : Source) : Bytes := source.flatMap Piece.bytes

@[simp] theorem bytes_nil : bytes [] = [] := rfl
@[simp] theorem bytes_cons (p : Piece) (rest : Source) : bytes (p :: rest) = p.bytes ++ bytes rest :=
  rfl

/-- Read again until exactly so many bytes are there; at the end of the stream
what was read is lost. -/
def readExact : Nat → Source → Option Bytes × Source
  | 0, source => (some [], source)
  | _ + 1, [] => (none, [])
  | want + 1, p :: rest =>
      match p.bytes.drop (want + 1) with
      | [] =>
          let (more, left) := readExact (want + 1 - p.bytes.length) rest
          (more.map (p.bytes ++ ·), left)
      | b :: bs => (some (p.bytes.take (want + 1)), ⟨b, bs⟩ :: rest)

/-- However the bytes are cut, the reader gets the first of them and leaves the others. -/
theorem readExact_of_le {want : Nat} {source : Source} (enough : want ≤ (bytes source).length) :
    ∃ left, readExact want source = (some ((bytes source).take want), left) ∧
      bytes left = (bytes source).drop want := by
  induction source generalizing want with
  | nil =>
      cases want with
      | zero => exact ⟨[], rfl, rfl⟩
      | succ want => cases enough
  | cons p rest ih =>
      cases want with
      | zero => exact ⟨p :: rest, rfl, rfl⟩
      | succ want =>
          cases past : p.bytes.drop (want + 1) with
          | nil =>
              have short : p.bytes.length ≤ want + 1 := List.drop_eq_nil_iff.mp past
              have later : want + 1 - p.bytes.length ≤ (bytes rest).length := by
                rw [bytes_cons, List.length_append] at enough
                omega
              obtain ⟨left, got, after⟩ := ih later
              refine ⟨left, ?_, ?_⟩
              · simp [readExact, past, got, List.take_append, List.take_of_length_le short]
              · rw [after, bytes_cons, List.drop_append, past, List.nil_append]
          | cons b bs =>
              have long : want + 1 ≤ p.bytes.length := by
                have some_left : p.bytes.drop (want + 1) ≠ [] := by simp [past]
                exact Nat.le_of_lt (List.length_lt_of_drop_ne_nil some_left)
              refine ⟨⟨b, bs⟩ :: rest, ?_, ?_⟩
              · simp [readExact, past, List.take_append_of_le_length long]
              · rw [bytes_cons, bytes_cons, List.drop_append_of_le_length long, past]
                rfl

/-- Too few bytes are none. -/
theorem readExact_of_lt {want : Nat} {source : Source} (short : (bytes source).length < want) :
    readExact want source = (none, []) := by
  induction source generalizing want with
  | nil =>
      cases want with
      | zero => cases short
      | succ want => rfl
  | cons p rest ih =>
      rw [bytes_cons, List.length_append] at short
      cases want with
      | zero => cases short
      | succ want =>
          have past : p.bytes.drop (want + 1) = [] := List.drop_eq_nil_iff.mpr (by omega)
          have later := @ih (want + 1 - p.bytes.length) (by omega)
          simp [readExact, past, later]

end Arrivals
