import Mathlib.Data.List.Basic

/-!
Texts as the bytes they are stored in, and the lines those bytes are cut into.
-/
namespace Utf8

abbrev Text := List Char
abbrev Bytes := List UInt8

def encode (text : Text) : Bytes := text.flatMap String.utf8EncodeChar

/-- The text the bytes are, if they are one. -/
def decode (bytes : Bytes) : Option Text := bytes.toByteArray.utf8Decode?.map Array.toList

section Coding
variable {a b : Bytes} {s t : Text}

theorem encode_append (s t : Text) : encode (s ++ t) = encode s ++ encode t :=
  List.flatMap_append

theorem toByteArray_encode (t : Text) : (encode t).toByteArray = t.utf8Encode := rfl

theorem toByteArray_inj (h : a.toByteArray = b.toByteArray) : a = b := by
  have lists := congrArg (fun x => x.data.toList) h
  simpa using lists

theorem decode_encode (t : Text) : decode (encode t) = some t := by
  rw [decode, toByteArray_encode, List.utf8Decode?_utf8Encode]
  rfl

theorem encode_of_decode (h : decode a = some t) : encode t = a := by
  obtain ⟨chars, there, rfl⟩ := Option.map_eq_some_iff.mp h
  have valid : a.toByteArray.utf8Decode?.isSome = true := by rw [there]; rfl
  have back := ByteArray.utf8Encode_get_utf8Decode? (h := valid)
  simp only [there, Option.get_some] at back
  exact toByteArray_inj back

/-- Bytes that come to a text, before others. -/
theorem decode_append (s : Text) (b : Bytes) : decode (encode s ++ b) = (decode b).map (s ++ ·) := by
  induction s with
  | nil => cases h : decode b <;> simp [encode, h]
  | cons c s ih =>
      have bytes : (encode (c :: s) ++ b).toByteArray =
          [c].utf8Encode ++ (encode s ++ b).toByteArray := by
        rw [← List.singleton_append, encode_append, List.append_assoc, List.toByteArray_append']
        rfl
      rw [decode, bytes, ByteArray.utf8Decode?_utf8Encode_singleton_append]
      rw [decode] at ih
      cases there : (encode s ++ b).toByteArray.utf8Decode? with
      | none =>
          rw [there] at ih
          cases rest : decode b with
          | none => rfl
          | some t => rw [rest] at ih; cases ih
      | some chars =>
          rw [there] at ih
          cases rest : decode b with
          | none => rw [rest] at ih; cases ih
          | some t =>
              rw [rest] at ih
              have tail := Option.some.inj ih
              simp only [Option.map_some] at tail ⊢
              rw [Array.toList_append, tail]
              rfl

/-- Where the bytes of a text are cut and still come to a text, they are cut between
two of its characters. -/
theorem prefix_of_decode (h : decode a = some s) (front : a <+: encode t) : s <+: t := by
  obtain ⟨b, whole⟩ := front
  rw [← encode_of_decode h] at whole
  refine List.isPrefix_of_utf8Encode_append_eq_utf8Encode b.toByteArray ?_
  rw [← toByteArray_encode, ← toByteArray_encode, ← whole, List.toByteArray_append']
  rfl

theorem encode_inj (h : encode s = encode t) : s = t := by
  have back := decode_encode s
  rw [h, decode_encode] at back
  exact (Option.some.inj back).symm

theorem encode_eq_nil : encode t = [] ↔ t = [] := by
  cases t with
  | nil => exact ⟨fun _ => rfl, fun _ => rfl⟩
  | cons c t =>
      refine ⟨fun h => ?_, fun h => by cases h⟩
      rw [← List.singleton_append, encode_append, List.append_eq_nil_iff] at h
      exact absurd (show String.utf8EncodeChar c = [] by simpa [encode] using h.1)
        String.utf8EncodeChar_ne_nil

/-- A byte below 128 stands for its own character. -/
theorem mem_encodeChar {c : Char} {byte : UInt8} (small : byte.toNat < 128)
    (h : byte ∈ String.utf8EncodeChar c) : c.toNat = byte.toNat := by
  have low {n : Nat} (hn : n < 256) (big : 128 ≤ n) : byte ≠ UInt8.ofNat n := by
    rintro rfl
    rw [UInt8.toNat_ofNat_of_lt' hn] at small
    omega
  unfold String.utf8EncodeChar at h
  simp only at h
  split at h
  · next one =>
      have fits : c.val.toNat < UInt8.size := Nat.lt_of_le_of_lt one (by decide)
      rw [List.mem_singleton.mp h, UInt8.toNat_ofNat_of_lt' fits]
      rfl
  · split at h
    · simp only [List.mem_cons, List.not_mem_nil, or_false] at h
      obtain h | h := h
      · exact absurd h (low (by omega) (by omega))
      · exact absurd h (low (by omega) (by omega))
    · split at h
      · simp only [List.mem_cons, List.not_mem_nil, or_false] at h
        obtain h | h | h := h
        · exact absurd h (low (by omega) (by omega))
        · exact absurd h (low (by omega) (by omega))
        · exact absurd h (low (by omega) (by omega))
      · simp only [List.mem_cons, List.not_mem_nil, or_false] at h
        obtain h | h | h | h := h
        · exact absurd h (low (by omega) (by omega))
        · exact absurd h (low (by omega) (by omega))
        · exact absurd h (low (by omega) (by omega))
        · exact absurd h (low (by omega) (by omega))

theorem utf8ByteSize_ofList (t : Text) : (String.ofList t).utf8ByteSize = (encode t).length := by
  rw [← String.size_toByteArray, String.toByteArray_ofList, ← toByteArray_encode]
  simp

theorem length_encode_ascii (h : ∀ c ∈ t, c.utf8Size = 1) : (encode t).length = t.length := by
  induction t with
  | nil => rfl
  | cons c t ih =>
      rw [← List.singleton_append, encode_append, List.length_append,
        ih fun d hd => h d (List.mem_cons_of_mem _ hd)]
      simp [encode, h c List.mem_cons_self, Nat.add_comm]

end Coding

section Lines

def newline : UInt8 := 10
def carriageReturn : UInt8 := 13

/-- A carriage return before the end of a line belongs to its end. -/
def chomp (line : Bytes) : Bytes :=
  if line.getLast? = some carriageReturn then line.dropLast else line

/-- The lines, without what ends them; `current` is what is read of the one at hand. -/
def readLines (current : Bytes) : Bytes → List Bytes
  | [] => if current = [] then [] else [current]
  | b :: rest =>
      if b = newline then chomp current :: readLines [] rest else readLines (current ++ [b]) rest

variable {line rest current : Bytes}

theorem readLines_last (h : newline ∉ line) :
    readLines current line = if current ++ line = [] then [] else [current ++ line] := by
  induction line generalizing current with
  | nil => rw [readLines, List.append_nil]
  | cons b line ih =>
      rw [List.mem_cons, not_or] at h
      rw [readLines, if_neg (Ne.symm h.1), ih h.2, List.append_assoc, List.singleton_append]

theorem readLines_line (h : newline ∉ line) :
    readLines current (line ++ newline :: rest) = chomp (current ++ line) :: readLines [] rest := by
  induction line generalizing current with
  | nil => rw [List.nil_append, readLines, if_pos rfl, List.append_nil]
  | cons b line ih =>
      rw [List.mem_cons, not_or] at h
      rw [List.cons_append, readLines, if_neg (Ne.symm h.1), ih h.2, List.append_assoc,
        List.singleton_append]

theorem chomp_of_not_mem (h : carriageReturn ∉ line) : chomp line = line := by
  refine if_neg fun last => h ?_
  exact List.mem_of_getLast? last

/-- Lines that hold no line's end, one after another, then what is no whole line. -/
theorem readLines_lines {lines : List Bytes} (ends : ∀ line ∈ lines, newline ∉ line)
    (returns : ∀ line ∈ lines, carriageReturn ∉ line) (h : newline ∉ rest) :
    readLines [] (lines.flatMap (· ++ [newline]) ++ rest) =
      lines ++ if rest = [] then [] else [rest] := by
  induction lines with
  | nil => rw [List.flatMap_nil, List.nil_append, readLines_last h, List.nil_append]; rfl
  | cons line lines ih =>
      have first := ends line List.mem_cons_self
      rw [List.flatMap_cons, List.append_assoc, List.append_assoc, List.singleton_append,
        readLines_line first, List.nil_append, chomp_of_not_mem (returns line List.mem_cons_self),
        ih (fun l hl => ends l (List.mem_cons_of_mem _ hl))
          (fun l hl => returns l (List.mem_cons_of_mem _ hl))]
      rfl

/-- The first line, without what ends it, and what follows; none where no line is whole. -/
def splitLine : Bytes → Option (Bytes × Bytes)
  | [] => none
  | b :: rest => if b = newline then some ([], rest) else (splitLine rest).map fun x => (b :: x.1, x.2)

/-- The whole lines, without what ends them; `current` is what is read of the one at hand. -/
def wholeLines (current : Bytes) : Bytes → List Bytes
  | [] => []
  | b :: rest =>
      if b = newline then current :: wholeLines [] rest else wholeLines (current ++ [b]) rest

theorem splitLine_eq_some {bytes : Bytes} (h : splitLine bytes = some (line, rest)) :
    bytes = line ++ newline :: rest ∧ newline ∉ line := by
  induction bytes generalizing line with
  | nil => cases h
  | cons b bytes ih =>
      rw [splitLine] at h
      split at h
      · next it =>
          cases h
          exact ⟨by rw [it]; rfl, List.not_mem_nil⟩
      · next other =>
          obtain ⟨⟨front, back⟩, split, same⟩ := Option.map_eq_some_iff.mp h
          cases same
          obtain ⟨whole, free⟩ := ih split
          refine ⟨by rw [whole]; rfl, fun mem => ?_⟩
          cases List.mem_cons.mp mem with
          | inl it => exact other it.symm
          | inr mem => exact free mem

theorem splitLine_eq_none {bytes : Bytes} : splitLine bytes = none ↔ newline ∉ bytes := by
  induction bytes with
  | nil => exact iff_of_true rfl List.not_mem_nil
  | cons b bytes ih =>
      rw [splitLine]
      split
      · next it => exact iff_of_false nofun fun free => free (it ▸ List.mem_cons_self)
      · next other =>
          rw [Option.map_eq_none_iff, ih, List.mem_cons, not_or]
          exact (and_iff_right (Ne.symm other)).symm

theorem wholeLines_line (h : newline ∉ line) :
    wholeLines current (line ++ newline :: rest) = (current ++ line) :: wholeLines [] rest := by
  induction line generalizing current with
  | nil => rw [List.nil_append, wholeLines, if_pos rfl, List.append_nil]
  | cons b line ih =>
      rw [List.mem_cons, not_or] at h
      rw [List.cons_append, wholeLines, if_neg (Ne.symm h.1), ih h.2, List.append_assoc,
        List.singleton_append]

theorem wholeLines_none (h : newline ∉ rest) : wholeLines current rest = [] := by
  induction rest generalizing current with
  | nil => rfl
  | cons b rest ih =>
      rw [List.mem_cons, not_or] at h
      rw [wholeLines, if_neg (Ne.symm h.1), ih h.2]

/-- Lines that hold no line's end, one after another, and what follows them. -/
theorem wholeLines_lines {lines : List Bytes} (ends : ∀ line ∈ lines, newline ∉ line) :
    wholeLines [] (lines.flatMap (· ++ [newline]) ++ rest) = lines ++ wholeLines [] rest := by
  induction lines with
  | nil => rfl
  | cons line lines ih =>
      rw [List.flatMap_cons, List.append_assoc, List.append_assoc, List.singleton_append,
        wholeLines_line (ends line List.mem_cons_self),
        ih fun l hl => ends l (List.mem_cons_of_mem _ hl)]
      rfl

end Lines

end Utf8
