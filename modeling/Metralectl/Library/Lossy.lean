import Mathlib.Data.List.GetD
import Metralectl.Library.Utf8

/-!
Bytes read as a text where they are one, with a mark in place of each piece that is
not.
-/
namespace Utf8

/-- The character the bytes begin with. -/
def firstChar (bytes : Bytes) : Option Char := bytes.toByteArray.utf8DecodeChar? 0

/-- Whether a character of three or four bytes can begin with these two. -/
def opens (first second : Nat) : Bool :=
  (first = 0xE0 && 0xA0 ≤ second && second ≤ 0xBF) ||
    (0xE1 ≤ first && first ≤ 0xEC && 0x80 ≤ second && second ≤ 0xBF) ||
    (first = 0xED && 0x80 ≤ second && second ≤ 0x9F) ||
    (0xEE ≤ first && first ≤ 0xEF && 0x80 ≤ second && second ≤ 0xBF) ||
    (first = 0xF0 && 0x90 ≤ second && second ≤ 0xBF) ||
    (0xF1 ≤ first && first ≤ 0xF3 && 0x80 ≤ second && second ≤ 0xBF) ||
    (first = 0xF4 && 0x80 ≤ second && second ≤ 0x8F)

def continues (byte : Nat) : Bool := 0x80 ≤ byte && byte ≤ 0xBF

/-- Past the last byte there is a zero. -/
def byteAt (bytes : Bytes) (i : Nat) : Nat := (bytes.getD i 0).toNat

/-- How many bytes the piece takes that no character begins: as many as could have begun
one. -/
def extent (bytes : Bytes) : Nat :=
  if opens (byteAt bytes 0) (byteAt bytes 1) then
    if 0xF0 ≤ byteAt bytes 0 && continues (byteAt bytes 2) then 3 else 2
  else 1

def replacement : Char := '\uFFFD'

/-- The fuel is the number of bytes; each turn takes one at least. -/
def lossyWithin : Nat → Bytes → Text
  | 0, _ | _, [] => []
  | fuel + 1, bytes =>
      match firstChar bytes with
      | some c => c :: lossyWithin fuel (bytes.drop c.utf8Size)
      | none => replacement :: lossyWithin fuel (bytes.drop (extent bytes))

def lossy (bytes : Bytes) : Text := lossyWithin bytes.length bytes

section Reading
variable {a b q : Bytes} {c d : Char} {t : Text} {fuel i : Nat}

theorem firstChar_encode (c : Char) (b : Bytes) :
    firstChar (String.utf8EncodeChar c ++ b) = some c := by
  rw [firstChar, List.toByteArray_append']
  exact ByteArray.utf8DecodeChar?_utf8EncodeChar_append

theorem prefix_of_firstChar (h : firstChar a = some c) : String.utf8EncodeChar c <+: a := by
  obtain ⟨rest, whole⟩ := ByteArray.exists_of_utf8DecodeChar?_eq_some h
  refine ⟨rest.data.toList, toByteArray_inj ?_⟩
  have same : rest.data.toList.toByteArray = rest := ByteArray.ext (by simp)
  rw [List.toByteArray_append', whole, same]
  rfl

/-- A character is read off wherever its bytes stand first. -/
theorem firstChar_iff : firstChar a = some c ↔ String.utf8EncodeChar c <+: a := by
  refine ⟨prefix_of_firstChar, ?_⟩
  rintro ⟨rest, rfl⟩
  exact firstChar_encode c rest

theorem extent_pos (a : Bytes) : 0 < extent a := by
  unfold extent
  split
  · split <;> decide
  · decide

theorem extent_le (a : Bytes) : extent a ≤ 3 := by
  unfold extent
  split
  · split <;> decide
  · decide

theorem not_opens_zero (first : Nat) : opens first 0 = false := by simp [opens]

/-- The piece is no longer than the bytes. -/
theorem extent_le_length (some_ : a ≠ []) : extent a ≤ a.length := by
  match a, some_ with
  | [x], _ => simp [extent, byteAt, not_opens_zero]
  | [x, y], _ =>
      have short : continues 0 = false := rfl
      simp only [extent, byteAt, List.getD_cons_succ, List.getD_nil, UInt8.toNat_zero, short,
        Bool.and_false]
      split <;> simp
  | _ :: _ :: _ :: _, _ => exact Nat.le_trans (extent_le _) (by simp)

theorem lossyWithin_nil (fuel : Nat) : lossyWithin fuel [] = [] := by
  cases fuel <;> rfl

theorem lossyWithin_cons (fuel : Nat) (some_ : a ≠ []) : lossyWithin (fuel + 1) a =
    match firstChar a with
    | some c => c :: lossyWithin fuel (a.drop c.utf8Size)
    | none => replacement :: lossyWithin fuel (a.drop (extent a)) := by
  cases a with
  | nil => exact absurd rfl some_
  | cons x a => rfl

/-- Fuel for every byte is as good as more of it. -/
theorem lossyWithin_enough {more : Nat} (h : a.length ≤ fuel) (h' : a.length ≤ more) :
    lossyWithin fuel a = lossyWithin more a := by
  induction fuel generalizing a more with
  | zero =>
      obtain rfl := List.eq_nil_of_length_eq_zero (Nat.le_zero.mp h)
      exact (lossyWithin_nil more).symm
  | succ fuel ih =>
      cases a with
      | nil => exact (lossyWithin_nil more).symm
      | cons x a =>
          obtain ⟨more, rfl⟩ : ∃ m, more = m + 1 := ⟨more - 1, by simp at h'; omega⟩
          have turn (n : Nat) (pos : 0 < n) : lossyWithin fuel ((x :: a).drop n) =
              lossyWithin more ((x :: a).drop n) := by
            rw [List.length_cons] at h h'
            apply ih
            · rw [List.length_drop, List.length_cons]
              omega
            · rw [List.length_drop, List.length_cons]
              omega
          rw [lossyWithin_cons _ (List.cons_ne_nil x a), lossyWithin_cons _ (List.cons_ne_nil x a)]
          cases firstChar (x :: a) with
          | some c => exact congrArg (c :: ·) (turn _ c.utf8Size_pos)
          | none => exact congrArg (replacement :: ·) (turn _ (extent_pos _))

theorem lossy_turn (some_ : a ≠ []) : lossy a =
    match firstChar a with
    | some c => c :: lossy (a.drop c.utf8Size)
    | none => replacement :: lossy (a.drop (extent a)) := by
  obtain ⟨fuel, length⟩ : ∃ n, a.length = n + 1 :=
    ⟨a.length - 1, (Nat.sub_add_cancel (List.length_pos_iff.mpr some_)).symm⟩
  have rest (n : Nat) (pos : 0 < n) : lossyWithin fuel (a.drop n) = lossy (a.drop n) := by
    apply lossyWithin_enough _ (Nat.le_refl _)
    rw [List.length_drop]
    omega
  rw [lossy, length, lossyWithin_cons _ some_]
  cases firstChar a with
  | some c => exact congrArg (c :: ·) (rest _ c.utf8Size_pos)
  | none => exact congrArg (replacement :: ·) (rest _ (extent_pos _))

@[simp] theorem lossy_nil : lossy [] = [] := rfl

theorem encodeChar_ne_nil (c : Char) : String.utf8EncodeChar c ≠ [] := String.utf8EncodeChar_ne_nil

theorem lossy_char (c : Char) (b : Bytes) :
    lossy (String.utf8EncodeChar c ++ b) = c :: lossy b := by
  rw [lossy_turn (List.append_ne_nil_of_left_ne_nil (encodeChar_ne_nil c) b), firstChar_encode]
  simp only
  rw [← String.length_utf8EncodeChar, List.drop_left]

theorem lossy_piece (some_ : a ≠ []) (none : firstChar a = none) :
    lossy a = replacement :: lossy (a.drop (extent a)) := by
  rw [lossy_turn some_, none]

/-- Where the bytes are a text's, that text is read. -/
theorem lossy_encode (t : Text) (b : Bytes) : lossy (encode t ++ b) = t ++ lossy b := by
  induction t with
  | nil => rfl
  | cons c t ih =>
      rw [← List.singleton_append, encode_append, List.append_assoc]
      have one : encode [c] = String.utf8EncodeChar c := List.append_nil _
      rw [one, lossy_char, ih, List.singleton_append, List.cons_append]

/-- What is an ASCII byte begins no longer character, and goes on none. -/
def Ascii (b : Bytes) : Prop := ∀ x ∈ b.head?, x.toNat < 128

theorem length_encodeChar_of_ascii {x : UInt8} (small : x.toNat < 128)
    (h : x ∈ String.utf8EncodeChar c) : String.utf8EncodeChar c = [x] := by
  have value := mem_encodeChar small h
  have one : (String.utf8EncodeChar c).length = 1 := by
    rw [String.length_utf8EncodeChar, Char.utf8Size_eq_one_iff]
    have : c.val.toNat = x.toNat := value
    rw [UInt32.le_iff_toNat_le]
    exact this ▸ (by simpa using Nat.le_of_lt_succ small)
  obtain ⟨y, single⟩ := List.length_eq_one_iff.mp one
  rw [single] at h ⊢
  rw [List.mem_singleton.mp h]

/-- Before an ASCII byte, or at the end, the bytes are read on their own. -/
theorem firstChar_append (some_ : a ≠ []) (ascii : Ascii b) : firstChar (a ++ b) = firstChar a := by
  cases there : firstChar (a ++ b) with
  | none =>
      cases here : firstChar a with
      | none => rfl
      | some c =>
          obtain ⟨rest, rfl⟩ := prefix_of_firstChar here
          rw [List.append_assoc, firstChar_encode] at there
          cases there
  | some c =>
      have front := prefix_of_firstChar there
      symm
      rw [firstChar_iff]
      by_cases long : (String.utf8EncodeChar c).length ≤ a.length
      · exact List.prefix_of_prefix_length_le front (List.prefix_append a b) long
      · cases b with
        | nil =>
            rw [List.append_nil] at front
            exact absurd front.length_le long
        | cons x b =>
            have before : a ++ [x] <+: a ++ x :: b := ⟨b, by simp⟩
            have inside : a ++ [x] <+: String.utf8EncodeChar c := by
              apply List.prefix_of_prefix_length_le before front
              rw [List.length_append, List.length_singleton]
              omega
            have there : x ∈ String.utf8EncodeChar c :=
              inside.subset (List.mem_append_right a List.mem_cons_self)
            rw [length_encodeChar_of_ascii (ascii x rfl) there, List.length_singleton] at long
            exact absurd (List.length_pos_iff.mpr some_) long

theorem byteAt_append (h : i < a.length) (b : Bytes) : byteAt (a ++ b) i = byteAt a i := by
  rw [byteAt, byteAt, List.getD_append _ _ _ _ h]

/-- Past the bytes comes the other's first. -/
theorem Ascii.byteAt (ascii : Ascii b) (a : Bytes) : byteAt (a ++ b) a.length < 128 := by
  rw [Utf8.byteAt, List.getD_append_right _ _ _ _ (Nat.le_refl _), Nat.sub_self]
  cases b with
  | nil => decide
  | cons x b => exact ascii x rfl

theorem opens_ascii {first second : Nat} (h : second < 128) : opens first second = false := by
  simp [opens]
  omega

theorem continues_ascii {byte : Nat} (h : byte < 128) : continues byte = false := by
  simp [continues]
  omega

theorem extent_append (some_ : a ≠ []) (ascii : Ascii b) : extent (a ++ b) = extent a := by
  match a, some_ with
  | [x], _ =>
      have past : byteAt ([x] ++ b) 1 < 128 := ascii.byteAt [x]
      have own : byteAt [x] 1 < 128 := by simp [byteAt]
      rw [extent, extent, opens_ascii past, opens_ascii own]
      rfl
  | [x, y], _ =>
      have past : byteAt ([x, y] ++ b) 2 < 128 := ascii.byteAt [x, y]
      have own : byteAt [x, y] 2 < 128 := by simp [byteAt]
      rw [extent, extent, byteAt_append (by simp), byteAt_append (by simp), continues_ascii past,
        continues_ascii own]
  | x :: y :: z :: a, _ =>
      rw [extent, extent, byteAt_append (by simp), byteAt_append (by simp), byteAt_append (by simp)]

theorem lossy_append (a : Bytes) (ascii : Ascii b) : lossy (a ++ b) = lossy a ++ lossy b := by
  induction length : a.length using Nat.strongRecOn generalizing a with
  | _ n ih =>
      cases a with
      | nil => rfl
      | cons x a =>
          have some_ : x :: a ≠ [] := List.cons_ne_nil x a
          cases first : firstChar (x :: a) with
          | some c =>
              obtain ⟨rest, whole⟩ := prefix_of_firstChar first
              have shorter : rest.length < n := by
                rw [← length, ← whole, List.length_append, String.length_utf8EncodeChar]
                have := c.utf8Size_pos
                omega
              rw [← whole, List.append_assoc, lossy_char, lossy_char, ih _ shorter rest rfl,
                List.cons_append]
          | none =>
              have no_first : firstChar (x :: a ++ b) = none := by
                rw [firstChar_append some_ ascii, first]
              have inside := extent_le_length some_
              have shorter : ((x :: a).drop (extent (x :: a))).length < n := by
                have := extent_pos (x :: a)
                rw [← length, List.length_drop]
                omega
              rw [lossy_piece some_ first,
                lossy_piece (List.append_ne_nil_of_left_ne_nil some_ b) no_first, extent_append some_ ascii, List.drop_append_of_le_length inside,
                ih _ shorter _ rfl, List.cons_append]

theorem encodeChar_ascii (small : c.toNat < 128) :
    String.utf8EncodeChar c = [UInt8.ofNat c.toNat] := by
  unfold String.utf8EncodeChar
  exact if_pos (Nat.le_of_lt_succ small)

/-- The bytes of a character that takes three or four of them. -/
theorem encodeChar_opens (long : 3 ≤ c.utf8Size) : ∃ x y z more,
    String.utf8EncodeChar c = x :: y :: z :: more ∧ opens x.toNat y.toNat = true ∧
      continues z.toNat = true ∧ more.length + 3 = c.utf8Size ∧
      (more ≠ [] → 0xF0 ≤ x.toNat) := by
  have size := String.length_utf8EncodeChar c
  have valid : c.val.toNat < 0xD800 ∨ 0xDFFF < c.val.toNat ∧ c.val.toNat < 0x110000 := c.valid
  unfold String.utf8EncodeChar at size ⊢
  simp only at size ⊢
  generalize c.val.toNat = v at size valid ⊢
  have byte {n : Nat} (small : n < 256) : (UInt8.ofNat n).toNat = n := UInt8.toNat_ofNat_of_lt' small
  have high : 0x7FF < v := by
    by_cases one : v ≤ 0x7F
    · rw [if_pos one, List.length_singleton] at size
      omega
    · by_cases two : v ≤ 0x7FF
      · rw [if_neg one, if_pos two] at size
        simp only [List.length_cons, List.length_nil] at size
        omega
      · omega
  rw [if_neg (by omega), if_neg (by omega)] at size ⊢
  by_cases three : v ≤ 0xFFFF
  · rw [if_pos three] at size ⊢
    refine ⟨_, _, _, [], rfl, ?_, ?_, size, absurd rfl⟩
    · rw [byte (by omega), byte (by omega)]
      simp [opens]
      omega
    · rw [byte (by omega)]
      simp [continues]
      omega
  · rw [if_neg three] at size ⊢
    refine ⟨_, _, _, [_], rfl, ?_, ?_, size, fun _ => ?_⟩
    · rw [byte (by omega), byte (by omega)]
      simp [opens]
      omega
    · rw [byte (by omega)]
      simp [continues]
      omega
    · rw [byte (by omega)]
      omega

theorem firstChar_cut {k : Nat} (short : k < c.utf8Size) :
    firstChar ((String.utf8EncodeChar c).take k) = none := by
  cases there : firstChar ((String.utf8EncodeChar c).take k) with
  | none => rfl
  | some d =>
      have front := prefix_of_firstChar there
      have whole : firstChar (String.utf8EncodeChar c) = some d :=
        firstChar_iff.mpr (front.trans (List.take_prefix _ _))
      have own := firstChar_encode c []
      rw [List.append_nil, whole] at own
      cases own
      have long := front.length_le
      rw [List.length_take, String.length_utf8EncodeChar] at long
      omega

theorem extent_cut {k : Nat} (some_ : 0 < k) (short : k < c.utf8Size) :
    extent ((String.utf8EncodeChar c).take k) = k := by
  by_cases long : 3 ≤ c.utf8Size
  · obtain ⟨x, y, z, more, bytes, opened, continued, size, big⟩ := encodeChar_opens long
    rw [bytes]
    match k, some_, short with
    | 1, _, _ => simp [extent, byteAt, not_opens_zero]
    | 2, _, _ => simp [extent, byteAt, opened, continues]
    | k + 3, _, short =>
        obtain ⟨w, rfl⟩ : ∃ w, more = [w] := by
          have := c.utf8Size_le_four
          exact List.length_eq_one_iff.mp (by omega)
        have only : k = 0 := by
          have := c.utf8Size_le_four
          omega
        subst only
        simp [extent, byteAt, opened, continued, big (List.cons_ne_nil w [])]
  · obtain rfl : k = 1 := by omega
    obtain ⟨x, more, bytes⟩ := List.exists_cons_of_ne_nil (encodeChar_ne_nil c)
    rw [bytes]
    simp [extent, byteAt, not_opens_zero]

/-- What is read of a character that is cut is one mark. -/
theorem lossy_cut {k : Nat} (some_ : 0 < k) (short : k < c.utf8Size) :
    lossy ((String.utf8EncodeChar c).take k) = [replacement] := by
  have length : ((String.utf8EncodeChar c).take k).length = k := by
    rw [List.length_take, String.length_utf8EncodeChar]
    omega
  have nonempty : (String.utf8EncodeChar c).take k ≠ [] := by
    rw [← List.length_pos_iff, length]
    exact some_
  rw [lossy_piece nonempty (firstChar_cut short), extent_cut some_ short,
    List.drop_of_length_le (Nat.le_of_eq length), lossy_nil]

/-- What is read is no shorter than the bytes. -/
theorem length_le_lossy (a : Bytes) : a.length ≤ (encode (lossy a)).length := by
  induction length : a.length using Nat.strongRecOn generalizing a with
  | _ n ih =>
      cases a with
      | nil => exact length ▸ Nat.zero_le _
      | cons x a =>
          have some_ : x :: a ≠ [] := List.cons_ne_nil x a
          cases first : firstChar (x :: a) with
          | some c =>
              obtain ⟨rest, whole⟩ := prefix_of_firstChar first
              have size : n = c.utf8Size + rest.length := by
                rw [← length, ← whole, List.length_append, String.length_utf8EncodeChar]
              have := ih rest.length (by have := c.utf8Size_pos; omega) rest rfl
              rw [← whole, lossy_char, ← List.singleton_append, encode_append,
                List.length_append, size]
              have one : (encode [c]).length = c.utf8Size := by simp [encode]
              omega
          | none =>
              have inside := extent_le_length some_
              have dropped : ((x :: a).drop (extent (x :: a))).length = n - extent (x :: a) := by
                rw [List.length_drop, length]
              have positive := extent_pos (x :: a)
              have small := extent_le (x :: a)
              rw [length] at inside
              have rest := ih _ (by omega) _ dropped
              rw [lossy_piece some_ first, ← List.singleton_append, encode_append,
                List.length_append]
              have three : (encode [replacement]).length = 3 := rfl
              omega

/-- An ASCII character that is read stands among the bytes. -/
theorem mem_lossy (small : c.toNat < 128) (h : c ∈ lossy a) : ∃ x ∈ a, x.toNat = c.toNat := by
  induction length : a.length using Nat.strongRecOn generalizing a with
  | _ n ih =>
      cases a with
      | nil => cases h
      | cons x a =>
          have some_ : x :: a ≠ [] := List.cons_ne_nil x a
          cases first : firstChar (x :: a) with
          | some d =>
              obtain ⟨rest, whole⟩ := prefix_of_firstChar first
              rw [← whole, lossy_char] at h
              cases List.mem_cons.mp h with
              | inl here =>
                  subst here
                  rw [encodeChar_ascii small] at whole
                  refine ⟨UInt8.ofNat c.toNat, whole ▸ List.mem_cons_self, ?_⟩
                  exact UInt8.toNat_ofNat_of_lt' (Nat.lt_trans small (by decide))
              | inr later =>
                  have shorter : rest.length < n := by
                    rw [← length, ← whole, List.length_append, String.length_utf8EncodeChar]
                    have := d.utf8Size_pos
                    omega
                  obtain ⟨y, member, eq⟩ := ih _ shorter later rfl
                  exact ⟨y, whole ▸ List.mem_append_right _ member, eq⟩
          | none =>
              rw [lossy_piece some_ first] at h
              cases List.mem_cons.mp h with
              | inl here =>
                  subst here
                  exact absurd small (by decide)
              | inr later =>
                  have shorter : ((x :: a).drop (extent (x :: a))).length < n := by
                    have := extent_pos (x :: a)
                    rw [← length, List.length_drop, List.length_cons]
                    omega
                  obtain ⟨y, member, eq⟩ := ih _ shorter later rfl
                  exact ⟨y, List.mem_of_mem_drop member, eq⟩

theorem lossy_encode_self (t : Text) : lossy (encode t) = t := by
  have read := lossy_encode t []
  rwa [List.append_nil, lossy_nil, List.append_nil] at read

/-- The first bytes of a text: some of its characters, and a part of the next one. -/
theorem take_encode (t : Text) (n : Nat) : ∃ s rest q, t = s ++ rest ∧
    (encode t).take n = encode s ++ q ∧
    (q = [] ∨ ∃ c more k, rest = c :: more ∧ 0 < k ∧ k < c.utf8Size ∧
      q = (String.utf8EncodeChar c).take k) := by
  induction t generalizing n with
  | nil => exact ⟨[], [], [], rfl, List.take_nil, .inl rfl⟩
  | cons c t ih =>
      have bytes : encode (c :: t) = String.utf8EncodeChar c ++ encode t := List.flatMap_cons
      have size := String.length_utf8EncodeChar c
      by_cases whole : c.utf8Size ≤ n
      · obtain ⟨s, rest, q, rfl, cut, part⟩ := ih (n - c.utf8Size)
        refine ⟨c :: s, rest, q, rfl, ?_, part⟩
        rw [bytes, List.take_append, List.take_of_length_le (by omega), size, cut,
          ← List.append_assoc]
        rfl
      · have within : (encode (c :: t)).take n = (String.utf8EncodeChar c).take n := by
          rw [bytes, List.take_append_of_le_length (by omega)]
        cases n with
        | zero => exact ⟨[], c :: t, [], rfl, rfl, .inl rfl⟩
        | succ n =>
            exact ⟨[], c :: t, _, rfl, within,
              .inr ⟨c, t, n + 1, rfl, Nat.succ_pos n, by omega, rfl⟩⟩

/-- A text of ASCII characters that is read stands among the bytes. -/
theorem prefix_of_lossy (ascii : ∀ c ∈ t, c.toNat < 128) (h : t <+: lossy a) :
    encode t <+: a := by
  induction t generalizing a with
  | nil => exact List.nil_prefix
  | cons c t ih =>
      obtain ⟨small, later⟩ := List.forall_mem_cons.mp ascii
      cases a with
      | nil => exact absurd h.length_le (Nat.not_succ_le_zero _)
      | cons x a =>
          have some_ : x :: a ≠ [] := List.cons_ne_nil x a
          cases first : firstChar (x :: a) with
          | none =>
              rw [lossy_piece some_ first, List.cons_prefix_cons] at h
              rw [h.1] at small
              exact absurd small (by decide)
          | some d =>
              obtain ⟨rest, whole⟩ := prefix_of_firstChar first
              rw [← whole, lossy_char, List.cons_prefix_cons] at h
              obtain ⟨rfl, front⟩ := h
              have bytes : encode (c :: t) = String.utf8EncodeChar c ++ encode t := List.flatMap_cons
              rw [← whole, bytes, List.prefix_append_right_inj]
              exact ih later front

theorem infix_of_lossy (ascii : ∀ c ∈ t, c.toNat < 128) (h : t <:+: lossy a) :
    encode t <:+: a := by
  induction length : a.length using Nat.strongRecOn generalizing a with
  | _ n ih =>
      cases a with
      | nil =>
          rw [lossy_nil, List.infix_nil] at h
          rw [h]
          exact List.nil_infix
      | cons x a =>
          have some_ : x :: a ≠ [] := List.cons_ne_nil x a
          by_cases front : t <+: lossy (x :: a)
          · exact (prefix_of_lossy ascii front).isInfix
          · cases first : firstChar (x :: a) with
            | some d =>
                obtain ⟨rest, whole⟩ := prefix_of_firstChar first
                have shorter : rest.length < n := by
                  rw [← length, ← whole, List.length_append, String.length_utf8EncodeChar]
                  have := d.utf8Size_pos
                  omega
                rw [← whole, lossy_char] at front h
                have deeper := (List.infix_cons_iff.mp h).resolve_left front
                rw [← whole]
                exact List.infix_append_of_infix_right (ih _ shorter deeper rfl)
            | none =>
                have shorter : ((x :: a).drop (extent (x :: a))).length < n := by
                  have := extent_pos (x :: a)
                  rw [← length, List.length_drop, List.length_cons]
                  omega
                rw [lossy_piece some_ first] at front h
                have deeper := (List.infix_cons_iff.mp h).resolve_left front
                exact (ih _ shorter deeper rfl).trans (List.drop_suffix _ _).isInfix

end Reading
end Utf8
