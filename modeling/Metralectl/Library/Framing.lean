import Mathlib.Algebra.Group.Nat.Defs
import Mathlib.Data.List.Basic
import Mathlib.Data.Nat.Basic

/-!
Byte strings one after another, each after its own length in a fixed number of
bytes. A length that does not fit is written as the largest that does; among
lengths that fit, the stream determines the strings.
-/
namespace Framing

abbrev Bytes := List UInt8

/-- A number in a fixed number of bytes, the most significant first. -/
def bigEndian : Nat → Nat → Bytes
  | 0, _ => []
  | width + 1, n => UInt8.ofNat (n / 256 ^ width) :: bigEndian width (n % 256 ^ width)

@[simp] theorem length_bigEndian (width n : Nat) : (bigEndian width n).length = width := by
  induction width generalizing n with
  | zero => rfl
  | succ width ih => simp [bigEndian, ih]

theorem bigEndian_inj {width a b : Nat} (ha : a < 256 ^ width) (hb : b < 256 ^ width)
    (h : bigEndian width a = bigEndian width b) : a = b := by
  induction width generalizing a b with
  | zero =>
      rw [Nat.pow_zero, Nat.lt_one_iff] at ha hb
      rw [ha, hb]
  | succ width ih =>
      have positive : 0 < 256 ^ width := Nat.pow_pos (by decide)
      have digit {n : Nat} (hn : n < 256 ^ (width + 1)) : n / 256 ^ width < 256 :=
        Nat.div_lt_of_lt_mul (by rwa [← Nat.pow_succ])
      simp only [bigEndian, List.cons.injEq] at h
      have low := ih (Nat.mod_lt _ positive) (Nat.mod_lt _ positive) h.2
      have high : a / 256 ^ width = b / 256 ^ width := by
        have bytes := congrArg UInt8.toNat h.1
        rwa [UInt8.toNat_ofNat_of_lt' (digit ha), UInt8.toNat_ofNat_of_lt' (digit hb)] at bytes
      rw [← Nat.div_add_mod a (256 ^ width), ← Nat.div_add_mod b (256 ^ width), high, low]

/-- Each byte for itself. -/
theorem bigEndian_eq_map (width n : Nat) :
    bigEndian width n = (List.range width).map fun i => UInt8.ofNat (n / 256 ^ (width - 1 - i)) := by
  induction width generalizing n with
  | zero => rfl
  | succ width ih =>
      rw [bigEndian, ih, List.range_succ_eq_map, List.map_cons, List.map_map]
      congr 1
      apply List.map_congr_left
      intro i hi
      have room := List.mem_range.mp hi
      have places : width + 1 - 1 - (i + 1) = width - 1 - i := by omega
      have split : 256 ^ width = 256 ^ (width - 1 - i) * 256 ^ (i + 1) := by
        rw [← Nat.pow_add]
        congr 1
        omega
      have byte : n % 256 ^ width / 256 ^ (width - 1 - i) % 256 = n / 256 ^ (width - 1 - i) % 256 := by
        rw [split, Nat.mod_mul_right_div_self, Nat.pow_succ]
        exact Nat.mod_mod_of_dvd _ (Nat.dvd_mul_left _ _)
      rw [Function.comp_apply, Nat.succ_eq_add_one, places]
      exact UInt8.toNat_inj.mp (by simpa using byte)

/-- The number such bytes stand for. -/
def ofBigEndian (bytes : Bytes) : Nat := bytes.foldl (fun n b => n * 256 + b.toNat) 0

theorem ofBigEndian_foldl (bytes : Bytes) (n : Nat) :
    bytes.foldl (fun n b => n * 256 + b.toNat) n = n * 256 ^ bytes.length + ofBigEndian bytes := by
  induction bytes generalizing n with
  | nil => simp [ofBigEndian]
  | cons b bytes ih =>
      have here : ofBigEndian (b :: bytes) = b.toNat * 256 ^ bytes.length + ofBigEndian bytes := by
        rw [ofBigEndian, List.foldl_cons, ih, Nat.zero_mul, Nat.zero_add]
      rw [List.foldl_cons, ih, here, List.length_cons, Nat.pow_succ', Nat.add_mul, Nat.mul_assoc,
        Nat.add_assoc]

theorem ofBigEndian_bigEndian {width n : Nat} (fits : n < 256 ^ width) :
    ofBigEndian (bigEndian width n) = n := by
  induction width generalizing n with
  | zero => simpa [bigEndian, ofBigEndian] using (Nat.lt_one_iff.mp (by simpa using fits)).symm
  | succ width ih =>
      have positive : 0 < 256 ^ width := Nat.pow_pos (by decide)
      have digit : n / 256 ^ width < 256 := Nat.div_lt_of_lt_mul (by rwa [← Nat.pow_succ])
      rw [bigEndian, ofBigEndian, List.foldl_cons, ofBigEndian_foldl, length_bigEndian,
        ih (Nat.mod_lt _ positive), UInt8.toNat_ofNat_of_lt' digit, Nat.zero_mul, Nat.zero_add,
        Nat.mul_comm, Nat.div_add_mod]

theorem ofBigEndian_cons (b : UInt8) (bytes : Bytes) :
    ofBigEndian (b :: bytes) = b.toNat * 256 ^ bytes.length + ofBigEndian bytes := by
  rw [ofBigEndian, List.foldl_cons, ofBigEndian_foldl, Nat.zero_mul, Nat.zero_add]

theorem ofBigEndian_lt (bytes : Bytes) : ofBigEndian bytes < 256 ^ bytes.length := by
  induction bytes with
  | nil => simp [ofBigEndian]
  | cons b bytes ih =>
      have room : (b.toNat + 1) * 256 ^ bytes.length ≤ 256 * 256 ^ bytes.length :=
        Nat.mul_le_mul_right _ b.toNat_lt
      rw [Nat.add_mul, Nat.one_mul] at room
      rw [ofBigEndian_cons, List.length_cons, Nat.pow_succ']
      omega

theorem bigEndian_ofBigEndian (bytes : Bytes) :
    bigEndian bytes.length (ofBigEndian bytes) = bytes := by
  induction bytes with
  | nil => rfl
  | cons b bytes ih =>
      have positive : 0 < 256 ^ bytes.length := Nat.pow_pos (by decide)
      have low := ofBigEndian_lt bytes
      rw [List.length_cons, bigEndian, ofBigEndian_cons, Nat.mul_comm, Nat.mul_add_div positive,
        Nat.div_eq_of_lt low, Nat.add_zero, Nat.mul_add_mod, Nat.mod_eq_of_lt low, ih,
        UInt8.ofNat_toNat]

def frame (width : Nat) (payload : Bytes) : Bytes :=
  bigEndian width (min payload.length (256 ^ width - 1)) ++ payload

def frames (width : Nat) (payloads : List Bytes) : Bytes := payloads.flatMap (frame width)

/-- A key and its value one after the other. -/
def pairs (width : Nat) (entries : List (Bytes × Bytes)) : Bytes :=
  frames width (entries.flatMap fun e => [e.1, e.2])

/-- What fits: its length is written as it is. -/
def Fits (width : Nat) (payload : Bytes) : Prop := payload.length < 256 ^ width

instance (width : Nat) (payload : Bytes) : Decidable (Fits width payload) :=
  inferInstanceAs (Decidable (_ < _))

section Laws
variable {width : Nat} {a b x y : Bytes}

theorem frame_append_inj (ha : Fits width a) (hb : Fits width b)
    (h : frame width a ++ x = frame width b ++ y) : a = b ∧ x = y := by
  unfold Fits at ha hb
  simp only [frame, Nat.min_eq_left (Nat.le_sub_one_of_lt ha),
    Nat.min_eq_left (Nat.le_sub_one_of_lt hb), List.append_assoc] at h
  have split := List.append_inj h (by simp)
  exact List.append_inj split.2 (bigEndian_inj ha hb split.1)

theorem frame_ne_nil (wide : width ≠ 0) : frame width a ≠ [] := by
  intro empty
  have none := congrArg List.length empty
  simp only [frame, List.length_append, length_bigEndian, List.length_nil] at none
  omega

/-- Strings that fit are read off their stream. -/
theorem frames_inj (wide : width ≠ 0) {xs ys : List Bytes} (hx : ∀ p ∈ xs, Fits width p)
    (hy : ∀ p ∈ ys, Fits width p) (h : frames width xs = frames width ys) : xs = ys := by
  induction xs generalizing ys with
  | nil =>
      cases ys with
      | nil => rfl
      | cons p ys =>
          have empty := (List.append_eq_nil_iff.mp h.symm).1
          exact absurd empty (frame_ne_nil wide)
  | cons p xs ih =>
      cases ys with
      | nil => exact absurd (List.append_eq_nil_iff.mp h).1 (frame_ne_nil wide)
      | cons q ys =>
          obtain ⟨first, rest⟩ :=
            frame_append_inj (hx p List.mem_cons_self) (hy q List.mem_cons_self) h
          rw [first, ih (fun r hr => hx r (List.mem_cons_of_mem _ hr))
            (fun r hr => hy r (List.mem_cons_of_mem _ hr)) rest]

theorem pairs_inj (wide : width ≠ 0) {xs ys : List (Bytes × Bytes)}
    (hx : ∀ e ∈ xs, Fits width e.1 ∧ Fits width e.2)
    (hy : ∀ e ∈ ys, Fits width e.1 ∧ Fits width e.2) (h : pairs width xs = pairs width ys) :
    xs = ys := by
  have each {zs : List (Bytes × Bytes)} (hz : ∀ e ∈ zs, Fits width e.1 ∧ Fits width e.2) :
      ∀ p ∈ zs.flatMap fun e => [e.1, e.2], Fits width p := by
    intro p hp
    obtain ⟨e, he, part⟩ := List.mem_flatMap.mp hp
    cases List.mem_pair.mp part with
    | inl key => exact key ▸ (hz e he).1
    | inr value => exact value ▸ (hz e he).2
  have flat := frames_inj wide (each hx) (each hy) h
  clear h hx hy each
  induction xs generalizing ys with
  | nil =>
      cases ys with
      | nil => rfl
      | cons e ys => cases flat
  | cons e xs ih =>
      cases ys with
      | nil => cases flat
      | cons f ys =>
          simp only [List.flatMap_cons, List.cons_append, List.nil_append, List.cons.injEq] at flat
          rw [Prod.ext flat.1 flat.2.1, ih flat.2.2]

end Laws

/-- A marker that no first part holds tells where the first part ends. -/
theorem marked_inj {α : Type*} {marker : α} {xs ys us vs : List α} (hx : marker ∉ xs)
    (hy : marker ∉ ys) (h : xs ++ marker :: us = ys ++ marker :: vs) : xs = ys ∧ us = vs := by
  induction xs generalizing ys with
  | nil =>
      cases ys with
      | nil => exact ⟨rfl, (List.cons.inj h).2⟩
      | cons y ys =>
          have first : marker = y := (List.cons.inj h).1
          exact absurd (first ▸ List.mem_cons_self) hy
  | cons x xs ih =>
      cases ys with
      | nil =>
          have first : x = marker := (List.cons.inj h).1
          exact absurd (first ▸ List.mem_cons_self) hx
      | cons y ys =>
          obtain ⟨first, rest⟩ := List.cons.inj h
          obtain ⟨same, after⟩ := ih (fun m => hx (List.mem_cons_of_mem _ m))
            (fun m => hy (List.mem_cons_of_mem _ m)) rest
          exact ⟨by rw [first, same], after⟩

end Framing
