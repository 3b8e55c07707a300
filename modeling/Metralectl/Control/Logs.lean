import Metralectl.Library.Ascii
import Mathlib.Data.List.Basic
import Mathlib.Tactic.IntervalCases

/-!
A log line as it is shown: without what a terminal would act on, and no longer than
a line may be. The scanner's loops are modes of one walk over the characters.
-/
namespace Metralectl
namespace Logs

abbrev Text := List Char

/-- Longest line kept. -/
def maxLine : Nat := 2000

def esc : Char := '\x1b'
def bel : Char := '\x07'
def ellipsis : Char := '…'

/-- Control characters other than the tab, and what overrides or isolates a direction. -/
def isStripped (c : Char) : Bool :=
  let n := c.toNat
  (n < 0x20 && c ≠ '\t') || (0x7f ≤ n && n ≤ 0x9f) || (0x202a ≤ n && n ≤ 0x202e) ||
    (0x2066 ≤ n && n ≤ 0x2069)

/-- Where the scanner stands: in the text, behind an escape character, or in the loop
that consumes a sequence to its end. -/
inductive Mode where
  | text
  | escape
  | csi
  | osc
deriving DecidableEq

def scan : Mode → Text → Text → Text
  | _, out, [] => out
  | .escape, out, c :: rest =>
      if c = '[' then scan .csi out rest
      else if c = ']' then scan .osc out rest
      else scan .text out rest
  | .csi, out, c :: rest => if c.isAlpha then scan .text out rest else scan .csi out rest
  | .osc, out, c :: rest => if c = bel ∨ c = esc then scan .text out rest else scan .osc out rest
  | .text, out, c :: rest =>
      if c = esc then scan .escape out rest
      else if isStripped c then scan .text out rest
      else if maxLine ≤ (out ++ [c]).length then out ++ [c] ++ [ellipsis]
      else scan .text (out ++ [c]) rest

/-- Strip what a terminal would act on, and cap the width. -/
def sanitize (raw : Text) : Text := scan .text [] raw

section Safety

/-- Nothing a terminal would act on. -/
def Plain (t : Text) : Prop := ∀ c ∈ t, isStripped c = false

/-- A line that is shown whole, or up to the cap and an ellipsis. -/
def Shown (t : Text) : Prop :=
  (Plain t ∧ t.length < maxLine) ∨ ∃ kept, t = kept ++ [ellipsis] ∧ Plain kept ∧ kept.length = maxLine

variable {out t : Text} {c : Char}

theorem esc_stripped : isStripped esc = true := by decide

theorem ne_esc (kept : isStripped c = false) : c ≠ esc := by
  rintro rfl
  simp [esc_stripped] at kept

theorem Plain.snoc (plain : Plain out) (kept : isStripped c = false) : Plain (out ++ [c]) :=
  List.forall_mem_append.mpr ⟨plain, List.forall_mem_singleton.mpr kept⟩

theorem scan_shown (mode : Mode) (plain : Plain out) (short : out.length < maxLine) (raw : Text) :
    Shown (scan mode out raw) := by
  induction raw generalizing mode out with
  | nil => exact .inl ⟨by simpa [scan] using plain, by simpa [scan] using short⟩
  | cons c rest ih =>
      cases mode with
      | escape =>
          simp only [scan]
          by_cases csi : c = '['
          · rw [if_pos csi]
            exact ih .csi plain short
          · rw [if_neg csi]
            by_cases osc : c = ']'
            · rw [if_pos osc]
              exact ih .osc plain short
            · rw [if_neg osc]
              exact ih .text plain short
      | csi =>
          simp only [scan]
          by_cases last : c.isAlpha = true
          · rw [if_pos last]
            exact ih .text plain short
          · rw [if_neg last]
            exact ih .csi plain short
      | osc =>
          simp only [scan]
          by_cases last : c = bel ∨ c = esc
          · rw [if_pos last]
            exact ih .text plain short
          · rw [if_neg last]
            exact ih .osc plain short
      | text =>
          simp only [scan]
          by_cases escape : c = esc
          · rw [if_pos escape]
            exact ih .escape plain short
          · rw [if_neg escape]
            by_cases stripped : isStripped c = true
            · rw [if_pos stripped]
              exact ih .text plain short
            · rw [if_neg stripped]
              have kept := plain.snoc (Bool.eq_false_of_not_eq_true stripped)
              by_cases full : maxLine ≤ (out ++ [c]).length
              · rw [if_pos full]
                rw [List.length_append, List.length_singleton] at full
                exact .inr ⟨out ++ [c], rfl, kept, by
                  rw [List.length_append, List.length_singleton]; omega⟩
              · rw [if_neg full]
                exact ih .text kept (Nat.not_le.mp full)

theorem sanitize_shown (raw : Text) : Shown (sanitize raw) :=
  scan_shown .text (fun _ none => absurd none List.not_mem_nil) (by decide) raw

/-- Text that fits is copied; -/
theorem scan_plain (plain : Plain t) (short : out.length + t.length < maxLine) (rest : Text) :
    scan .text out (t ++ rest) = scan .text (out ++ t) rest := by
  induction t generalizing out with
  | nil => rw [List.append_nil, List.nil_append]
  | cons c t ih =>
      have kept : isStripped c = false := plain c List.mem_cons_self
      rw [List.length_cons] at short
      have room : ¬ maxLine ≤ (out ++ [c]).length := by
        rw [List.length_append, List.length_singleton]
        omega
      rw [List.cons_append, scan, if_neg (ne_esc kept), if_neg (by simp [kept]), if_neg room,
        ih (fun x hx => plain x (List.mem_cons_of_mem _ hx))
          (by rw [List.length_append, List.length_singleton]; omega), List.append_assoc]
      rfl

/-- text that reaches the cap is cut there. -/
theorem scan_full (plain : Plain t) (some_ : t ≠ []) (full : out.length + t.length = maxLine)
    (rest : Text) : scan .text out (t ++ rest) = out ++ t ++ [ellipsis] := by
  obtain ⟨front, last, rfl⟩ := (List.eq_nil_or_concat t).resolve_left some_
  rw [List.concat_eq_append] at plain full ⊢
  obtain ⟨before, kept⟩ := List.forall_mem_append.mp plain
  have keep : isStripped last = false := kept last (List.mem_singleton.mpr rfl)
  rw [List.length_append, List.length_singleton] at full
  rw [List.append_assoc, scan_plain before (by omega), List.singleton_append, scan,
    if_neg (ne_esc keep), if_neg (by simp [keep]), if_pos, List.append_assoc out front [last]]
  simp only [List.length_append, List.length_singleton]
  omega

theorem scan_nil (mode : Mode) (out : Text) : scan mode out [] = out := by cases mode <;> rfl

theorem sanitize_shown_self (shown : Shown t) : sanitize t = t := by
  cases shown with
  | inl whole =>
      have copied := @scan_plain [] t whole.1 (by simpa using whole.2) []
      rw [List.append_nil, List.nil_append, scan_nil] at copied
      exact copied
  | inr cut =>
      obtain ⟨kept, rfl, plain, full⟩ := cut
      have some_ : kept ≠ [] := by
        rintro rfl
        cases full
      exact @scan_full [] kept plain some_ (by simpa using full) [ellipsis]

end Safety

/-- A character of a line, or an escape sequence in it: one that introduces a control,
with its parameters and final byte, or an operating system command with what it is
ended by. -/
inductive Item where
  | char (c : Char)
  | csi (params : Text) (final : Char)
  | osc (body : Text) (byStringTerminator : Bool)
deriving DecidableEq

namespace Item

def raw : Item → Text
  | .char c => [c]
  | .csi params final => esc :: '[' :: (params ++ [final])
  | .osc body false => esc :: ']' :: (body ++ [bel])
  | .osc body true => esc :: ']' :: (body ++ [esc, '\\'])

def printed : Item → Option Char
  | .char c => some c
  | _ => none

/-- What may stand between a bracket and the final byte. -/
def parameter (c : Char) : Bool := 0x20 ≤ c.toNat && c.toNat ≤ 0x3f

/-- A printable character, or a sequence with nothing in it that could end it. -/
def WellFormed : Item → Prop
  | .char c => isStripped c = false
  | .csi params final =>
      params.all parameter = true ∧ 0x40 ≤ final.toNat ∧ final.toNat ≤ 0x7e
  | .osc body _ => bel ∉ body ∧ esc ∉ body

/-- Ended as the scanner ends it: by a letter, or by a bell. -/
def Closed : Item → Prop
  | .char _ => True
  | .csi _ final => final.isAlpha = true
  | .osc _ byStringTerminator => byStringTerminator = false

instance (i : Item) : Decidable i.WellFormed :=
  match i with
  | .char c => inferInstanceAs (Decidable (isStripped c = false))
  | .csi params final => inferInstanceAs (Decidable
      (params.all parameter = true ∧ 0x40 ≤ final.toNat ∧ final.toNat ≤ 0x7e))
  | .osc body _ => inferInstanceAs (Decidable (bel ∉ body ∧ esc ∉ body))

instance (i : Item) : Decidable i.Closed :=
  match i with
  | .char _ => isTrue trivial
  | .csi _ final => inferInstanceAs (Decidable (final.isAlpha = true))
  | .osc _ byStringTerminator => inferInstanceAs (Decidable (byStringTerminator = false))

end Item

def rawOf (items : List Item) : Text := items.flatMap Item.raw

def printed (items : List Item) : Text := items.filterMap Item.printed

section Sequences
variable {out : Text} {q : Item} {items : List Item}

theorem not_alpha {c : Char} (inside : Item.parameter c = true) : c.isAlpha = false := by
  refine Bool.eq_false_of_not_eq_true fun alpha => ?_
  have value : c.toNat ≤ 0x3f := of_decide_eq_true (Bool.and_eq_true_iff.mp inside).2
  have range := Ascii.alpha_range alpha
  omega

/-- The loop behind a bracket runs over what is no letter. -/
theorem scan_csi {params : Text} (low : ∀ p ∈ params, p.isAlpha = false) (rest : Text) :
    scan .csi out (params ++ rest) = scan .csi out rest := by
  induction params with
  | nil => rfl
  | cons p params ih =>
      rw [List.cons_append, scan, if_neg (by simp [low p List.mem_cons_self]),
        ih fun x hx => low x (List.mem_cons_of_mem _ hx)]

theorem scan_osc {body : Text} (quiet : bel ∉ body ∧ esc ∉ body) (rest : Text) :
    scan .osc out (body ++ rest) = scan .osc out rest := by
  induction body with
  | nil => rfl
  | cons c body ih =>
      rw [List.mem_cons, not_or, List.mem_cons, not_or] at quiet
      have inside : ¬ (c = bel ∨ c = esc) :=
        not_or.mpr ⟨Ne.symm quiet.1.1, Ne.symm quiet.2.1⟩
      rw [List.cons_append, scan, if_neg inside, ih ⟨quiet.1.2, quiet.2.2⟩]

/-- A sequence that ends as the scanner ends it leaves nothing, and takes nothing. -/
theorem scan_sequence (formed : q.WellFormed) (closed : q.Closed) (sequence : q.printed = none)
    (rest : Text) : scan .text out (q.raw ++ rest) = scan .text out rest := by
  cases q with
  | char c => cases sequence
  | csi params final =>
      have low : ∀ p ∈ params, p.isAlpha = false := fun p hp => not_alpha (List.all_eq_true.mp formed.1 p hp)
      have last : final.isAlpha = true := closed
      rw [Item.raw, List.cons_append, List.cons_append, List.append_assoc, scan, if_pos rfl, scan,
        if_pos rfl, scan_csi low, List.singleton_append, scan, if_pos last]
  | osc body byStringTerminator =>
      obtain rfl : byStringTerminator = false := closed
      rw [Item.raw, List.cons_append, List.cons_append, List.append_assoc, scan, if_pos rfl, scan,
        if_neg (by decide), if_pos rfl, scan_osc formed, List.singleton_append, scan,
        if_pos (.inl rfl)]

theorem scan_items (formed : ∀ i ∈ items, i.WellFormed) (closed : ∀ i ∈ items, i.Closed)
    (short : out.length + (printed items).length < maxLine) (rest : Text) :
    scan .text out (rawOf items ++ rest) = scan .text (out ++ printed items) rest := by
  induction items generalizing out with
  | nil => rw [rawOf, printed, List.flatMap_nil, List.filterMap_nil, List.nil_append, List.append_nil]
  | cons i items ih =>
      have formed' : ∀ j ∈ items, j.WellFormed := fun j hj => formed j (List.mem_cons_of_mem _ hj)
      have closed' : ∀ j ∈ items, j.Closed := fun j hj => closed j (List.mem_cons_of_mem _ hj)
      have here : rawOf (i :: items) ++ rest = i.raw ++ (rawOf items ++ rest) := by
        rw [rawOf, List.flatMap_cons, List.append_assoc]
        rfl
      cases shown : i.printed with
      | none =>
          have later : printed (i :: items) = printed items := List.filterMap_cons_none shown
          rw [later] at short ⊢
          rw [here, scan_sequence (formed i List.mem_cons_self) (closed i List.mem_cons_self) shown,
            ih formed' closed' short]
      | some c =>
          have later : printed (i :: items) = c :: printed items := List.filterMap_cons_some shown
          rw [later, List.length_cons] at short
          cases i with
          | csi | osc => cases shown
          | char d =>
              cases shown
              have plain : Plain [c] := List.forall_mem_singleton.mpr (formed _ List.mem_cons_self)
              rw [here, Item.raw, scan_plain plain (by rw [List.length_singleton]; omega),
                ih formed' closed' (by rw [List.length_append, List.length_singleton]; omega), later,
                List.append_assoc]
              rfl

/-- Below the cap the text is what is printed, and at the cap it is not. -/
theorem sanitize_items (formed : ∀ i ∈ items, i.WellFormed) (closed : ∀ i ∈ items, i.Closed)
    (most : (printed items).length ≤ maxLine) :
    sanitize (rawOf items) = printed items ↔ (printed items).length < maxLine := by
  constructor
  · intro same
    have shown := sanitize_shown (rawOf items)
    rw [same] at shown
    cases shown with
    | inl whole => exact whole.2
    | inr cut =>
        obtain ⟨kept, ends, _, full⟩ := cut
        rw [ends, List.length_append, List.length_singleton, full] at most
        omega
  · intro short
    have walked := @scan_items [] items formed closed (by simpa using short) []
    rwa [List.append_nil, List.nil_append, scan_nil] at walked

/-- A sequence does no harm wherever it stands exactly when the scanner ends it where
it ends. -/
theorem harmless_iff (formed : q.WellFormed) :
    (∀ before after, (∀ i ∈ before ++ after, i.WellFormed ∧ i.Closed) →
      (printed (before ++ q :: after)).length < maxLine →
        sanitize (rawOf (before ++ q :: after)) = printed (before ++ q :: after)) ↔ q.Closed := by
  constructor
  · intro harmless
    cases q with
    | char c => trivial
    | csi params final =>
        refine Classical.byContradiction fun open_ => ?_
        have low : ∀ p ∈ params, p.isAlpha = false := fun p hp => not_alpha (List.all_eq_true.mp formed.1 p hp)
        have still : final.isAlpha = false := Bool.eq_false_of_not_eq_true open_
        have eaten : sanitize (rawOf [.csi params final, .char '1']) = [] := by
          have flat : rawOf [.csi params final, .char '1'] =
              esc :: '[' :: (params ++ [final, '1']) := by
            simp [rawOf, Item.raw]
          rw [flat, sanitize, scan, if_pos rfl, scan, if_pos rfl, scan_csi low, scan,
            if_neg (by simp [still]), scan, if_neg (by decide), scan]
        have kept := harmless [] [.char '1']
          (fun i hi => List.mem_singleton.mp hi ▸ ⟨rfl, trivial⟩) (show 1 < maxLine by decide)
        rw [List.nil_append, eaten] at kept
        cases kept
    | osc body byStringTerminator =>
        cases byStringTerminator with
        | false => rfl
        | true =>
            have left : sanitize (rawOf [.osc body true]) = ['\\'] := by
              have flat : rawOf [.osc body true] = esc :: ']' :: (body ++ [esc, '\\']) := by
                simp [rawOf, Item.raw]
              rw [flat, sanitize, scan, if_pos rfl, scan, if_neg (by decide), if_pos rfl,
                scan_osc formed]
              rfl
            have kept := harmless [] [] (fun i hi => absurd hi List.not_mem_nil)
              (show 0 < maxLine by decide)
            rw [List.nil_append, left] at kept
            cases kept
  · intro closed before after others short
    have each {P : Item → Prop} (here : P q) (there : ∀ i ∈ before ++ after, P i) :
        ∀ i ∈ before ++ q :: after, P i := by
      rw [List.forall_mem_append] at there ⊢
      exact ⟨there.1, List.forall_mem_cons.mpr ⟨here, there.2⟩⟩
    exact (sanitize_items (each formed fun i hi => (others i hi).1)
      (each closed fun i hi => (others i hi).2) (Nat.le_of_lt short)).mpr short

end Sequences

/-- Every line is made safe, and made safe twice is the same. Of a line whose sequences
end as the scanner ends them exactly the text is left if it is shorter than the cap;
a sequence that ends otherwise does harm somewhere. -/
theorem sanitize_safe (raw : Text) :
    (Plain (sanitize raw) ∧ Shown (sanitize raw) ∧ sanitize (sanitize raw) = sanitize raw) ∧
    (∀ items : List Item, (∀ i ∈ items, i.WellFormed) → (∀ i ∈ items, i.Closed) →
      (printed items).length ≤ maxLine →
        (sanitize (rawOf items) = printed items ↔ (printed items).length < maxLine)) ∧
    ∀ q : Item, q.WellFormed →
      ((∀ before after, (∀ i ∈ before ++ after, i.WellFormed ∧ i.Closed) →
        (printed (before ++ q :: after)).length < maxLine →
          sanitize (rawOf (before ++ q :: after)) = printed (before ++ q :: after)) ↔ q.Closed) := by
  refine ⟨?_, fun items formed closed most => sanitize_items formed closed most,
    fun q formed => harmless_iff formed⟩
  have shown := sanitize_shown raw
  refine ⟨?_, shown, sanitize_shown_self shown⟩
  cases shown with
  | inl whole => exact whole.1
  | inr cut =>
      obtain ⟨kept, same, plain, _⟩ := cut
      rw [same]
      exact plain.snoc (by decide)

/-- A window title, and a word in green. -/
def titled : List Item :=
  [.osc "0;engine".toList false, .csi "32".toList 'm', .char 'u', .char 'p', .csi ['0'] 'm']

theorem sanitize_safe_titled :
    sanitize "\x1b]0;engine\x07\x1b[32mup\x1b[0m".toList = "up".toList := by
  have raw : rawOf titled = "\x1b]0;engine\x07\x1b[32mup\x1b[0m".toList := by decide +kernel
  have text : printed titled = "up".toList := by decide +kernel
  rw [← raw, ← text]
  exact ((sanitize_safe []).2.1 titled (by decide +kernel) (by decide +kernel)
    (by decide +kernel)).mpr (by decide +kernel)

/-- A terminator that is not a letter, and one of two characters. -/
theorem sanitize_safe_terminators :
    ¬ ∀ items : List Item, (∀ i ∈ items, i.WellFormed) → (printed items).length ≤ maxLine →
      sanitize (rawOf items) = printed items := by
  intro always
  have title := always [.osc "0;engine".toList true, .char 'u', .char 'p'] (by decide +kernel)
    (by decide +kernel)
  revert title
  decide +kernel

end Logs
end Metralectl
