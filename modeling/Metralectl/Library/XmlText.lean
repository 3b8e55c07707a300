import Metralectl.Library.Shell

/-!
The text between two tags as an XML reader gives it: its line ends made one character, and each
reference replaced by the character it names. Text with a tag in it is not text.
-/
namespace XmlText
open Shell

/-- What a reference's digits come to. -/
def number (base : Nat) (digit : Char → Option Nat) (digits : Text) : Option Nat :=
  if digits = [] then none
  else digits.foldlM (fun n c => (digit c).map (base * n + ·)) 0

def decimal (c : Char) : Option Nat := if c.isDigit then some (c.toNat - 48) else none

def hexadecimal (c : Char) : Option Nat :=
  if c.isDigit then some (c.toNat - 48)
  else if 'a' ≤ c ∧ c ≤ 'f' then some (c.toNat - 87)
  else if 'A' ≤ c ∧ c ≤ 'F' then some (c.toNat - 55)
  else none

/-- The character a reference names, by its number or as one of the five entities. -/
def reference : Text → Option Char
  | '#' :: 'x' :: digits => (number 16 hexadecimal digits).map Char.ofNat
  | '#' :: digits => (number 10 decimal digits).map Char.ofNat
  | name =>
      ["amp", "lt", "gt", "quot", "apos"].findIdx? (·.toList = name) |>.bind
        fun i => ['&', '<', '>', '"', '\''][i]?

/-- The text read so far, and the reference that is being read. -/
structure Reader where
  text : Text
  inside : Option Text
deriving DecidableEq

def Reader.step (r : Reader) (c : Char) : Option Reader :=
  match r.inside with
  | none =>
      if c = '<' then none
      else if c = '&' then some { r with inside := some [] }
      else some { r with text := r.text ++ [c] }
  | some name =>
      if c = ';' then (reference name).map fun named => ⟨r.text ++ [named], none⟩
      else some { r with inside := some (name ++ [c]) }

def Reader.finish (r : Reader) : Option Text := if r.inside = none then some r.text else none

def lineEnds : Text → Text
  | '\r' :: '\n' :: rest => '\n' :: lineEnds rest
  | '\r' :: rest => '\n' :: lineEnds rest
  | c :: rest => c :: lineEnds rest
  | [] => []

def read (text : Text) : Option Text :=
  ((lineEnds text).foldlM Reader.step ⟨[], none⟩).bind Reader.finish

section Reading
variable {text s : Text} {c : Char} {write : Char → Text}

theorem lineEnds_bare (bare : '\r' ∉ text) : lineEnds text = text := by
  induction text with
  | nil => rfl
  | cons c text ih =>
      rw [List.mem_cons, not_or] at bare
      have other : c ≠ '\r' := fun same => bare.1 same.symm
      rw [lineEnds.eq_3 c text (fun _ same _ => other same) other, ih bare.2]

/-- A character as it may be written. -/
def Writes (text : Text) (c : Char) : Prop :=
  ∀ before, text.foldlM Reader.step ⟨before, none⟩ = some ⟨before ++ [c], none⟩

/-- Text that stands for its characters one by one is read as those. -/
theorem read_written (h : ∀ c ∈ s, Writes (write c) c) (bare : '\r' ∉ s.flatMap write) :
    read (s.flatMap write) = some s := by
  have from_ (before : Text) : (s.flatMap write).foldlM Reader.step ⟨before, none⟩ =
      some ⟨before ++ s, none⟩ := by
    clear bare
    induction s generalizing before with
    | nil =>
        rw [List.append_nil]
        rfl
    | cons c s ih =>
        rw [List.flatMap_cons, List.foldlM_append, h c List.mem_cons_self]
        rw [Option.bind_eq_bind, Option.bind_some, ih fun d hd => h d (List.mem_cons_of_mem _ hd),
          List.append_assoc]
        rfl
  rw [read, lineEnds_bare bare, from_]
  rfl

end Reading
end XmlText
