import Mathlib.Data.BitVec

/-!
The identifiers every other part of the model carries: node fingerprints and
recipe names. Both are parsed, never asserted: a recipe name cannot be built
without the check that accepts it.
-/
namespace Metralectl

/-- The SHA-256 fingerprint of a node's public key: 32 bytes, most significant first. -/
abbrev NodeId := BitVec 256

/-- The last hex digits of a number, lower case, most significant first. -/
def hexDigits (digits n : Nat) : List Char :=
  (List.range digits).map fun i => (n / 16 ^ (digits - 1 - i) % 16).digitChar

/-- The form compared out loud during pairing: four groups of four hex digits. -/
def NodeId.short (id : NodeId) : String :=
  let hex := hexDigits 64 id.toNat
  let group (i : Nat) : String := String.ofList ((hex.drop (4 * i)).take 4)
  group 0 ++ "-" ++ group 1 ++ "-" ++ group 2 ++ "-" ++ group 3

/-- Longest recipe identifier accepted. -/
def maxLen : Nat := 64

inductive RecipeIdError where
  | length (n : Nat)
  | charset (c : Char)
  | punctuation (why : String)
deriving DecidableEq, Repr

/-- The alphabet of recipe identifiers, which is also that of recipe filenames. -/
def recipeChar (c : Char) : Bool := c.isLower || c.isDigit || c == '.' || c == '-'

def containsDotDot : List Char → Bool
  | '.' :: '.' :: _ => true
  | _ :: rest => containsDotDot rest
  | [] => false

def RecipeId.check (s : String) : Except RecipeIdError Unit :=
  if s.utf8ByteSize = 0 ∨ maxLen < s.utf8ByteSize then
    .error (.length s.utf8ByteSize)
  else
    match s.toList.find? (fun c => !recipeChar c) with
    | some c => .error (.charset c)
    | none =>
        let first := s.toList.head?.getD '-'
        if !(first.isLower || first.isDigit) then
          .error (.punctuation "must start with a letter or digit")
        else
          let last := s.toList.getLast?.getD '-'
          if last = '.' ∨ last = '-' then
            .error (.punctuation "must not end with `.` or `-`")
          else if containsDotDot s.toList then
            .error (.punctuation "must not contain `..`")
          else .ok ()

structure RecipeId where
  text : String
  accepted : RecipeId.check text = .ok ()
deriving DecidableEq

def RecipeId.parse (s : String) : Except RecipeIdError RecipeId :=
  match h : RecipeId.check s with
  | .ok () => .ok ⟨s, h⟩
  | .error e => .error e

theorem NodeId.mem_short {id : NodeId} {c : Char} (h : c ∈ id.short.toList) :
    c = '-' ∨ ∃ n, c = Nat.digitChar n := by
  have digit : ∀ i, c ∈ ((hexDigits 64 id.toNat).drop i).take 4 → ∃ n, c = Nat.digitChar n := by
    intro i h
    obtain ⟨_, _, rfl⟩ := List.mem_map.mp (List.mem_of_mem_drop (List.mem_of_mem_take h))
    exact ⟨_, rfl⟩
  have dash : c ∈ "-".toList → c = '-' := by simp
  simp only [NodeId.short, String.toList_append, String.toList_ofList, List.mem_append] at h
  grind

theorem RecipeId.ext_text {a b : RecipeId} (h : a.text = b.text) : a = b := by
  cases a
  cases b
  cases h
  rfl

@[simp] theorem RecipeId.parse_text (r : RecipeId) : RecipeId.parse r.text = .ok r := by
  unfold RecipeId.parse
  split
  · rfl
  · next e he =>
      rw [r.accepted] at he
      cases he

theorem RecipeId.text_of_parse {s : String} {r : RecipeId}
    (h : RecipeId.parse s = .ok r) : r.text = s := by
  unfold RecipeId.parse at h
  split at h
  · cases h
    rfl
  · cases h

theorem RecipeId.check_chars {s : String} (h : RecipeId.check s = .ok ()) :
    ∀ c ∈ s.toList, recipeChar c = true := by
  unfold RecipeId.check at h
  split at h
  · cases h
  · split at h
    · cases h
    · next hnone =>
        intro c hc
        simpa using List.find?_eq_none.mp hnone c hc

theorem RecipeId.text_ne (recipe : RecipeId) : recipe.text ≠ "" := by
  intro empty
  have accepted := recipe.accepted
  rw [empty] at accepted
  cases accepted

theorem RecipeId.chars (r : RecipeId) : ∀ c ∈ r.text.toList, recipeChar c = true :=
  RecipeId.check_chars r.accepted

end Metralectl
