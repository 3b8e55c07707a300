import Metralectl.Translate.Flags

/-!
The facts about a host a launch depends on, and how a recipe's text refers to its
environment.
-/
namespace Metralectl
namespace Translate
open SortedMaps

abbrev Env := SortedMap String String

structure PosixUser where
  uid : Nat
  gid : Nat
deriving DecidableEq

/-- Everything translation needs to know about the machine, captured once. -/
structure HostSnapshot where
  posixUser : Option PosixUser
  home : String
  hfCacheDir : String
  env : Env
deriving DecidableEq

/-- What stands for a name: its value, nothing when it is unset, and a dollar sign
when there is no name. -/
def substitute (env : Env) (name : List Char) : List Char :=
  if name.isEmpty then ['$']
  else ((env.get? (String.ofList name)).map String.toList).getD []

/-- The first character, or the first `$VAR` or `${VAR}`: what stands for it, and
what comes after it. -/
def expandFirst (std : StdText) (env : Env) : List Char → Option (List Char × List Char)
  | [] => none
  | '$' :: '{' :: rest =>
      some (substitute env (rest.takeWhile (· ≠ '}')), (rest.dropWhile (· ≠ '}')).drop 1)
  | '$' :: rest =>
      let named := fun c => std.alphanumeric c || c = '_'
      some (substitute env (rest.takeWhile named), rest.dropWhile named)
  | c :: rest => some ([c], rest)

/-- As many rounds as there are characters are enough: each takes at least one. -/
def expandChars (std : StdText) (env : Env) : Nat → List Char → List Char
  | 0, _ => []
  | left + 1, cs =>
      match expandFirst std env cs with
      | none => []
      | some (shown, rest) => shown ++ expandChars std env left rest

/-- Expand `$VAR` and `${VAR}` against the snapshot's environment. -/
def HostSnapshot.expand (std : StdText) (h : HostSnapshot) (raw : String) : String :=
  String.ofList (expandChars std h.env raw.toList.length raw.toList)

theorem expandFirst_shorter {std : StdText} {env : Env} {cs shown rest : List Char}
    (h : expandFirst std env cs = some (shown, rest)) : rest.length < cs.length := by
  have dropped (p : Char → Bool) (xs : List Char) : (xs.dropWhile p).length ≤ xs.length :=
    (List.dropWhile_sublist p).length_le
  unfold expandFirst at h
  split at h
  · cases h
  · next after =>
      cases h
      have := dropped (· ≠ '}') after
      simp only [List.length_drop, List.length_cons]
      omega
  · next after _ =>
      cases h
      exact Nat.lt_succ_of_le (dropped _ after)
  · cases h
    exact Nat.lt_succ_self _

/-- Rounds beyond one for each character change nothing. -/
theorem expandChars_enough {std : StdText} {env : Env} {left more : Nat} {cs : List Char}
    (enough : cs.length ≤ left) (enough' : cs.length ≤ more) :
    expandChars std env left cs = expandChars std env more cs := by
  induction left generalizing more cs with
  | zero =>
      obtain rfl := List.eq_nil_of_length_eq_zero (Nat.le_zero.mp enough)
      cases more <;> rfl
  | succ left ih =>
      cases first : expandFirst std env cs with
      | none =>
          cases more with
          | zero => simp only [expandChars, first]
          | succ more => simp only [expandChars, first]
      | some token =>
          obtain ⟨shown, rest⟩ := token
          have shorter := expandFirst_shorter first
          cases more with
          | zero => omega
          | succ more =>
              have later := @ih more rest (by omega) (by omega)
              simp only [expandChars, first, later]

end Translate
end Metralectl
