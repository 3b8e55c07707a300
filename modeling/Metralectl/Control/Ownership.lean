import Metralectl.Control.Convergence
import Metralectl.Control.DockerLauncher
import Metralectl.Library.Traversal

/-!
Whose workloads a stop reaches, from the text docker prints. What is observed and
what is stopped are two readings of one listing; both go through the recipe of a
row, and the owner is what two labels of the same row say.
-/
namespace Metralectl
namespace Docker
open Reconcile Traversal

/-- One line of `docker ps`. Its id is whatever text stands there. -/
structure PrintedRow where
  id : String
  name : String
  recipe : Option String
  deployment : Option String
  generation : Option String
deriving DecidableEq

def parseRow (line : List Char) : Except String PrintedRow :=
  let columns := pieces '\t' line
  let column (i : Nat) : List Char := trimChars (columns.getD i [])
  let labelled (i : Nat) : Option String :=
    if (column i).isEmpty then none else some (String.ofList (column i))
  if (column 0).isEmpty || (column 1).isEmpty then
    .error ("docker ps printed a line without an id and a name: " ++ (String.ofList line).quote)
  else .ok ⟨String.ofList (column 0), String.ofList (column 1), labelled 2, labelled 3, labelled 4⟩

/-- The rows of a listing; a line without an id or a name is not understood. -/
def parsePs (stdout : String) : Except String (List PrintedRow) :=
  ((lines stdout).filter fun l => !(trimChars l).isEmpty).mapM parseRow

/-- A hex digit of either case. -/
def hexDigit (c : Char) : Option Nat :=
  if c.isDigit then some (c.toNat - '0'.toNat)
  else if 'a' ≤ c ∧ c ≤ 'f' then some (c.toNat - 'a'.toNat + 10)
  else if 'A' ≤ c ∧ c ≤ 'F' then some (c.toNat - 'A'.toNat + 10)
  else none

def parseInstanceId (digits : List Char) : Except String InstanceId :=
  match digits.findIdx? fun c => (hexDigit c).isNone with
  | some i => .error s!"InstanceId: character {i / 2 * 2} is not hexadecimal"
  | none => .ok (BitVec.ofNat 128 (digits.foldl (fun n c => 16 * n + (hexDigit c).getD 0) 0))

/-- The first bytes of a text, if a character ends where they do. -/
def firstBytes : Nat → List Char → Option (List Char)
  | 0, _ => some []
  | _ + 1, [] => none
  | n + 1, c :: cs =>
      if c.utf8Size ≤ n + 1 then (firstBytes (n + 1 - c.utf8Size) cs).map (c :: ·) else none

/-- The instance a full container id names: the first half of it. -/
def instanceOf (id : String) : Except String InstanceId :=
  match (firstBytes 32 id.toList).filter fun _ => id.utf8ByteSize = 64 with
  | some digits => parseInstanceId digits
  | none => .error s!"docker printed {id.quote}, not a full container id"

/-- A row as the predicates on recipes see it; they do not read its id. -/
def PrintedRow.row (r : PrintedRow) : PsRow := ⟨0, r.name, r.recipe, r.deployment, r.generation⟩

def printedWorkload (r : PrintedRow) (recipe : RecipeId) : Except String Workload :=
  (instanceOf r.id).map fun id => ⟨id, recipe, ownerOf r.deployment r.generation⟩

/-- Every workload a stop of its recipe would reach. -/
def printedWorkloads (rows : List PrintedRow) : Except String (List Workload) :=
  (rows.filterMap fun r => (recipeOf r.row).map (r, ·)).mapM fun (r, recipe) =>
    printedWorkload r recipe

/-- The rows a stop of `recipe` selects; it stops the containers of their ids. -/
def selected (recipe : String) (rows : List PrintedRow) : List PrintedRow :=
  rows.filter fun r => isStopTarget recipe r.row

section Rows
variable {rows : List PrintedRow} {r : PrintedRow} {recipe : RecipeId} {ws : List Workload}

end Rows

section Fixed

end Fixed

end Docker
end Metralectl
