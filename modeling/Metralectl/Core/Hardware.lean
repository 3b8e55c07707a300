import Metralectl.Core.Text

/-!
What kind of machine this is, and whether that is the kind a launch needs. The
machine's side is the name its accelerator reports for itself.
-/
namespace Metralectl

/-- A DNS label: 1 to 63 of `a-z`, `0-9` and `-`, neither first nor last a `-`. -/
def isDnsLabel (s : String) : Bool :=
  1 ≤ s.utf8ByteSize && s.utf8ByteSize ≤ 63 &&
    s.toList.all (fun c => c.isLower || c.isDigit || c == '-') &&
    s.toList.head?.any (· != '-') && s.toList.getLast?.any (· != '-')

structure HardwareClass where
  text : String
  label : isDnsLabel text = true
deriving DecidableEq

namespace HardwareClass

/-- The unified-memory DGX Spark part. -/
def gb10 : HardwareClass := ⟨"gb10", by decide⟩

end HardwareClass

structure HardwareRequirement where
  hardwareClass : HardwareClass
deriving DecidableEq

namespace Hardware

/-- The class of a machine whose accelerator calls itself `accelerator`, matched
on the family; none for hardware this build has never classified. -/
def classify (accelerator : String) : Option HardwareClass :=
  let a := asciiLower accelerator
  if occursIn "gb10" a || occursIn "grace blackwell" a then some .gb10 else none

/-- Whether this machine is of the required class. It fails closed: a machine
whose class is unknown meets no requirement. -/
def check (required : HardwareClass) (accelerator : String) : Except String Unit :=
  match classify accelerator with
  | some here =>
      if here = required then .ok ()
      else .error (s!"it requires {required.text} hardware and this machine is " ++
        s!"{here.text} ({accelerator})")
  | none =>
      if (trimChars accelerator.toList).isEmpty then
        .error (s!"it requires {required.text} hardware and this machine reported " ++
          "no accelerator")
      else
        .error (s!"it requires {required.text} hardware and this machine's accelerator " ++
          s!"({accelerator}) is not a class this build recognises")

theorem check_ok {required : HardwareClass} {accelerator : String} :
    check required accelerator = .ok () ↔ classify accelerator = some required := by
  cases h : classify accelerator with
  | none =>
      simp only [check, h]
      split <;> simp
  | some here =>
      simp only [check, h]
      split
      · next same => simp [same]
      · next other => simp [other]

end Hardware
end Metralectl
