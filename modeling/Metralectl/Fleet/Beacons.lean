import Metralectl.Bench.Events
import Metralectl.Fleet.DisplayNames
import Metralectl.Fleet.LocalFleet

/-!
What an agent tells of itself on the network, as the properties of a record, and what is read back
from one. Anybody may write such a record.
-/
namespace Metralectl
namespace Fleet
open Bench

def txtId : String := "id"
def txtName : String := "name"
def txtCanLaunch : String := "cl"
def txtAccel : String := "gpu"

/-- The properties of a record, in the order they came in. -/
abbrev Properties := List (String × String)

namespace Beacon

def txtProperties (b : Beacon) : Properties :=
  [(txtId, nodeText b.id), (txtName, b.name), (txtCanLaunch, if b.canLaunch then "1" else "0"),
    (txtAccel, b.accelerator)]

/-- A hardware label nobody supplied stays absent. -/
def acceleratorOf (tag : Option String) : String :=
  match (tag.map trim).filter (· ≠ "") with
  | some tag => (DisplayName.new tag).text
  | none => ""

/-- The first value under a key counts. Without an id that can be read there is no beacon. -/
def fromTxt (props : Properties) (addresses : List String) (peerPort : Nat) : Option Beacon :=
  ((props.lookup txtId).bind NodeId.parse).map fun id =>
    { id := id
      name := (DisplayName.new ((props.lookup txtName).getD "unnamed")).text
      peerPort := peerPort
      addresses := addresses
      canLaunch := props.lookup txtCanLaunch = some "1"
      accelerator := acceleratorOf (props.lookup txtAccel) }

/-- Its texts are as they are after cleaning. -/
structure Clean (b : Beacon) : Prop where
  name : ∃ d : DisplayName, d.text = b.name
  accelerator : b.accelerator = "" ∨ ∃ d : DisplayName, d.text = b.accelerator

/-- A record in which all that a beacon tells is found, whatever else is. -/
def ToldIn (b : Beacon) (props : Properties) : Prop :=
  ∀ p ∈ b.txtProperties, props.lookup p.1 = some p.2

section Records
variable {b : Beacon} {props : Properties} {addresses : List String} {peerPort : Nat} {tag : String}

theorem trim_text (d : DisplayName) : trim d.text = d.text := by
  rw [trim, d.trimmed, String.ofList_toList]

theorem acceleratorOf_name (d : DisplayName) : acceleratorOf (some d.text) = d.text := by
  have named : d.text ≠ "" := fun empty => d.named (by rw [empty]; rfl)
  rw [acceleratorOf, Option.map_some, trim_text, Option.filter_some_pos (by simpa using named)]
  dsimp only
  rw [DisplayName.new_text]

theorem acceleratorOf_clean (tag : Option String) :
    acceleratorOf tag = "" ∨ ∃ d : DisplayName, d.text = acceleratorOf tag := by
  unfold acceleratorOf
  split
  · exact .inr ⟨_, rfl⟩
  · exact .inl rfl

theorem fromTxt_clean (read : fromTxt props addresses peerPort = some b) : b.Clean := by
  obtain ⟨id, _, rfl⟩ := Option.map_eq_some_iff.mp read
  exact ⟨⟨_, rfl⟩, acceleratorOf_clean _⟩

/-- Whoever finds all of a clean beacon in a record reads that beacon. -/
theorem fromTxt_told (clean : b.Clean) (told : b.ToldIn props) :
    fromTxt props b.addresses b.peerPort = some b := by
  simp only [ToldIn, txtProperties, List.forall_mem_cons] at told
  obtain ⟨id, name, launches, accel, _⟩ := told
  obtain ⟨d, named⟩ := clean.name
  have label : acceleratorOf (some b.accelerator) = b.accelerator := by
    cases clean.accelerator with
    | inl none_ => rw [none_]; decide
    | inr some_ =>
        obtain ⟨e, labelled⟩ := some_
        rw [← labelled, acceleratorOf_name]
  have launch : decide (some (if b.canLaunch then "1" else "0") = some "1") = b.canLaunch := by
    cases b.canLaunch <;> decide
  have own : (DisplayName.new b.name).text = b.name := by
    rw [← named, DisplayName.new_text]
  rw [fromTxt, id, name, launches, accel, label, launch, Option.bind_some, NodeId.parse_text,
    Option.map_some, Option.getD_some, own]

end Records

/-- A record is a beacon just when it names a node, and what is read is clean. A clean one is read
from any record it is told in, whatever the order and whatever else stands there. -/
theorem heard_as_told (props : Properties) (addresses : List String) (peerPort : Nat) :
    (fromTxt props addresses peerPort = none ↔
      ∀ text, props.lookup txtId = some text → NodeId.parse text = none) ∧
    (∀ b, fromTxt props addresses peerPort = some b →
      b.Clean ∧ (props.lookup txtId).bind NodeId.parse = some b.id) ∧
    ∀ b : Beacon, b.Clean → b.ToldIn props → fromTxt props b.addresses b.peerPort = some b := by
  refine ⟨?_, ?_, fun _ => fromTxt_told⟩
  · rw [fromTxt, Option.map_eq_none_iff, Option.bind_eq_none_iff]
  · intro b read
    refine ⟨fromTxt_clean read, ?_⟩
    obtain ⟨id, named, rfl⟩ := Option.map_eq_some_iff.mp read
    exact named

end Beacon
end Fleet
end Metralectl
