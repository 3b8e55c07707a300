import Metralectl.Bench.Answers
import Metralectl.Core.Text

/-!
Names that came from elsewhere and are shown here. One can be had only by cleaning a text: control
characters go, what is too long is cut, blanks at the ends are trimmed.
-/
namespace Metralectl
namespace Fleet
open Bench

/-- How long a text from elsewhere may be that is shown. -/
def displayMax : Nat := 63

structure DisplayName where
  text : String
  printed : ∀ c ∈ text.toList, isControl c = false
  short : text.toList.length ≤ displayMax
  named : text.toList ≠ []
  trimmed : trimChars text.toList = text.toList

/-- What cleaning leaves of a text. -/
def cleaned (raw : List Char) : List Char :=
  trimChars ((raw.filter fun c => !isControl c).take displayMax)

section Cleaning
variable {raw : List Char} {c : Char}

theorem length_trimChars_le (cs : List Char) : (trimChars cs).length ≤ cs.length := by
  rw [trimChars, List.length_reverse]
  have behind := (List.dropWhile_suffix (l := (cs.dropWhile isWhitespace).reverse) isWhitespace).length_le
  have front := (List.dropWhile_suffix (l := cs) isWhitespace).length_le
  rw [List.length_reverse] at behind
  omega

theorem cleaned_printed (there : c ∈ cleaned raw) : isControl c = false := by
  have kept := List.mem_of_mem_take (mem_trimChars there)
  simpa using (List.mem_filter.mp kept).2

theorem cleaned_short (raw : List Char) : (cleaned raw).length ≤ displayMax :=
  (length_trimChars_le _).trans (List.length_take_le _ _)

/-- There is nothing to clean in what is clean. -/
theorem cleaned_self (printed : ∀ c ∈ raw, isControl c = false) (short : raw.length ≤ displayMax)
    (trimmed : trimChars raw = raw) : cleaned raw = raw := by
  rw [cleaned, List.filter_eq_self.mpr fun c there => by rw [printed c there]; rfl,
    List.take_of_length_le short, trimmed]

end Cleaning

namespace DisplayName

theorem unnamed_printed : ∀ c ∈ "unnamed".toList, isControl c = false := by
  have plain : "unnamed".toList.any isControl = false := by decide +kernel
  simpa using plain

theorem unnamed_short : "unnamed".toList.length ≤ displayMax := by decide +kernel

theorem unnamed_named : "unnamed".toList ≠ [] := by decide +kernel

theorem unnamed_trimmed : trimChars "unnamed".toList = "unnamed".toList := by decide +kernel

def unnamed : DisplayName where
  text := "unnamed"
  printed := unnamed_printed
  short := unnamed_short
  named := unnamed_named
  trimmed := unnamed_trimmed

/-- A text, cleaned; one of which nothing is left has no name. -/
def new (raw : String) : DisplayName :=
  if named : cleaned raw.toList ≠ [] then
    { text := String.ofList (cleaned raw.toList)
      printed := by
        rw [String.toList_ofList]
        exact fun _ => cleaned_printed
      short := by
        rw [String.toList_ofList]
        exact cleaned_short _
      named := by rwa [String.toList_ofList]
      trimmed := by
        rw [String.toList_ofList]
        exact trimChars_trimChars _ }
  else unnamed

theorem ext_text {d e : DisplayName} (same : d.text = e.text) : d = e := by
  cases d
  cases e
  cases same
  rfl

/-- A name reads as itself. -/
theorem new_text (d : DisplayName) : new d.text = d := by
  have clean : cleaned d.text.toList = d.text.toList := cleaned_self d.printed d.short d.trimmed
  have named : cleaned d.text.toList ≠ [] := by rw [clean]; exact d.named
  apply ext_text
  rw [new, dif_pos named]
  dsimp only
  rw [clean, String.ofList_toList]

end DisplayName
end Fleet
end Metralectl
