import Metralectl.Library.Ascii
import Mathlib.Data.List.Infix
import Mathlib.Data.List.TakeWhile

/-!
The string operations of the standard library the code uses, on lists of
characters, where they can be evaluated and reasoned about.
-/
namespace Metralectl

/-- The Unicode `White_Space` property, which is what trimming removes. -/
def isWhitespace (c : Char) : Bool :=
  let n := c.toNat
  (9 ≤ n && n ≤ 13) || n == 0x20 || n == 0x85 || n == 0xA0 || n == 0x1680 ||
    (0x2000 ≤ n && n ≤ 0x200A) || n == 0x2028 || n == 0x2029 || n == 0x202F ||
    n == 0x205F || n == 0x3000

def trimChars (cs : List Char) : List Char :=
  ((cs.dropWhile isWhitespace).reverse.dropWhile isWhitespace).reverse

def trim (s : String) : String := String.ofList (trimChars s.toList)

def asciiLower (s : String) : List Char := s.toList.map Char.toLower

/-- Whether the characters of `part` stand somewhere in `cs`, in one piece. -/
def occursIn (part : String) (cs : List Char) : Bool := decide (part.toList <:+: cs)

def stripPrefix (front s : String) : Option String :=
  if front.toList <+: s.toList then some (String.ofList (s.toList.drop front.toList.length))
  else none

/-- The pieces between the separators, empty ones included. -/
def pieces (sep : Char) : List Char → List (List Char)
  | [] => [[]]
  | c :: cs =>
      if c = sep then [] :: pieces sep cs
      else
        match pieces sep cs with
        | first :: rest => (c :: first) :: rest
        | [] => [[c]]

/-- A line feed ends a line, together with a carriage return before it; what stands
after the last one is a line if there is anything. -/
def lines (text : String) : List (List Char) :=
  let parts := pieces '\n' text.toList
  let ended := parts.dropLast.map fun l => if l.getLast? = some '\r' then l.dropLast else l
  ended ++ (parts.getLast?.filter (· ≠ [])).toList

/-- Nothing that is printed in ASCII is white space. -/
theorem isWhitespace_printed {c : Char} (range : 33 ≤ c.toNat ∧ c.toNat ≤ 126) :
    isWhitespace c = false := by
  simp only [isWhitespace, Bool.or_eq_false_iff, Bool.and_eq_false_iff, decide_eq_false_iff_not,
    beq_eq_false_iff_ne]
  omega

theorem isWhitespace_alphanum {c : Char} (h : c.isAlphanum = true) : isWhitespace c = false := by
  have range := Ascii.alphanum_range h
  exact isWhitespace_printed (by omega)

theorem trimChars_self {cs : List Char} (h : ∀ c ∈ cs, isWhitespace c = false) :
    trimChars cs = cs := by
  have keep : ∀ {cs : List Char}, (∀ c ∈ cs, isWhitespace c = false) →
      cs.dropWhile isWhitespace = cs := by
    intro cs h
    cases cs with
    | nil => rfl
    | cons c cs => rw [List.dropWhile_cons_of_neg (by simp [h c List.mem_cons_self])]
  rw [trimChars, keep h, keep (fun c hc => h c (List.mem_reverse.mp hc)), List.reverse_reverse]

theorem trim_self {s : String} (h : ∀ c ∈ s.toList, isWhitespace c = false) : trim s = s := by
  rw [trim, trimChars_self h, String.ofList_toList]

section Trimming
variable {cs : List Char} {c : Char}

theorem mem_trimChars (h : c ∈ trimChars cs) : c ∈ cs := by
  have behind := (List.dropWhile_suffix isWhitespace).subset (List.mem_reverse.mp h)
  exact (List.dropWhile_suffix isWhitespace).subset (List.mem_reverse.mp behind)

/-- Only a text of blanks is trimmed to nothing. -/
theorem trimChars_ne_nil (h : c ∈ cs) (solid : isWhitespace c = false) : trimChars cs ≠ [] := by
  intro empty
  have blank := List.dropWhile_eq_nil_iff.mp (List.reverse_eq_nil_iff.mp empty)
  rw [← List.takeWhile_append_dropWhile (p := isWhitespace) (l := cs), List.mem_append] at h
  have white : isWhitespace c = true := by
    cases h with
    | inl front => exact List.mem_takeWhile_imp front
    | inr behind => exact blank c (List.mem_reverse.mpr behind)
  rw [solid] at white
  cases white

/-- A text that neither starts nor ends with a blank has nothing to trim. -/
theorem trimChars_of_ends (first : ∀ c ∈ cs.head?, isWhitespace c = false)
    (last : ∀ c ∈ cs.getLast?, isWhitespace c = false) : trimChars cs = cs := by
  have keep {ds : List Char} (front : ∀ c ∈ ds.head?, isWhitespace c = false) :
      ds.dropWhile isWhitespace = ds := by
    cases ds with
    | nil => rfl
    | cons d ds => rw [List.dropWhile_cons_of_neg (by simp [front d rfl])]
  have back : ∀ c ∈ cs.reverse.head?, isWhitespace c = false := by
    rwa [List.head?_reverse]
  rw [trimChars, keep first, keep back, List.reverse_reverse]

theorem head_dropWhile (h : c ∈ (cs.dropWhile isWhitespace).head?) : isWhitespace c = false := by
  have := List.head?_dropWhile_not isWhitespace cs
  rw [Option.mem_def.mp h] at this
  simpa using this

theorem trimChars_head (h : c ∈ (trimChars cs).head?) : isWhitespace c = false := by
  have whole : trimChars cs <+: cs.dropWhile isWhitespace := by
    rw [trimChars, ← List.reverse_suffix, List.reverse_reverse]
    exact List.dropWhile_suffix isWhitespace
  obtain ⟨rest, same⟩ := whole
  apply @head_dropWhile cs
  rw [← same, List.head?_append, Option.mem_def.mp h]
  rfl

theorem trimChars_last (h : c ∈ (trimChars cs).getLast?) : isWhitespace c = false := by
  rw [trimChars, List.getLast?_reverse] at h
  exact head_dropWhile h

/-- What is no blank stays first when blanks are trimmed. -/
theorem trimChars_front {front : List Char} (white : ∀ c ∈ front, isWhitespace c = true)
    (solid : isWhitespace c = false) : ∃ rest, trimChars (front ++ c :: cs) = c :: rest := by
  have some_ := @trimChars_ne_nil (front ++ c :: cs) c
    (List.mem_append_right front List.mem_cons_self) solid
  have dropped : (front ++ c :: cs).dropWhile isWhitespace = c :: cs := by
    rw [List.dropWhile_append_of_pos white, List.dropWhile_cons_of_neg (by simp [solid])]
  have whole : trimChars (front ++ c :: cs) <+: c :: cs := by
    rw [trimChars, dropped, ← List.reverse_suffix, List.reverse_reverse]
    exact List.dropWhile_suffix isWhitespace
  obtain ⟨d, rest, trimmed⟩ := List.exists_cons_of_ne_nil some_
  rw [trimmed, List.cons_prefix_cons] at whole
  exact ⟨rest, by rw [trimmed, whole.1]⟩

/-- Blanks around a text that neither starts nor ends with one are trimmed off. -/
theorem trimChars_pad {front back : List Char} (white : ∀ c ∈ front ++ back, isWhitespace c = true)
    (some_ : cs ≠ []) (first : ∀ c ∈ cs.head?, isWhitespace c = false)
    (last : ∀ c ∈ cs.getLast?, isWhitespace c = false) : trimChars (front ++ (cs ++ back)) = cs := by
  have keep {ds : List Char} (some_ : ds ≠ []) (front : ∀ c ∈ ds.head?, isWhitespace c = false)
      (rest : List Char) : (ds ++ rest).dropWhile isWhitespace = ds ++ rest := by
    obtain ⟨d, ds, rfl⟩ := List.exists_cons_of_ne_nil some_
    rw [List.cons_append, List.dropWhile_cons_of_neg (by simp [front d rfl])]
  obtain ⟨before, after⟩ := List.forall_mem_append.mp white
  have behind : ∀ c ∈ back.reverse, isWhitespace c = true := fun c hc =>
    after c (List.mem_reverse.mp hc)
  have turned : cs.reverse ≠ [] := fun h => some_ (List.reverse_eq_nil_iff.mp h)
  have ends : ∀ c ∈ cs.reverse.head?, isWhitespace c = false := by rwa [List.head?_reverse]
  have kept := keep turned ends []
  rw [List.append_nil] at kept
  rw [trimChars, List.dropWhile_append_of_pos before, keep some_ first, List.reverse_append,
    List.dropWhile_append_of_pos behind, kept, List.reverse_reverse]

theorem trimChars_trimChars (cs : List Char) : trimChars (trimChars cs) = trimChars cs :=
  trimChars_of_ends (fun _ h => trimChars_head h) (fun _ h => trimChars_last h)

end Trimming

section Pieces
variable {sep : Char} {a b p : List Char}

theorem pieces_ne_nil (sep : Char) (a : List Char) : pieces sep a ≠ [] := by
  cases a with
  | nil => exact List.cons_ne_nil _ _
  | cons c a =>
      unfold pieces
      split
      · exact List.cons_ne_nil _ _
      · split <;> exact List.cons_ne_nil _ _

theorem pieces_append (h : sep ∉ a) (b : List Char) :
    pieces sep (a ++ sep :: b) = a :: pieces sep b := by
  induction a with
  | nil => rw [List.nil_append, pieces, if_pos rfl]
  | cons c a ih =>
      rw [List.mem_cons, not_or] at h
      rw [List.cons_append, pieces, if_neg (Ne.symm h.1), ih h.2]

/-- The pieces on both sides of any separator. -/
theorem pieces_sep (sep : Char) (a b : List Char) :
    pieces sep (a ++ sep :: b) = pieces sep a ++ pieces sep b := by
  induction a with
  | nil =>
      have here : pieces sep (sep :: b) = [] :: pieces sep b := by rw [pieces, if_pos rfl]
      exact here
  | cons c a ih =>
      by_cases here : c = sep
      · rw [List.cons_append, pieces, if_pos here, ih, pieces, if_pos here, List.cons_append]
      · obtain ⟨first, rest, whole⟩ := List.exists_cons_of_ne_nil (pieces_ne_nil sep a)
        rw [List.cons_append, pieces, if_neg here, ih, pieces, if_neg here, whole]
        rfl

theorem pieces_prepend (h : sep ∉ a) (b : List Char) : ∃ first rest,
    pieces sep b = first :: rest ∧ pieces sep (a ++ b) = (a ++ first) :: rest := by
  induction a with
  | nil =>
      obtain ⟨first, rest, whole⟩ := List.exists_cons_of_ne_nil (pieces_ne_nil sep b)
      exact ⟨first, rest, whole, whole⟩
  | cons c a ih =>
      rw [List.mem_cons, not_or] at h
      obtain ⟨first, rest, whole, grown⟩ := ih h.2
      refine ⟨first, rest, whole, ?_⟩
      rw [List.cons_append, pieces, if_neg (Ne.symm h.1), grown]
      rfl

theorem pieces_self (h : sep ∉ a) : pieces sep a = [a] := by
  induction a with
  | nil => rfl
  | cons c a ih =>
      rw [List.mem_cons, not_or] at h
      rw [pieces, if_neg (Ne.symm h.1), ih h.2]

/-- A piece has no separator in it. -/
theorem mem_pieces (h : p ∈ pieces sep a) : sep ∉ p ∧ ∀ c ∈ p, c ∈ a := by
  induction a generalizing p with
  | nil =>
      obtain rfl := List.mem_singleton.mp h
      exact ⟨List.not_mem_nil, fun _ hc => hc⟩
  | cons c a ih =>
      by_cases here : c = sep
      · rw [pieces, if_pos here] at h
        cases List.mem_cons.mp h with
        | inl first =>
            subst first
            exact ⟨List.not_mem_nil, fun _ hc => absurd hc List.not_mem_nil⟩
        | inr later => exact ⟨(ih later).1, fun x hx => List.mem_cons_of_mem _ ((ih later).2 x hx)⟩
      · rw [pieces, if_neg here] at h
        cases split : pieces sep a with
        | nil => exact absurd split (pieces_ne_nil sep a)
        | cons first rest =>
            rw [split] at h
            have inside := ih (split ▸ List.mem_cons_self : first ∈ pieces sep a)
            cases List.mem_cons.mp h with
            | inl grown =>
                subst grown
                refine ⟨?_, List.forall_mem_cons.mpr ⟨List.mem_cons_self, ?_⟩⟩
                · rw [List.mem_cons, not_or]
                  exact ⟨Ne.symm here, inside.1⟩
                · exact fun x hx => List.mem_cons_of_mem _ (inside.2 x hx)
            | inr later =>
                have there := ih (split ▸ List.mem_cons_of_mem _ later : p ∈ pieces sep a)
                exact ⟨there.1, fun x hx => List.mem_cons_of_mem _ (there.2 x hx)⟩

/-- No line has a line feed in it. -/
theorem mem_lines {text : String} (h : p ∈ lines text) : '\n' ∉ p := by
  cases List.mem_append.mp h with
  | inl ended =>
      obtain ⟨q, hq, rfl⟩ := List.mem_map.mp ended
      have whole := (mem_pieces (List.mem_of_mem_dropLast hq)).1
      by_cases carriage : q.getLast? = some '\r'
      · rw [if_pos carriage]
        exact fun there => whole (List.mem_of_mem_dropLast there)
      · rwa [if_neg carriage]
  | inr last =>
      obtain ⟨there, _⟩ := Option.filter_eq_some_iff.mp (Option.mem_toList.mp last)
      exact (mem_pieces (List.mem_of_getLast? there)).1

/-- The first line begins with what stands first, if no part of that ends a line. -/
theorem lines_front {front rest : List Char} (some_ : front ≠ []) (feed : '\n' ∉ front)
    (carriage : '\r' ∉ front) : front <+: (lines (String.ofList (front ++ rest))).headD [] := by
  obtain ⟨first, more, _, parts⟩ := pieces_prepend feed rest
  rw [lines, String.toList_ofList, parts]
  cases more with
  | nil =>
      have kept : front ++ first ≠ [] := List.append_ne_nil_of_left_ne_nil some_ first
      simp only [List.dropLast_singleton, List.map_nil, List.nil_append, List.getLast?_singleton,
        Option.filter_some, kept, ne_eq, not_false_iff, decide_true, if_true, Option.toList_some,
        List.headD_cons]
      exact List.prefix_append front first
  | cons second more =>
      simp only [List.dropLast_cons_cons, List.map_cons, List.cons_append, List.headD_cons]
      by_cases ended : (front ++ first).getLast? = some '\r'
      · rw [if_pos ended]
        have behind : first ≠ [] := by
          rintro rfl
          rw [List.append_nil] at ended
          exact carriage (List.mem_of_getLast? ended)
        rw [List.dropLast_append_of_ne_nil behind]
        exact List.prefix_append front _
      · rw [if_neg ended]
        exact List.prefix_append front first

/-- A carriage return before the end of a line belongs to its end. -/
def chomped (l : List Char) : List Char := if l.getLast? = some '\r' then l.dropLast else l

/-- Lines that are all ended are read one by one. -/
theorem lines_chomped {ls : List (List Char)} (whole : ∀ l ∈ ls, '\n' ∉ l) :
    lines (String.ofList (ls.flatMap (· ++ ['\n']))) = ls.map chomped := by
  have parts : pieces '\n' (ls.flatMap (· ++ ['\n'])) = ls ++ [[]] := by
    induction ls with
    | nil => rfl
    | cons l ls ih =>
        rw [List.flatMap_cons, List.append_assoc, List.singleton_append,
          pieces_append (whole l List.mem_cons_self),
          ih fun m hm => whole m (List.mem_cons_of_mem _ hm), List.cons_append]
  have last : (ls ++ [[]]).getLast? = some [] := by simp
  simp only [lines, String.toList_ofList, parts, List.dropLast_concat, last]
  exact List.append_nil (ls.map chomped)

theorem lines_ended {ls : List (List Char)} (whole : ∀ l ∈ ls, '\n' ∉ l)
    (plain : ∀ l ∈ ls, l.getLast? ≠ some '\r') :
    lines (String.ofList (ls.flatMap (· ++ ['\n']))) = ls := by
  have kept : ls.map chomped = ls.map id := List.map_congr_left fun l hl => if_neg (plain l hl)
  rw [lines_chomped whole, kept, List.map_id]

end Pieces

section Numbers
variable {n k : Nat}

theorem toList_toString (n : Nat) : (toString n).toList = Nat.toDigits 10 n := by
  rw [Nat.toString_eq_repr, Nat.toList_repr]

theorem toString_isDigit : ∀ c ∈ (toString n).toList, c.isDigit = true := by
  intro c hc
  rw [toList_toString] at hc
  exact Nat.isDigit_of_mem_toDigits (by decide) (by decide) hc

theorem toString_inj (h : toString n = toString k) : n = k := by
  have digits := congrArg String.toList h
  rw [toList_toString, toList_toString] at digits
  have read := congrArg (fun ds => Nat.ofDigitChars 10 ds 0) digits
  simpa only [Nat.ofDigitChars_ten_toDigits] using read

end Numbers

end Metralectl
