import Metralectl.Bench.Answers
import Metralectl.Library.ArgumentLine
import Metralectl.Library.XmlText

/-!
The arguments of the scheduled task that starts the agent on Windows: quoted into one command
line, which is escaped into the task's XML.
-/
namespace Metralectl
namespace Service
open Shell ArgumentLine

/-- What stands between the quotes: the run of backslashes before a quote, or at the end, is
doubled where it ends. -/
def quotedBody (backslashes : Nat) : Text → Text
  | [] => List.replicate backslashes '\\'
  | '\\' :: cs => '\\' :: quotedBody (backslashes + 1) cs
  | '"' :: cs => List.replicate (backslashes + 1) '\\' ++ '"' :: quotedBody 0 cs
  | c :: cs => c :: quotedBody 0 cs

/-- Quote one argument the way Windows parses it. -/
def windowsQuote (a : Text) : Text :=
  if a ≠ [] ∧ !a.any (fun c => c = ' ' || c = '\t' || c = '"') then a
  else '"' :: quotedBody 0 a ++ ['"']

/-- Join an argv into one Windows command line. -/
def windowsCommandLine (argv : List Text) : Text := spaced (argv.map windowsQuote)

def replaceChar (c : Char) (text s : Text) : Text := s.flatMap fun d => if d = c then text else [d]

def xmlEscape (s : Text) : Text :=
  replaceChar '>' "&gt;".toList (replaceChar '<' "&lt;".toList (replaceChar '&' "&amp;".toList s))

/-- What stands in the task's XML as the arguments of its command. -/
def taskArguments (args : List Text) : Text := xmlEscape (windowsCommandLine args)

/-- An argument a path or an option may be: no control character is in it. -/
structure Argument where
  text : Text
  printed : text.any Bench.isControl = false

section Quoting
variable {d : Dialect} {done : List Text} {a text cs : Text} {n : Nat}

/-- Between the quotes, whatever has been read of it, the rest of an argument is read whole. -/
theorem read_quotedBody : (⟨done, some text, n, .quoted⟩ : Reader).read d (quotedBody n cs ++ ['"']) =
    ⟨done, some (text ++ List.replicate n '\\' ++ cs), 0, .closed⟩ := by
  induction n, cs using quotedBody.induct generalizing text with
  | case1 n =>
      rw [quotedBody, ArgumentLine.read_append, read_backslashes, List.append_nil]
      exact @step_closing d done n text
  | case2 n cs ih =>
      have next : (⟨done, some text, n, .quoted⟩ : Reader).step d '\\' =
          ⟨done, some text, n + 1, .quoted⟩ := rfl
      rw [quotedBody, List.cons_append, ArgumentLine.read_cons, next, ih, List.replicate_succ']
      simp
  | case3 n cs ih =>
      rw [quotedBody, List.append_assoc, ArgumentLine.read_append, read_backslashes,
        List.cons_append, ArgumentLine.read_cons, step_escaped, ih]
      simp
  | case4 n c cs backslash quote ih =>
      rw [quotedBody.eq_4 n c cs (fun same => backslash same) (fun same => quote same),
        List.cons_append, ArgumentLine.read_cons, step_inside n text backslash quote, ih]
      simp

theorem reads_quoted (a : Text) : Reads d ('"' :: quotedBody 0 a ++ ['"']) a := by
  have whole (done : List Text) : (Reader.start done).read d ('"' :: quotedBody 0 a ++ ['"']) =
      ⟨done, some a, 0, .closed⟩ := by
    have opened : (Reader.start done).step d '"' = ⟨done, some [], 0, .quoted⟩ := by
      simp [Reader.start, Reader.step, Reader.stepQuote, Reader.put]
    rw [List.cons_append, ArgumentLine.read_cons, opened, read_quotedBody]
    simp
  refine ⟨fun done => ?_, fun done => ?_, fun done => ?_⟩
  · rw [whole]
  · rw [whole]
    rfl
  · rw [whole]
    exact Mode.noConfusion

/-- A quoted argument is read as that argument, wherever. -/
theorem reads_windowsQuote (a : Text) : Reads d (windowsQuote a) a := by
  unfold windowsQuote
  split
  · next bare =>
      refine reads_plain (List.all_eq_true.mpr fun c hc => ?_) bare.1
      have plain := bare.2
      simp only [Bool.not_eq_true', List.any_eq_false, Bool.or_eq_true, decide_eq_true_eq,
        not_or] at plain
      simpa [ArgumentLine.isPlain, isBlank, and_assoc] using plain c hc
  · exact reads_quoted a

theorem arguments_windowsCommandLine (args : List Text) :
    arguments d (windowsCommandLine args) = args := by
  refine arguments_spaced ?_
  induction args with
  | nil => exact .nil
  | cons a args ih => exact .cons (reads_windowsQuote a) ih

/-- Quoting brings no character but quotes and backslashes. -/
theorem mem_quotedBody {c : Char} (h : c ∈ quotedBody n cs) : c = '\\' ∨ c = '"' ∨ c ∈ cs := by
  induction n, cs using quotedBody.induct with
  | case1 n => exact .inl (List.eq_of_mem_replicate h)
  | case2 n cs ih =>
      rw [quotedBody] at h
      simp only [List.mem_cons] at h ⊢
      tauto
  | case3 n cs ih =>
      rw [quotedBody] at h
      simp only [List.mem_append, List.mem_replicate, List.mem_cons] at h ⊢
      tauto
  | case4 n c cs backslash quote ih =>
      rw [quotedBody.eq_4 n c cs (fun same => backslash same) (fun same => quote same)] at h
      simp only [List.mem_cons] at h ⊢
      tauto

theorem mem_windowsQuote {c : Char} (h : c ∈ windowsQuote a) : c = '\\' ∨ c = '"' ∨ c ∈ a := by
  unfold windowsQuote at h
  split at h
  · exact .inr (.inr h)
  · simp only [List.cons_append, List.mem_cons, List.mem_append, List.not_mem_nil, or_false] at h
    obtain rfl | inside | rfl := h
    · exact .inr (.inl rfl)
    · exact mem_quotedBody inside
    · exact .inr (.inl rfl)

theorem mem_spaced {c : Char} {texts : List Text} (h : c ∈ spaced texts) :
    c = ' ' ∨ ∃ text ∈ texts, c ∈ text := by
  induction texts with
  | nil => cases h
  | cons text texts ih =>
      by_cases more : texts = []
      · subst more
        exact .inr ⟨text, List.mem_cons_self, h⟩
      · rw [spaced_cons more, List.mem_append, List.mem_cons] at h
        obtain here | rfl | later := h
        · exact .inr ⟨text, List.mem_cons_self, here⟩
        · exact .inl rfl
        · exact (ih later).imp_right fun ⟨t, member, inside⟩ =>
            ⟨t, List.mem_cons_of_mem _ member, inside⟩

end Quoting

section Escaping
variable {s : Text} {c : Char}

/-- What one character is escaped to. -/
def escaped (c : Char) : Text :=
  if c = '&' then "&amp;".toList else if c = '<' then "&lt;".toList
  else if c = '>' then "&gt;".toList else [c]

/-- No replacement brings anything the next one replaces. -/
theorem xmlEscape_eq (s : Text) : xmlEscape s = s.flatMap escaped := by
  unfold xmlEscape replaceChar
  rw [List.flatMap_assoc, List.flatMap_assoc]
  congr 1
  funext c
  unfold escaped
  by_cases and_ : c = '&'
  · subst and_
    decide
  · by_cases less : c = '<'
    · subst less
      decide
    · rw [if_neg and_, if_neg and_, if_neg less, List.flatMap_singleton, if_neg less,
        List.flatMap_singleton]

theorem writes_escaped (c : Char) : XmlText.Writes (escaped c) c := by
  intro before
  unfold escaped
  split
  · next same =>
      subst same
      rfl
  · next and_ =>
      split
      · next same =>
          subst same
          rfl
      · next less =>
          split
          · next same =>
              subst same
              rfl
          · simp [XmlText.Reader.step, and_, less]

theorem read_xmlEscape (bare : '\r' ∉ s) : XmlText.read (xmlEscape s) = some s := by
  rw [xmlEscape_eq]
  refine XmlText.read_written (fun c _ => writes_escaped c) ?_
  rw [List.mem_flatMap]
  rintro ⟨c, member, brought⟩
  have same : c = '\r' := by
    unfold escaped at brought
    split at brought
    · exact absurd brought (by decide)
    · split at brought
      · exact absurd brought (by decide)
      · split at brought
        · exact absurd brought (by decide)
        · exact (List.mem_singleton.mp brought).symm
  exact bare (same ▸ member)

end Escaping

/-- A command line has no character that its arguments do not have, but those of its quoting. -/
theorem bare_windowsCommandLine (args : List Argument) :
    '\r' ∉ windowsCommandLine (args.map (·.text)) := by
  intro member
  obtain blank | ⟨text, quoted, inside⟩ := mem_spaced member
  · exact absurd blank (by decide)
  · obtain ⟨_, listed, rfl⟩ := List.mem_map.mp quoted
    obtain ⟨a, _, rfl⟩ := List.mem_map.mp listed
    obtain backslash | quote | own := mem_windowsQuote inside
    · exact absurd backslash (by decide)
    · exact absurd quote (by decide)
    · exact absurd (List.any_eq_false.mp a.printed _ own) (by decide)

/-- The task's arguments come back, from the command line and from the XML it is written into,
however a reader takes a quote right past a quoted part. -/
theorem windows_task_arguments (d : Dialect) (args : List Argument) :
    arguments d (windowsCommandLine (args.map (·.text))) = args.map (·.text) ∧
      (XmlText.read (taskArguments (args.map (·.text)))).map (arguments d) =
        some (args.map (·.text)) := by
  refine ⟨arguments_windowsCommandLine _, ?_⟩
  rw [taskArguments, read_xmlEscape (bare_windowsCommandLine args), Option.map_some,
    arguments_windowsCommandLine]

end Service
end Metralectl
