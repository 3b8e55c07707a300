import Mathlib.Data.List.TakeWhile
import Metralectl.Library.Shell
import Metralectl.Translate.Command

/-!
The command as it is shown to be pasted: the user's ids and the home directory stay
substitutions, everything else is quoted.
-/
namespace Metralectl
namespace Translate
open SortedMaps Rendering Docker Shell

/-- Characters that are safe unquoted in every POSIX shell. -/
def isSafe (c : Char) : Bool :=
  c.isAlphanum || c = '_' || c = '-' || c = '.' || c = '/' || c = ':' || c = '=' || c = ',' ||
    c = '@' || c = '+'

/-- A character inside single quotes; a single quote is closed, escaped and reopened. -/
def escapeQuote (c : Char) : Text := if c = '\'' then ['\'', '"', '\'', '"', '\''] else [c]

/-- Quote one argument the way `shlex.quote` does. -/
def shellQuote (arg : Text) : Text :=
  if arg = [] then ['\'', '\'']
  else if arg.all isSafe then arg
  else '\'' :: (arg.flatMap escapeQuote ++ ['\''])

/-- Join an argv into a pasteable command line. -/
def shellJoin (args : List Text) : Text := spaced (args.map shellQuote)

/-- An argument, and whether it is text this renderer produced itself. -/
structure Arg where
  text : String
  symbolic : Bool
deriving DecidableEq

def Arg.plain (text : String) : Arg := ⟨text, false⟩

def Arg.shown (a : Arg) : Text := if a.symbolic then a.text.toList else shellQuote a.text.toList

inductive UserRender where
  | resolved
  | portable
deriving DecidableEq

def userArg (u : PosixUser) : UserRender → Arg
  | .resolved => .plain s!"{u.uid}:{u.gid}"
  | .portable => ⟨"$(id -u):$(id -g)", true⟩

def userArgs (user : Option PosixUser) (mode : UserRender) : List Arg :=
  match user with
  | some u => [.plain "--user", userArg u mode] ++
      ["-v", "/etc/passwd:/etc/passwd:ro", "-v", "/etc/group:/etc/group:ro"].map .plain
  | none => []

/-- What is left of a volume's source after the home directory, if it starts there. -/
def underHome (home : Option String) (host : String) : Option String :=
  match home with
  | some h => if h ≠ "" then stripPrefix h host else none
  | none => none

def volumeArg (home : Option String) (placeholder : String) (mode : UserRender)
    (volume : String × String) : Arg :=
  match mode, underHome home volume.1 with
  | .portable, some rest => ⟨placeholder ++ rest ++ ":" ++ volume.2, true⟩
  | _, _ => .plain s!"{volume.1}:{volume.2}"

namespace DockerRun

/-- What comes before the user: how the container is started, and what it reaches. -/
def openingArgs (d : DockerRun) : List String :=
  ["docker", "run"] ++ (if d.detach then ["-d"] else []) ++
    option "--entrypoint" d.entrypoint.toList ++
    (if d.privileged then ["--privileged"] else []) ++ d.deviceFlags ++
    [s!"--ipc={d.ipc}", s!"--shm-size={d.shmSize}", s!"--network={d.network}"]

/-- What comes between the user and the volumes. -/
def middleArgs (d : DockerRun) : List String :=
  option "--security-opt" d.securityOpts ++ d.capAdd.map (fun c => s!"--cap-add={c}") ++
    option "--ulimit" d.ulimits ++ option "--device" d.devices ++
    d.memory.toList.map (fun m => s!"--memory={m}") ++
    option "--label" (d.labels.map fun l => s!"{l.1}={l.2}") ++
    (if d.autoRemove then ["--rm"] else []) ++ option "--restart" d.restart.toList ++
    ["--name", d.name] ++ option "-e" d.envArgs

def render (d : DockerRun) (mode : UserRender) (home : Option String) (placeholder : String) :
    List Arg :=
  d.openingArgs.map .plain ++ userArgs d.user mode ++ d.middleArgs.map .plain ++
    (d.volumes.entries.flatMap fun v => [.plain "-v", volumeArg home placeholder mode v]) ++
    ([d.image] ++ d.command).map .plain

/-- Executed, a command has no symbolic argument. -/
theorem toArgv_eq (d : DockerRun) :
    d.toArgv = (d.render .resolved none "").map Arg.text := by
  have plain (texts : List String) : (texts.map Arg.plain).map Arg.text = texts := by
    rw [List.map_map]
    exact List.map_id texts
  have volumes (entries : List (String × String)) :
      (entries.flatMap fun v => [Arg.plain "-v", volumeArg none "" .resolved v]).map Arg.text =
        option "-v" (entries.map fun v => s!"{v.1}:{v.2}") := by
    rw [List.map_flatMap, option, List.flatMap_map]
    rfl
  have named (u : PosixUser) : (userArgs (some u) .resolved).map Arg.text =
      ["--user", s!"{u.uid}:{u.gid}", "-v", "/etc/passwd:/etc/passwd:ro", "-v",
        "/etc/group:/etc/group:ro"] := rfl
  have nobody : (userArgs none .resolved).map Arg.text = [] := rfl
  delta render openingArgs middleArgs toArgv
  cases d.user with
  | none => simp only [List.map_append, plain, volumes, nobody, List.append_assoc]
  | some u => simp only [List.map_append, plain, volumes, named, List.append_assoc]

/-- The shell-quoted line. -/
def display (d : DockerRun) : Text := shellJoin (d.toArgv.map String.toList)

/-- A line to paste, its substitutions unquoted. -/
def displayPortable (d : DockerRun) (home : Option String) (placeholder : String) : Text :=
  spaced ((d.render .portable home placeholder).map Arg.shown)

end DockerRun

section Words
variable {m : Shell.Machine} {done : List (List Piece)} {pieces : List Piece} {text : Text}

theorem safe_plain {c : Char} (h : isSafe c = true) :
    isPlain c = true ∧ Shell.isPattern c = false ∧ c ≠ '#' ∧ c ≠ '~' := by
  have other {d : Char} (hd : isSafe d = false) : c ≠ d := by
    rintro rfl
    exact Bool.false_ne_true (hd.symm.trans h)
  refine ⟨?_, ?_, other rfl, other rfl⟩
  · simp [isPlain, Shell.isBlank, isOperator, other (d := ' ') rfl, other (d := '\t') rfl,
      other (d := '\n') rfl, other (d := '|') rfl, other (d := '&') rfl, other (d := ';') rfl,
      other (d := '<') rfl, other (d := '>') rfl, other (d := '(') rfl, other (d := ')') rfl,
      other (d := '\'') rfl, other (d := '"') rfl, other (d := '\\') rfl, other (d := '$') rfl,
      other (d := Char.ofNat 96) rfl]
  · simp [Shell.isPattern, other (d := '*') rfl, other (d := '?') rfl, other (d := '[') rfl]

theorem read_safe (h : text.all isSafe = true) (some_ : text ≠ []) :
    Word text (text.map .literal) := by
  cases text with
  | nil => exact absurd rfl some_
  | cons c text =>
      rw [List.all_cons, Bool.and_eq_true] at h
      have rest : text.all isPlain = true :=
        List.all_eq_true.mpr fun d hd => (safe_plain (List.all_eq_true.mp h.2 d hd)).1
      intro done
      rw [read_cons, step_plain (safe_plain h.1).1 _ rfl (.inr (safe_plain h.1).2.2),
        Option.bind_some]
      exact read_plain rest

/-- What a character inside single quotes is made of. -/
def quotedPiece (c : Char) : List Piece :=
  if c = '\'' then [.quotes, .quoted '\'', .quotes] else [.quoted c]

theorem read_escapeQuote (c : Char) (more : Text) :
    (⟨done, some pieces, .single⟩ : Lexer).read (escapeQuote c ++ more) =
      (⟨done, some (pieces ++ quotedPiece c), .single⟩ : Lexer).read more := by
  by_cases quote : c = '\''
  · subst quote
    have three : pieces ++ quotedPiece '\'' =
        pieces ++ [Piece.quotes] ++ [Piece.quoted '\''] ++ [Piece.quotes] := by simp [quotedPiece]
    rw [three]
    rfl
  · rw [escapeQuote, quotedPiece, if_neg quote, if_neg quote, List.singleton_append, read_cons]
    simp only [Lexer.step, if_neg quote, Option.bind_some]
    rfl

theorem read_escaped (arg : Text) :
    (⟨done, some pieces, .single⟩ : Lexer).read (arg.flatMap escapeQuote ++ ['\'']) =
      some ⟨done, some (pieces ++ arg.flatMap quotedPiece), .plain⟩ := by
  induction arg generalizing pieces with
  | nil => rw [List.flatMap_nil, List.flatMap_nil, List.append_nil]; rfl
  | cons c arg ih =>
      rw [List.flatMap_cons, List.flatMap_cons, List.append_assoc, read_escapeQuote, ih,
        List.append_assoc]

theorem puts_escaped (m : Shell.Machine) (arg : Text) : ∃ texts,
    List.Forall₂ m.Puts (arg.flatMap quotedPiece) texts ∧
      texts.flatten = arg.map (·, false) := by
  induction arg with
  | nil => exact ⟨[], .nil, rfl⟩
  | cons c arg ih =>
      obtain ⟨texts, all, shown⟩ := ih
      rw [List.flatMap_cons, quotedPiece]
      split
      · next quote =>
          refine ⟨[] :: [('\'', false)] :: [] :: texts,
            .cons puts_quotes (.cons (puts_quoted _) (.cons puts_quotes all)), ?_⟩
          simp [shown, quote]
      · exact ⟨[(c, false)] :: texts, .cons (puts_quoted c) all, by simp [shown]⟩

theorem puts_literals (m : Shell.Machine) (text : Text) :
    List.Forall₂ m.Puts (text.map .literal) (text.map fun c => [(c, true)]) := by
  induction text with
  | nil => exact .nil
  | cons c text ih => exact .cons (puts_literal c) ih

theorem flatten_active (text : Text) :
    (text.map fun c => [(c, true)]).flatten = text.map (·, true) := by
  induction text with
  | nil => rfl
  | cons c text ih => rw [List.map_cons, List.flatten_cons, ih]; rfl

theorem text_marked (text : Text) (active : Bool) :
    Field.text (text.map (·, active)) = text := by
  rw [Field.text, List.map_map]
  exact List.map_id text

theorem not_pattern_active (h : text.all (!Shell.isPattern ·) = true) :
    Field.isPattern (text.map (·, true)) = false := by
  simpa [Field.isPattern] using h

/-- A quoted argument is pasted as that argument, wherever. -/
theorem shows_quoted (m : Shell.Machine) (arg : Text) : Shows m (shellQuote arg) arg := by
  unfold shellQuote
  split
  · next none =>
      subst none
      exact ⟨[.quotes], fun done => rfl, rfl⟩
  · next some_ =>
      split
      · next safe =>
          refine ⟨_, read_safe safe some_, ?_⟩
          have bare : arg.all (!Shell.isPattern ·) = true := List.all_eq_true.mpr fun c hc => by
            simp [(safe_plain (List.all_eq_true.mp safe c hc)).2.1]
          have whole := word_puts (puts_literals m arg) ?_ ?_
          · rwa [flatten_active, text_marked] at whole
          · obtain ⟨c, rest, rfl⟩ := List.exists_cons_of_ne_nil some_
            exact ⟨.literal c, List.mem_cons_self, .inr ⟨c, rfl⟩⟩
          · rw [flatten_active]
            exact not_pattern_active bare
      · obtain ⟨texts, all, shown⟩ := puts_escaped m arg
        refine ⟨.quotes :: arg.flatMap quotedPiece, fun done => ?_, ?_⟩
        · exact read_escaped arg
        · have whole := word_puts (.cons puts_quotes all)
            ⟨.quotes, List.mem_cons_self, .inl rfl⟩ ?_
          · rwa [List.flatten_cons, List.nil_append, shown, text_marked] at whole
          · rw [List.flatten_cons, List.nil_append, shown]
            simp [Field.isPattern]

/-- The line of any arguments after docker's name is read, on any machine, as one command with
those arguments; and so is the line a command is shown as. -/
theorem command_shellJoin (m : Shell.Machine) :
    (∀ args, m.command (shellJoin ("docker".toList :: args)) = some ("docker".toList :: args)) ∧
      ∀ d : DockerRun, m.command d.display = some (d.toArgv.map String.toList) := by
  have joined (args : List Text) :
      m.command (shellJoin ("docker".toList :: args)) = some ("docker".toList :: args) := by
    have named : shellQuote "docker".toList = "docker".toList := by decide
    have rest : List.Forall₂ (Shows m) (args.map shellQuote) args := by
      induction args with
      | nil => exact .nil
      | cons arg args ih => exact .cons (shows_quoted m arg) ih
    obtain ⟨pieces, word, shown⟩ := shows_quoted m "docker".toList
    rw [named] at word
    obtain rfl := word.unique (read_safe (by decide) (by decide))
    rw [shellJoin, List.map_cons, named]
    exact command_spaced word shown (by decide) rest
  refine ⟨joined, fun d => ?_⟩
  obtain ⟨args, argv⟩ : ∃ args, d.toArgv = "docker" :: args := by
    unfold DockerRun.toArgv
    simp only [List.append_assoc, List.cons_append]
    exact ⟨_, rfl⟩
  rw [DockerRun.display, argv, List.map_cons]
  exact joined _

/-- The machine a command is shown for: the home directory and the user's ids. -/
structure Here (m : Shell.Machine) (home : String) (user : Option PosixUser) : Prop where
  home_ : m.var "HOME".toList = home.toList
  uid : ∀ u ∈ user, m.run "id -u".toList = some (toString u.uid).toList
  gid : ∀ u ∈ user, m.run "id -g".toList = some (toString u.gid).toList

theorem digits_solid (n : Nat) :
    ((toString n).toList.all (!isSeparator ·) = true) ∧
      ((toString n).toList.all (!Shell.isPattern ·) = true) := by
  have other {c d : Char} (hc : c ∈ (toString n).toList) (hd : d.isDigit = false) : c ≠ d := by
    rintro rfl
    exact Bool.false_ne_true (hd.symm.trans (toString_isDigit c hc))
  constructor <;> refine List.all_eq_true.mpr fun c hc => ?_
  · simp [isSeparator, other (d := ' ') hc rfl, other (d := '\t') hc rfl,
      other (d := '\n') hc rfl]
  · simp [Shell.isPattern, other (d := '*') hc rfl, other (d := '?') hc rfl,
      other (d := '[') hc rfl]

theorem read_user : Word "$(id -u):$(id -g)".toList
    [.command "id -u".toList, .literal ':', .command "id -g".toList] := fun _ => rfl

theorem shows_user {home : String} {u : PosixUser} (here : Here m home (some u)) :
    Shows m "$(id -u):$(id -g)".toList s!"{u.uid}:{u.gid}".toList := by
  refine ⟨_, read_user, ?_⟩
  have uid := puts_command (here.uid u rfl) (digits_solid u.uid).1
  have gid := puts_command (here.gid u rfl) (digits_solid u.gid).1
  have flat : [(toString u.uid).toList.map (·, true), [(':', true)],
      (toString u.gid).toList.map (·, true)].flatten =
      (s!"{u.uid}:{u.gid}".toList).map (·, true) := by
    simp [String.toList_append]
    rfl
  have bare : s!"{u.uid}:{u.gid}".toList.all (!Shell.isPattern ·) = true := by
    simp only [String.toList_append, List.all_append, Bool.and_eq_true]
    exact ⟨⟨(digits_solid u.uid).2, rfl⟩, (digits_solid u.gid).2⟩
  have whole := word_puts (.cons uid (.cons (puts_literal ':') (.cons gid .nil)))
    ⟨.literal ':', by simp, .inr ⟨':', rfl⟩⟩ (by rw [flat]; exact not_pattern_active bare)
  rwa [flat, text_marked] at whole

/-- The volume's source can be written with `$HOME`: nothing in it or in the home
directory means more to the shell than itself, and what follows the name ends it. -/
structure Pasteable (home rest ctr : String) : Prop where
  solid : home.toList.all (fun c => !isSeparator c && !Shell.isPattern c) = true
  ends : ∀ c ∈ rest.toList.head?, isNameChar c = false
  plain : (rest ++ ":" ++ ctr).toList.all (fun c => isPlain c && !Shell.isPattern c) = true

/-- After the name of the home directory, a text that does not go on with it. -/
theorem read_home {c : Char} (name : isNameChar c = false) (plain : isPlain c = true)
    (rest : text.all isPlain = true) :
    Word ("$HOME".toList ++ c :: text) (.param "HOME".toList :: (c :: text).map .literal) := by
  intro done
  have opened : (⟨done, none, .plain⟩ : Lexer).read "$HOME".toList =
      some ⟨done, none, .dollar "HOME".toList⟩ := rfl
  have closed : (⟨done, none, .dollar "HOME".toList⟩ : Lexer).step c =
      some ⟨done, some [.param "HOME".toList, .literal c], .plain⟩ := by
    have literal := step_plain plain (⟨done, some [.param "HOME".toList], .plain⟩ : Lexer) rfl
      (.inl (Option.some_ne_none _))
    have other : "HOME".toList ≠ [] := by decide
    simp only [Lexer.step, Lexer.stepDollar, name, other, false_and, if_false,
      Bool.false_eq_true]
    exact literal
  rw [read_append, opened, Option.bind_some, read_cons, closed, Option.bind_some,
    read_plain rest]
  rfl

theorem shows_volume {home rest ctr : String} {user : Option PosixUser}
    (here : Here m home user) (h : Pasteable home rest ctr) :
    Shows m ("$HOME" ++ rest ++ ":" ++ ctr).toList (home ++ rest ++ ":" ++ ctr).toList := by
  obtain ⟨c, text, whole, name⟩ : ∃ c text, (rest ++ ":" ++ ctr).toList = c :: text ∧
      isNameChar c = false := by
    simp only [String.toList_append]
    cases first : rest.toList with
    | nil => exact ⟨':', ctr.toList, rfl, rfl⟩
    | cons c more => exact ⟨c, _, rfl, h.ends c (by rw [first]; rfl)⟩
  have plain := h.plain
  rw [whole, List.all_eq_true] at plain
  simp only [Bool.and_eq_true, Bool.not_eq_true'] at plain
  have solid := List.all_eq_true.mp h.solid
  simp only [Bool.and_eq_true, Bool.not_eq_true'] at solid
  have home_ : m.Puts (.param "HOME".toList) ((m.var "HOME".toList).map (·, true)) :=
    puts_param (here.home_ ▸ List.all_eq_true.mpr fun d hd => by simp [(solid d hd).1])
  have flat : (((m.var "HOME".toList).map (·, true)) :: (c :: text).map fun c => [(c, true)]).flatten
      = (home.toList ++ c :: text).map (·, true) := by
    rw [List.flatten_cons, flatten_active, here.home_, List.map_append]
  have bare : (home.toList ++ c :: text).all (!Shell.isPattern ·) = true := by
    rw [List.all_append, Bool.and_eq_true]
    exact ⟨List.all_eq_true.mpr fun d hd => by simp [(solid d hd).2],
      List.all_eq_true.mpr fun d hd => by simp [(plain d hd).2]⟩
  have shown := word_puts (.cons home_ (puts_literals m (c :: text)))
    ⟨.literal c, by simp, .inr ⟨c, rfl⟩⟩ (flat ▸ not_pattern_active bare)
  rw [flat, text_marked] at shown
  have text_ (front : String) : (front ++ rest ++ ":" ++ ctr).toList = front.toList ++ c :: text := by
    rw [← whole]
    simp [String.toList_append]
  rw [text_, text_]
  exact ⟨_, read_home name (plain c List.mem_cons_self).1
    (List.all_eq_true.mpr fun d hd => (plain d (List.mem_cons_of_mem _ hd)).1), shown⟩

end Words

/-- The command shown is the command run, on every machine it is shown for. -/
def RunsAsShown (d : DockerRun) (home : String) : Prop :=
  ∀ m, Here m home d.user →
    m.evaluate (d.displayPortable (some home) "$HOME") = some (d.toArgv.map String.toList)

/-- Every volume that is written with `$HOME` can be. -/
def AllPasteable (d : DockerRun) (home : String) : Prop :=
  ∀ v ∈ d.volumes.entries, ∀ rest, underHome (some home) v.1 = some rest →
    Pasteable home rest v.2

section Command
variable {m : Shell.Machine} {d : DockerRun} {home : String}

/-- The argument is pasted as the other is passed. -/
def PastedAs (m : Shell.Machine) (a b : Arg) : Prop := Shows m a.shown b.text.toList

theorem pasted_arg (m : Shell.Machine) (text : String) : PastedAs m (.plain text) (.plain text) :=
  shows_quoted m text.toList

theorem pasted_plain (m : Shell.Machine) (texts : List String) :
    List.Forall₂ (PastedAs m) (texts.map .plain) (texts.map .plain) := by
  induction texts with
  | nil => exact .nil
  | cons text texts ih => exact .cons (pasted_arg m text) ih

theorem pasted_user (here : Here m home d.user) :
    List.Forall₂ (PastedAs m) (userArgs d.user .portable) (userArgs d.user .resolved) := by
  cases user : d.user with
  | none => exact .nil
  | some u =>
      rw [user] at here
      exact .cons (pasted_arg m _) (.cons (shows_user here) (pasted_plain m _))

theorem underHome_some {host rest : String} (h : underHome (some home) host = some rest) :
    home ≠ "" ∧ host = home ++ rest := by
  simp only [underHome] at h
  split at h
  · next some_ =>
      refine ⟨some_, ?_⟩
      unfold stripPrefix at h
      split at h
      · next front =>
          obtain ⟨tail, whole⟩ := front
          obtain rfl := Option.some.inj h
          rw [← String.toList_inj, String.toList_append, String.toList_ofList, ← whole,
            List.drop_left]
      · cases h
  · cases h

theorem pasted_volume (here : Here m home d.user) {v : String × String}
    (h : ∀ rest, underHome (some home) v.1 = some rest → Pasteable home rest v.2) :
    PastedAs m (volumeArg (some home) "$HOME" .portable v)
      (volumeArg none "" .resolved v) := by
  unfold volumeArg
  cases under : underHome (some home) v.1 with
  | none => exact pasted_arg m _
  | some rest =>
      obtain ⟨_, whole⟩ := underHome_some under
      have shown := shows_volume here (h rest under)
      rw [← whole] at shown
      exact shown

theorem pasted_volumes (here : Here m home d.user) {entries : List (String × String)}
    (h : ∀ v ∈ entries, ∀ rest, underHome (some home) v.1 = some rest → Pasteable home rest v.2) :
    List.Forall₂ (PastedAs m)
      (entries.flatMap fun v => [.plain "-v", volumeArg (some home) "$HOME" .portable v])
      (entries.flatMap fun v => [.plain "-v", volumeArg none "" .resolved v]) := by
  induction entries with
  | nil => exact .nil
  | cons v rest ih =>
      exact .cons (pasted_arg m _) (.cons (pasted_volume here (h v List.mem_cons_self))
        (ih fun w hw => h w (List.mem_cons_of_mem _ hw)))

/-- What comes before the volumes. -/
def beforeVolumes (d : DockerRun) (mode : UserRender) : List Arg :=
  d.openingArgs.map .plain ++ userArgs d.user mode ++ d.middleArgs.map .plain

theorem pasted_before (here : Here m home d.user) :
    List.Forall₂ (PastedAs m) (beforeVolumes d .portable) (beforeVolumes d .resolved) := by
  apply List.rel_append
  · exact List.rel_append (pasted_plain m _) (pasted_user here)
  · exact pasted_plain m _

theorem pasted_render (here : Here m home d.user) (h : AllPasteable d home) :
    List.Forall₂ (PastedAs m) (d.render .portable (some home) "$HOME")
      (d.render .resolved none "") := by
  apply List.rel_append
  · exact List.rel_append (pasted_before here) (pasted_volumes here h)
  · exact pasted_plain m _

theorem argv_texts (d : DockerRun) : d.toArgv.map String.toList =
    (d.render .resolved none "").map fun a => a.text.toList := by
  rw [DockerRun.toArgv_eq, List.map_map]
  rfl

theorem shown_texts {xs ys : List Arg} (h : List.Forall₂ (PastedAs m) xs ys) :
    List.Forall₂ (Shows m) (xs.map Arg.shown) (ys.map fun a => a.text.toList) :=
  List.forall₂_map_left_iff.mpr (List.forall₂_map_right_iff.mpr h)

theorem runs_of_pasteable (h : AllPasteable d home) : RunsAsShown d home := by
  intro m here
  have some_ : (d.render .portable (some home) "$HOME").map Arg.shown ≠ [] := by
    delta DockerRun.render
    simp
  rw [DockerRun.displayPortable, evaluate_spaced (shown_texts (pasted_render here h)) some_,
    argv_texts]

end Command

section Necessity
variable {home rest ctr : String} {user : Option PosixUser} {more s : Text} {outs : List Text}

/-- A machine the command is shown for, by its other variables and its paths. -/
def pasteMachine (home : String) (user : Option PosixUser) (other : Text)
    (paths : Field → List Text) : Shell.Machine where
  var name := if name = "HOME".toList then home.toList else other
  run text :=
    if text = "id -u".toList then user.map fun u => (toString u.uid).toList
    else if text = "id -g".toList then user.map fun u => (toString u.gid).toList
    else none
  paths := paths

theorem here_pasteMachine (other : Text) (paths : Field → List Text) :
    Here (pasteMachine home user other paths) home user :=
  ⟨rfl, fun _ hu => by rw [hu]; rfl, fun _ hu => by rw [hu]; rfl⟩

theorem var_other {other name : Text} (paths : Field → List Text) (h : name ≠ "HOME".toList) :
    (pasteMachine home user other paths).var name = other := if_neg h

/-- Where a name is being read, the characters that go on with it. -/
theorem read_name {done : List (List Piece)} {current : Option (List Piece)} {name : Text}
    (some_ : name ≠ []) {text : Text} (h : text.all isNameChar = true) :
    (⟨done, current, .dollar name⟩ : Lexer).read text = some ⟨done, current, .dollar (name ++ text)⟩ := by
  induction text generalizing name with
  | nil => rw [List.append_nil]; rfl
  | cons c text ih =>
      rw [List.all_cons, Bool.and_eq_true] at h
      have step : (⟨done, current, .dollar name⟩ : Lexer).step c =
          some ⟨done, current, .dollar (name ++ [c])⟩ := by
        simp only [Lexer.step, Lexer.stepDollar, some_, false_and, if_false, h.1, true_and,
          false_implies, if_true]
        rfl
      rw [read_cons, step, Option.bind_some, ih (List.append_ne_nil_of_left_ne_nil some_ _) h.2,
        List.append_assoc]
      rfl

/-- After a name, a character that does not go on with it ends the parameter. -/
theorem read_named {name : Text} (some_ : name ≠ []) {c : Char} (other : isNameChar c = false) :
    (⟨[], none, .dollar name⟩ : Lexer).read (c :: s) =
      (⟨[], some [.param name], .plain⟩ : Lexer).read (c :: s) := by
  rw [read_cons, read_cons]
  simp only [Lexer.step, Lexer.stepDollar, some_, false_and, if_false, other, Bool.false_eq_true]
  rfl

theorem called_home {m : Shell.Machine} (name tail : Text) (named : name.all isNameChar = true) {c : Char}
    (other : isNameChar c = false)
    (called : m.evaluate ("$HOME".toList ++ (name ++ c :: tail)) = some outs) :
    ∃ words, ((⟨[], some [.param ("HOME".toList ++ name)], .plain⟩ : Lexer).read (c :: tail)).bind
      Lexer.finish = some words ∧ (words.mapM m.word).map List.flatten = some outs := by
  have opened : Lexer.start.read "$HOME".toList = some ⟨[], none, .dollar "HOME".toList⟩ := rfl
  rw [Shell.Machine.evaluate, lex, read_append, opened, Option.bind_some, read_append,
    read_name (by decide) named, Option.bind_some, read_named (by simp) other] at called
  exact Option.bind_eq_some_iff.mp called

/-- On every such machine, what the rest of the line is called with starts with `out`. -/
def CalledWith (home : String) (user : Option PosixUser) (line out : Text) : Prop :=
  ∀ other paths, ∃ outs,
    (pasteMachine home user other paths).evaluate line = some (out :: outs)

/-- A path's name that goes on with the name of the home directory's variable names
another variable, whose value may be anything. -/
theorem ends_of_called
    (called : CalledWith home user ("$HOME".toList ++ (s ++ ' ' :: more)) (home.toList ++ s)) :
    ∀ c ∈ s.head?, isNameChar c = false := by
  intro c first
  by_contra named
  rw [Bool.not_eq_false] at named
  obtain ⟨s', rfl⟩ : ∃ s', s = c :: s' := by
    cases s with
    | nil => cases first
    | cons d s' => exact ⟨s', by rw [Option.some.inj first]⟩
  -- The name ends at the latest at the blank after the word.
  obtain ⟨name, d, tail, whole, all, stops⟩ : ∃ (name : Text) (d : Char) (tail : Text),
      s' ++ ' ' :: more = name ++ d :: tail ∧
        name.all isNameChar = true ∧ isNameChar d = false := by
    refine ⟨(s' ++ ' ' :: more).takeWhile isNameChar, ?_⟩
    have split := List.takeWhile_append_dropWhile (p := isNameChar) (l := s' ++ ' ' :: more)
    cases rest : (s' ++ ' ' :: more).dropWhile isNameChar with
    | nil =>
        have blank := List.dropWhile_eq_nil_iff.mp rest ' ' (by simp)
        cases blank
    | cons d tail =>
        refine ⟨d, tail, rest ▸ split.symm, List.all_takeWhile, ?_⟩
        have head := List.head_dropWhile_not isNameChar (show
          (s' ++ ' ' :: more).dropWhile isNameChar ≠ [] by simp [rest])
        simpa [rest] using head
  let value : Text := List.replicate (home.toList ++ c :: s').length.succ 'a'
  obtain ⟨outs, called⟩ := called value fun _ => []
  rw [List.cons_append, whole] at called
  obtain ⟨words, read, shown⟩ := called_home (c :: name) tail (by simp [named, all]) stops called
  have var : (pasteMachine home user value fun _ => []).var ("HOME".toList ++ c :: name) = value :=
    var_other _ (by simp)
  have begun := first_param (m := pasteMachine home user value fun _ => []) (fun _ => rfl)
    ⟨[], [], rfl⟩ (by rw [var]; simp [value]) (by rw [var]; simp [value, isSeparator]) read shown
  rw [var] at begun
  have longer := begun.length_le
  simp only [value, List.length_replicate] at longer
  omega

/-- Where a text without quoting is pasted right, nothing in it or in the home directory
separates words or ends the command. -/
theorem solid_of_called (bare : s.all (!isQuoting ·) = true) (solid_ : ∃ c ∈ s, Shell.isBlank c = false)
    (called : CalledWith home user ("$HOME".toList ++ (s ++ ' ' :: more)) (home.toList ++ s)) :
    (home.toList ++ s).all (!isSeparator ·) = true ∧ s.all (!isOperator ·) = true := by
  have ends := ends_of_called called
  obtain ⟨c, tail, rfl⟩ : ∃ c tail, s = c :: tail := by
    obtain ⟨c, hc, _⟩ := solid_
    exact List.exists_cons_of_ne_nil (List.ne_nil_of_mem hc)
  have other := ends c rfl
  obtain ⟨outs, called⟩ := called [] fun _ => []
  have opened : Lexer.start.read "$HOME".toList = some ⟨[], none, .dollar "HOME".toList⟩ := rfl
  have lexed : Lexer.start.read ("$HOME".toList ++ (c :: tail)) =
      (⟨[], some [.param "HOME".toList], .plain⟩ : Lexer).read (c :: tail) := by
    rw [read_append, opened, Option.bind_some, read_named (by decide) other]
  have start : Solid ⟨[], some [.param "HOME".toList], .plain⟩ := by
    refine ⟨rfl, fun w hw p hp => ?_⟩
    obtain rfl := List.mem_singleton.mp hw
    exact .inl ⟨_, List.mem_singleton.mp hp⟩
  cases read : (⟨[], some [.param "HOME".toList], .plain⟩ : Lexer).read (c :: tail) with
  | none =>
      rw [← List.append_assoc, Shell.Machine.evaluate, lex, read_append, lexed, read] at called
      cases called
  | some k =>
      obtain ⟨solid, operators, has⟩ := read_solid start bare read
      rw [← List.append_assoc] at called
      have separated := first_solid (fun _ => rfl) (lexed.trans read) solid (has (.inr solid_)) called
      exact ⟨separated, operators⟩

theorem pattern_of_called {c : Char} {tail : Text} (other : isNameChar c = false)
    (plain : (c :: tail).all isPlain = true)
    (value : home.toList.all (!isSeparator ·) = true)
    (called : CalledWith home user ("$HOME".toList ++ (c :: tail ++ ' ' :: more))
      (home.toList ++ c :: tail)) :
    (home.toList ++ c :: tail).all (!Shell.isPattern ·) = true := by
  by_contra active
  have pattern : Field.isPattern ((home.toList ++ c :: tail).map (·, true)) = true := by
    obtain ⟨x, hx, special⟩ := List.all_eq_false.mp (Bool.not_eq_true _ ▸ active)
    exact List.any_eq_true.mpr ⟨(x, true), List.mem_map_of_mem hx, by simpa using special⟩
  let m := pasteMachine home user [] fun _ => [['m']]
  have home_ : m.Puts (.param "HOME".toList) (home.toList.map (·, true)) := puts_param value
  have word := word_field (.cons home_ (puts_literals m (c :: tail)))
    ⟨.literal c, by simp, .inr ⟨c, rfl⟩⟩
  rw [List.flatten_cons, flatten_active, ← List.map_append] at word
  have matched : m.resolve ((home.toList ++ c :: tail).map (·, true)) = [['m']] :=
    if_pos ⟨pattern, List.cons_ne_nil _ _⟩
  rw [List.all_cons, Bool.and_eq_true] at plain
  have shows : Shows m ("$HOME".toList ++ c :: tail) ['m'] :=
    ⟨_, read_home other plain.1 plain.2, matched ▸ word⟩
  obtain ⟨outs, called⟩ := called [] fun _ => [['m']]
  rw [← List.append_assoc, evaluate_past shows] at called
  obtain ⟨_, _, same⟩ := Option.map_eq_some_iff.mp called
  rw [← (List.cons.inj same).1] at active
  exact active (by decide)

/-- Without quoting in it, a volume that is pasted right can be written with `$HOME`. -/
theorem pasteable_of_called
    (bare : (rest ++ ":" ++ ctr).toList.all (!isQuoting ·) = true)
    (called : CalledWith home user ("$HOME".toList ++ ((rest ++ ":" ++ ctr).toList ++ ' ' :: more))
      (home.toList ++ (rest ++ ":" ++ ctr).toList)) : Pasteable home rest ctr := by
  have colon : ':' ∈ (rest ++ ":" ++ ctr).toList := by simp
  obtain ⟨separated, operators⟩ := solid_of_called bare ⟨':', colon, rfl⟩ called
  have ends := ends_of_called called
  rw [List.all_append, Bool.and_eq_true] at separated
  have plain : (rest ++ ":" ++ ctr).toList.all isPlain = true := List.all_eq_true.mpr fun c hc => by
    have quoting := List.all_eq_true.mp bare c hc
    have operator := List.all_eq_true.mp operators c hc
    have separator := List.all_eq_true.mp separated.2 c hc
    simp only [isQuoting, isSeparator, isPlain, Shell.isBlank, Bool.not_eq_true',
      Bool.or_eq_false_iff] at quoting operator separator ⊢
    simp [quoting, operator, separator]
  have ends_rest : ∀ c ∈ rest.toList.head?, isNameChar c = false := by
    intro c hc
    refine ends c ?_
    cases chars : rest.toList with
    | nil => rw [chars] at hc; cases hc
    | cons d tail => rw [chars] at hc; simpa [String.toList_append, chars] using hc
  cases whole : (rest ++ ":" ++ ctr).toList with
  | nil => rw [whole] at colon; cases colon
  | cons c tail =>
      rw [whole] at called ends plain
      have patterns := pattern_of_called (ends c rfl) plain separated.1 called
      rw [List.all_append, Bool.and_eq_true] at patterns
      refine ⟨?_, ends_rest, ?_⟩
      · refine List.all_eq_true.mpr fun d hd => ?_
        rw [Bool.and_eq_true]
        exact ⟨List.all_eq_true.mp separated.1 d hd, List.all_eq_true.mp patterns.1 d hd⟩
      · rw [whole]
        refine List.all_eq_true.mpr fun d hd => ?_
        rw [Bool.and_eq_true]
        exact ⟨List.all_eq_true.mp plain d hd, List.all_eq_true.mp patterns.2 d hd⟩

end Necessity
/-- No volume written with `$HOME` has a quote, a backslash or a dollar sign after it. -/
def Unquoting (d : DockerRun) (home : String) : Prop :=
  ∀ v ∈ d.volumes.entries, ∀ rest, underHome (some home) v.1 = some rest →
    (rest ++ ":" ++ v.2).toList.all (!isQuoting ·) = true

section Volumes
variable {d : DockerRun} {home : String} {front back : List (String × String)} {v : String × String}

/-- Past arguments that are pasted as they are passed, the one that follows. -/
theorem called_after {m : Shell.Machine} {first passed last others : List Arg} {a b : Arg}
    (fronts : List.Forall₂ (PastedAs m) first passed) (some_ : last ≠ [])
    (called : m.evaluate (spaced ((first ++ a :: last).map Arg.shown)) =
      some ((passed ++ b :: others).map fun a => a.text.toList)) :
    ∃ outs, m.evaluate (a.shown ++ ' ' :: spaced (last.map Arg.shown)) =
      some (b.text.toList :: outs) := by
  rw [List.map_append, List.map_append, evaluate_after (shown_texts fronts) (by simp)] at called
  obtain ⟨outs, evaluated, same⟩ := Option.map_eq_some_iff.mp called
  rw [List.map_cons, spaced_cons (by simpa using some_), List.append_cancel_left same] at evaluated
  exact ⟨_, evaluated⟩

/-- After volumes that are pasted right, one that is written with `$HOME`. -/
theorem called_of_runs (runs : RunsAsShown d home) (entries : d.volumes.entries = front ++ v :: back)
    (pasteable : ∀ w ∈ front, ∀ rest, underHome (some home) w.1 = some rest →
      Pasteable home rest w.2) {rest : String} (under : underHome (some home) v.1 = some rest) :
    ∃ more, CalledWith home d.user
      ("$HOME".toList ++ ((rest ++ ":" ++ v.2).toList ++ ' ' :: more))
      (home.toList ++ (rest ++ ":" ++ v.2).toList) := by
  let portable := fun v : String × String =>
    [Arg.plain "-v", volumeArg (some home) "$HOME" .portable v]
  let resolved := fun v : String × String => [Arg.plain "-v", volumeArg none "" .resolved v]
  let image := ([d.image] ++ d.command).map Arg.plain
  let last := back.flatMap portable ++ image
  refine ⟨spaced (last.map Arg.shown), fun other paths => ?_⟩
  have here := @here_pasteMachine home d.user other paths
  let first := beforeVolumes d .portable ++ front.flatMap portable ++ [Arg.plain "-v"]
  let passed := beforeVolumes d .resolved ++ front.flatMap resolved ++ [Arg.plain "-v"]
  have fronts : List.Forall₂ (PastedAs (pasteMachine home d.user other paths)) first passed :=
    List.rel_append (List.rel_append (pasted_before here) (pasted_volumes here pasteable))
      (.cons (pasted_arg _ "-v") .nil)
  have shown : d.render .portable (some home) "$HOME" =
      first ++ volumeArg (some home) "$HOME" .portable v :: last := by
    rw [DockerRun.render, entries, List.flatMap_append, List.flatMap_cons]
    simp [first, portable, last, image, beforeVolumes]
  have run : d.render .resolved none "" =
      passed ++ volumeArg none "" .resolved v :: (back.flatMap resolved ++ image) := by
    rw [DockerRun.render, entries, List.flatMap_append, List.flatMap_cons]
    simp [passed, resolved, image, beforeVolumes]
  have called := runs _ here
  rw [DockerRun.displayPortable, argv_texts, shown, run] at called
  obtain ⟨outs, evaluated⟩ := called_after fronts (by simp [last, image]) called
  have portable_ : (volumeArg (some home) "$HOME" .portable v).shown =
      "$HOME".toList ++ (rest ++ ":" ++ v.2).toList := by
    simp [volumeArg, under, Arg.shown, String.toList_append]
  have resolved_ : (volumeArg none "" .resolved v).text.toList =
      home.toList ++ (rest ++ ":" ++ v.2).toList := by
    obtain ⟨_, host⟩ := underHome_some under
    change (v.1 ++ ":" ++ v.2).toList = _
    rw [host]
    simp [String.toList_append]
  rw [portable_, resolved_, List.append_assoc] at evaluated
  exact ⟨outs, evaluated⟩

/-- Among commands without quoting in what follows `$HOME`, exactly those whose volumes can
be written with it run as they are shown. -/
theorem pasteable_of_runs (runs : RunsAsShown d home) (bare : Unquoting d home) :
    AllPasteable d home := by
  have all : ∀ back front, d.volumes.entries = front ++ back →
      (∀ w ∈ front, ∀ rest, underHome (some home) w.1 = some rest → Pasteable home rest w.2) →
      ∀ w ∈ back, ∀ rest, underHome (some home) w.1 = some rest → Pasteable home rest w.2 := by
    intro back
    induction back with
    | nil => intro front _ _ w hw; cases hw
    | cons v back ih =>
        intro front entries pasteable
        have here : ∀ rest, underHome (some home) v.1 = some rest → Pasteable home rest v.2 := by
          intro rest under
          obtain ⟨more, called⟩ := called_of_runs runs entries pasteable under
          have listed : v ∈ d.volumes.entries := entries ▸ List.mem_append_right _ List.mem_cons_self
          exact pasteable_of_called (bare v listed rest under) called
        intro w hw
        cases List.mem_cons.mp hw with
        | inl first => exact first ▸ here
        | inr later =>
            refine ih (front ++ [v]) (by rw [entries, List.append_assoc]; rfl) ?_ w later
            intro w hw
            cases List.mem_append.mp hw with
            | inl old => exact pasteable w old
            | inr new => exact List.mem_singleton.mp new ▸ here
  exact all _ [] rfl fun w hw => by cases hw

/-- A command whose volumes can be written with `$HOME` runs as it is shown; where no quote,
backslash or dollar sign follows `$HOME`, no other command does. -/
theorem runs_as_shown_iff (d : DockerRun) (home : String) :
    (AllPasteable d home → RunsAsShown d home) ∧
      (Unquoting d home → (RunsAsShown d home ↔ AllPasteable d home)) := by
  constructor
  · exact runs_of_pasteable
  · intro bare
    constructor
    · intro runs
      exact pasteable_of_runs runs bare
    · exact runs_of_pasteable

/-- A launch that mounts the model cache of the home directory. -/
def cacheRun (home : String) : DockerRun where
  detach := true
  entrypoint := none
  privileged := false
  deviceFlags := DeviceProfile.nvidia.dockerFlags
  ipc := rootlessV1.ipc
  shmSize := rootlessV1.shmSize
  network := rootlessV1.network
  user := some ⟨1000, 1000⟩
  securityOpts := rootlessV1.securityOpts
  capAdd := rootlessV1.capAdd
  ulimits := rootlessV1.ulimits
  devices := rootlessV1.devices
  memory := none
  labels := []
  autoRemove := false
  restart := none
  name := "metrale"
  env := .empty
  volumes := .ofList [(home ++ "/.cache/huggingface", containerHfHome)]
  image := "metrale/metrale-inference-gb10:latest"
  command := ["serve", "it's"]

theorem runs_as_shown_cache : RunsAsShown (cacheRun "/home/al") "/home/al" :=
  (runs_as_shown_iff (cacheRun "/home/al") "/home/al").1 <| by
    have mounted : (cacheRun "/home/al").volumes.entries =
      [("/home/al/.cache/huggingface", "/cache/huggingface")] := by decide +kernel
    intro v listed rest under
    rw [mounted, List.mem_singleton] at listed
    subst listed
    obtain rfl : "/.cache/huggingface" = rest := by
      have there : underHome (some "/home/al") "/home/al/.cache/huggingface" =
        some "/.cache/huggingface" := by decide +kernel
      exact Option.some.inj (there.symm.trans under)
    refine ⟨by decide +kernel, fun c first => ?_, by decide +kernel⟩
    obtain rfl : '/' = c := Option.some.inj first
    rfl

/-- A blank in the home directory cuts the volume in two. -/
theorem blank_home_runs_otherwise : ¬RunsAsShown (cacheRun "/home/a b") "/home/a b" := by
  intro runs
  have mounted : (cacheRun "/home/a b").volumes.entries =
    [("/home/a b/.cache/huggingface", "/cache/huggingface")] := by decide +kernel
  have there : underHome (some "/home/a b") "/home/a b/.cache/huggingface" =
    some "/.cache/huggingface" := by decide +kernel
  have bare : Unquoting (cacheRun "/home/a b") "/home/a b" := by
    intro v listed rest under
    rw [mounted, List.mem_singleton] at listed
    subst listed
    obtain rfl := Option.some.inj (there.symm.trans under)
    decide +kernel
  have pasteable := pasteable_of_runs runs bare
    ("/home/a b/.cache/huggingface", "/cache/huggingface") (by rw [mounted]; exact List.mem_cons_self)
    "/.cache/huggingface" there
  exact absurd pasteable.solid (by decide +kernel)

end Volumes
end Translate
end Metralectl
