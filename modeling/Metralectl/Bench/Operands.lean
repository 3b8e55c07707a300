import Metralectl.Bench.Settled
import Metralectl.Recipe.Registry
import Mathlib.Data.List.Chain

/-!
The command a job is run by: which of its tokens a submission decides, and what a reader of
the command finds in it.
-/
namespace Metralectl
namespace Bench
open Machine

/-- A token of the command, the node's own or one that a submission decides. -/
inductive Rendered where
  | own (text : String)
  | gate (id : String)
  | checkpoint (name : String)
  | param (key value : String)

namespace Rendered

def text : Rendered → String
  | .own text => text
  | .gate id => id
  | .checkpoint name => name
  | .param key value => s!"{key}={value}"

/-- The node's own tokens: its program, its configuration, and literals. -/
def Own (ctx : Ctx) (binary : CachedBinary) (text : String) : Prop :=
  text ∈ [binary.path, "benchmark", "run", "--pull-request-gate", "--hardware", ctx.hardware,
    "--yes", "--serve-reuse", "--serve-lease-owner", toString ctx.pid.toNat, "--checkpoint",
    "--param"]

/-- What a submission decides stands right after its own option. -/
def Follows (before : Rendered) : Rendered → Prop
  | .own _ => True
  | .gate _ => before = .own "run"
  | .checkpoint _ => before = .own "--checkpoint"
  | .param _ _ => before = .own "--param"

/-- It cannot be taken for an option, nor does it hold a control character. -/
def Plain : Rendered → Prop
  | .own _ => True
  | t => t.text.toList.head? ≠ some '-' ∧ t.text.toList.any isControl = false

end Rendered

/-- The command of a job, token by token. -/
def tokens (ctx : Ctx) (job : JobRecord) (binary : CachedBinary) : List Rendered :=
  [Rendered.own binary.path, .own "benchmark", .own "run", .gate job.spec.gate.text,
    .own "--pull-request-gate", .own "--hardware", .own ctx.hardware, .own "--yes"] ++
  (if ctx.serveReuse then
    [Rendered.own "--serve-reuse", .own "--serve-lease-owner", .own (toString ctx.pid.toNat)]
  else []) ++
  job.spec.checkpoint.elim [] (fun c => [Rendered.own "--checkpoint", .checkpoint c]) ++
  job.spec.params.entries.flatMap fun p => [Rendered.own "--param", .param p.1 p.2]

/-- What a submission asks the gate for. -/
structure Operands where
  gate : String
  checkpoint : Option String
  params : List (String × String)
deriving DecidableEq

/-- A reader of the options: each that takes an operand has the next token for it. -/
def readOptions : List String → Operands → Option Operands
  | [], o => some o
  | "--pull-request-gate" :: rest, o => readOptions rest o
  | "--yes" :: rest, o => readOptions rest o
  | "--serve-reuse" :: rest, o => readOptions rest o
  | "--hardware" :: _ :: rest, o => readOptions rest o
  | "--serve-lease-owner" :: _ :: rest, o => readOptions rest o
  | "--checkpoint" :: c :: rest, o => readOptions rest { o with checkpoint := some c }
  | "--param" :: p :: rest, o =>
      match RecipeRef.splitOnce '=' p.toList with
      | some (k, v) =>
          readOptions rest { o with params := o.params ++ [(String.ofList k, String.ofList v)] }
      | none => none
  | _, _ => none

/-- Read a command back: its gate, and the options after it. -/
def readArgv : List String → Option Operands
  | _ :: "benchmark" :: "run" :: gate :: rest => readOptions rest ⟨gate, none, []⟩
  | _ => none

section Tokens
variable (ctx : Ctx) (job : JobRecord) (binary : CachedBinary)

theorem tokens_text : (tokens ctx job binary).map Rendered.text = argv ctx job binary := by
  unfold tokens argv
  cases ctx.serveReuse <;> cases job.spec.checkpoint <;>
    simp [Rendered.text, List.map_flatMap]

theorem own_of_tokens {text : String} (h : .own text ∈ tokens ctx job binary) :
    Rendered.Own ctx binary text := by
  have listed (texts : List String) (member : Rendered.own text ∈ texts.map Rendered.own) :
      text ∈ texts := by
    obtain ⟨_, there, same⟩ := List.mem_map.mp member
    cases same
    exact there
  simp only [tokens, List.mem_append] at h
  obtain ((fixed | reused) | named) | param := h
  · rw [List.mem_cons, List.mem_cons, List.mem_cons, List.mem_cons] at fixed
    obtain own | own | own | own | later := fixed
    · cases own
      exact .head _
    · cases own
      exact .tail _ (.head _)
    · cases own
      exact .tail _ (.tail _ (.head _))
    · cases own
    · have member := listed ["--pull-request-gate", "--hardware", ctx.hardware, "--yes"] later
      exact List.mem_of_mem_take (i := 7) (.tail _ (.tail _ (.tail _ member)))
  · split at reused
    · have member := listed
        ["--serve-reuse", "--serve-lease-owner", toString ctx.pid.toNat] reused
      exact List.mem_of_mem_drop (i := 7) (List.mem_of_mem_take (i := 3) member)
    · cases reused
  · cases checkpoint : job.spec.checkpoint with
    | none =>
        rw [checkpoint] at named
        cases named
    | some c =>
        rw [checkpoint] at named
        simp only [Option.elim, List.mem_cons, List.not_mem_nil, or_false] at named
        obtain own | other := named
        · cases own
          simp [Rendered.Own]
        · cases other
  · obtain ⟨p, -, there⟩ := List.mem_flatMap.mp param
    simp only [List.mem_cons, List.not_mem_nil, or_false] at there
    obtain own | other := there
    · cases own
      simp [Rendered.Own]
    · cases other

theorem follow_append {before after : List Rendered} (first : before.IsChain Rendered.Follows)
    (rest : after.IsChain Rendered.Follows) (own : ∀ t ∈ after.head?, ∃ text, t = .own text) :
    (before ++ after).IsChain Rendered.Follows := by
  refine first.append rest fun _ _ t ht => ?_
  obtain ⟨text, rfl⟩ := own t ht
  trivial

theorem params_follow (params : List (String × String)) :
    (params.flatMap fun p => [.own "--param", .param p.1 p.2]).IsChain Rendered.Follows ∧
      ∀ t ∈ (params.flatMap fun p => [.own "--param", Rendered.param p.1 p.2]).head?,
        ∃ text, t = .own text := by
  induction params with
  | nil => exact ⟨.nil, nofun⟩
  | cons p params ih =>
      refine ⟨follow_append (.cons_cons rfl (.singleton _)) ih.1 ih.2, ?_⟩
      rintro _ ⟨⟩
      exact ⟨_, rfl⟩

theorem tokens_follow : (tokens ctx job binary).IsChain Rendered.Follows := by
  unfold tokens
  refine follow_append (follow_append (follow_append ?_ ?_ ?_) ?_ ?_) (params_follow _).1
    (params_follow _).2
  · exact .cons_cons trivial (.cons_cons trivial (.cons_cons rfl (.cons_cons trivial
      (.cons_cons trivial (.cons_cons trivial (.cons_cons trivial (.singleton _)))))))
  · split
    · exact .cons_cons trivial (.cons_cons trivial (.singleton _))
    · exact .nil
  · split
    · rintro _ ⟨⟩
      exact ⟨_, rfl⟩
    · exact nofun
  · cases job.spec.checkpoint with
    | none => exact .nil
    | some c => exact .cons_cons rfl (.singleton _)
  · cases job.spec.checkpoint with
    | none => exact nofun
    | some c =>
        rintro _ ⟨⟩
        exact ⟨_, rfl⟩

theorem mem_tokens {t : Rendered} (h : t ∈ tokens ctx job binary) :
    (∃ text, t = .own text) ∨ t = .gate job.spec.gate.text ∨
      (∃ c, job.spec.checkpoint = some c ∧ t = .checkpoint c) ∨
      ∃ p ∈ job.spec.params.entries, t = .param p.1 p.2 := by
  unfold tokens at h
  obtain ((h | h) | h) | h := by simpa only [List.mem_append] using h
  · simp only [List.mem_cons, List.not_mem_nil, or_false] at h
    obtain rfl | rfl | rfl | rfl | rfl | rfl | rfl | rfl := h
    all_goals first | exact .inl ⟨_, rfl⟩ | exact .inr (.inl rfl)
  · split at h
    · simp only [List.mem_cons, List.not_mem_nil, or_false] at h
      obtain rfl | rfl | rfl := h <;> exact .inl ⟨_, rfl⟩
    · cases h
  · cases ckpt : job.spec.checkpoint with
    | none =>
        rw [ckpt] at h
        cases h
    | some c =>
        simp only [ckpt, Option.elim, List.mem_cons, List.not_mem_nil, or_false] at h
        obtain rfl | rfl := h
        · exact .inl ⟨_, rfl⟩
        · exact .inr (.inr (.inl ⟨c, rfl, rfl⟩))
  · obtain ⟨p, hp, h⟩ := List.mem_flatMap.mp h
    simp only [List.mem_cons, List.not_mem_nil, or_false] at h
    obtain rfl | rfl := h
    · exact .inl ⟨_, rfl⟩
    · exact .inr (.inr (.inr ⟨p, hp, rfl⟩))

theorem checkpoint_mem_tokens {c : String} (h : job.spec.checkpoint = some c) :
    .checkpoint c ∈ tokens ctx job binary := by
  simp [tokens, h]

end Tokens

theorem splitOnce_param {k v : List Char} (h : '=' ∉ k) :
    RecipeRef.splitOnce '=' (k ++ '=' :: v) = some (k, v) := by
  have all : ∀ c ∈ k, decide (c ≠ '=') = true := by
    intro c hc
    exact decide_eq_true fun it => h (it ▸ hc)
  simp only [RecipeRef.splitOnce, List.dropWhile_append_of_pos all, List.takeWhile_append_of_pos all]
  simp

/-- Options that take no operand, or one that is the node's, leave what was read. -/
theorem read_params (params : List (String × String)) (keys : ∀ p ∈ params, '=' ∉ p.1.toList)
    (o : Operands) :
    readOptions (params.flatMap fun p => ["--param", s!"{p.1}={p.2}"]) o =
      some { o with params := o.params ++ params } := by
  induction params generalizing o with
  | nil =>
      rw [List.flatMap_nil, List.append_nil]
      rfl
  | cons p params ih =>
      have text : (s!"{p.1}={p.2}").toList = p.1.toList ++ '=' :: p.2.toList := by
        simp only [String.toList_append, List.append_assoc]
        rfl
      have split : RecipeRef.splitOnce '=' (s!"{p.1}={p.2}").toList =
          some (p.1.toList, p.2.toList) := by
        rw [text]
        exact splitOnce_param (keys p List.mem_cons_self)
      have read : readOptions (["--param", s!"{p.1}={p.2}"] ++
            params.flatMap fun p => ["--param", s!"{p.1}={p.2}"]) o =
          readOptions (params.flatMap fun p => ["--param", s!"{p.1}={p.2}"])
            { o with params := o.params ++ [p] } := by
        simp only [List.cons_append, List.nil_append, readOptions, split, String.ofList_toList]
      rw [List.flatMap_cons, read, ih fun q hq => keys q (List.mem_cons_of_mem _ hq)]
      simp

/-- What a reader finds is what the job's spec asks for. -/
theorem read_argv (ctx : Ctx) (job : JobRecord) (binary : CachedBinary)
    (keys : ∀ p ∈ job.spec.params.entries, '=' ∉ p.1.toList) :
    readArgv (argv ctx job binary) =
      some ⟨job.spec.gate.text, job.spec.checkpoint, job.spec.params.entries⟩ := by
  have read (rest : List String) : readArgv ([binary.path, "benchmark", "run", job.spec.gate.text,
      "--pull-request-gate", "--hardware", ctx.hardware, "--yes"] ++ rest) =
      readOptions rest ⟨job.spec.gate.text, none, []⟩ := by
    simp only [List.cons_append, List.nil_append, readArgv, readOptions]
  unfold argv
  rw [List.append_assoc, List.append_assoc, read]
  cases ctx.serveReuse <;> cases job.spec.checkpoint <;>
    simp only [Bool.false_eq_true, if_true, if_false, Option.elim, List.cons_append,
      List.nil_append, readOptions, read_params _ keys]

section Accepted
variable {n : Node} {sub : Submission}

/-- The parameter keys and values that are let in. -/
theorem param_accepted {q : Quoting} {p : String × String} (h : checkParam q p = .ok ()) :
    (∃ key : Token ['_', '-', '.'], key.text = p.1) ∧ p.2.toList.any isControl = false := by
  unfold checkParam at h
  split at h
  · cases h
  · next key =>
      refine ⟨⟨⟨p.1, key⟩, rfl⟩, ?_⟩
      split at h
      · cases h
      · split at h
        · cases h
        · next clean => exact Bool.eq_false_iff.mpr clean

theorem params_accepted {q : Quoting} (params : List (String × String))
    (h : params.forM (checkParam q) = .ok ()) : ∀ p ∈ params, checkParam q p = .ok () := by
  induction params with
  | nil => exact nofun
  | cons p params ih =>
      replace h : (checkParam q p >>= fun _ => params.forM (checkParam q)) = .ok () := h
      cases here : checkParam q p with
      | error e => rw [here] at h; cases h
      | ok _ =>
          rw [here] at h
          intro x hx
          cases List.mem_cons.mp hx with
          | inl it => rw [it, here]
          | inr rest => exact ih h x rest

/-- What is let in has the params checked, and the checkpoint's alphabet. -/
theorem inspect_accepted {cfg : HostConfig} {q : Quoting} (h : cfg.inspect q sub = none) :
    (∀ p ∈ sub.params.entries, checkParam q p = .ok ()) ∧
      ∀ c, sub.checkpoint = some c → isCheckpointName c = true := by
  unfold HostConfig.inspect at h
  split at h
  · cases h
  · next params =>
      split at h
      · cases h
      · next checkpoint =>
          constructor
          · unfold checkParams at params
            split at params
            · cases params
            · exact params_accepted _ params
          · intro c hc
            have named := Option.filter_eq_none_iff.mp checkpoint c hc
            simpa using named

theorem isControl_alphanum {c : Char} (h : c.isAlphanum = true) : isControl c = false := by
  have range := Ascii.alphanum_range h
  simp only [isControl, Bool.or_eq_false_iff, Bool.and_eq_false_iff, decide_eq_false_iff_not,
    Nat.not_lt, Nat.not_le]
  omega

theorem token_clean {extra : List Char} (t : Token extra)
    (clean : extra.any isControl = false) : t.text.toList.any isControl = false := by
  refine List.any_eq_false.mpr fun c hc => Bool.eq_false_iff.mp ?_
  cases t.plain c hc with
  | inl plain => exact isControl_alphanum plain
  | inr other => exact Bool.eq_false_iff.mpr (List.any_eq_false.mp clean c other)

theorem checkpoint_clean {c : String} (h : isCheckpointName c = true) :
    c.toList.any isControl = false := by
  simp only [isCheckpointName, Bool.and_eq_true] at h
  refine List.any_eq_false.mpr fun ch hch => Bool.eq_false_iff.mp ?_
  have kept := List.all_eq_true.mp h.2 ch hch
  cases (Bool.or_eq_true _ _).mp kept with
  | inl plain => exact isControl_alphanum plain
  | inr other =>
      have clean : "._/-".toList.any isControl = false := by decide
      exact Bool.eq_false_iff.mpr (List.any_eq_false.mp clean ch (List.contains_iff_mem.mp other))

theorem param_plain {q : Quoting} {p : String × String} (h : checkParam q p = .ok ()) :
    '=' ∉ p.1.toList ∧ (Rendered.param p.1 p.2).Plain := by
  obtain ⟨⟨key, same⟩, clean⟩ := param_accepted h
  rw [← same]
  have text : (Rendered.param key.text p.2).text.toList = key.text.toList ++ '=' :: p.2.toList := by
    simp only [Rendered.text, String.toList_append, List.append_assoc]
    rfl
  refine ⟨fun mem => ?_, ?_, ?_⟩
  · cases key.plain '=' mem with
    | inl plain => revert plain; decide
    | inr other => revert other; decide
  · rw [text]
    obtain ⟨filled, unflagged⟩ := key.unflagged
    cases chars : key.text.toList with
    | nil => exact absurd (String.toList_eq_nil_iff.mp chars) filled
    | cons c rest => rw [chars] at unflagged; exact unflagged
  · rw [text, List.any_append, List.any_cons, token_clean key (by decide), clean]
    decide

end Accepted

/-- What a submission decides of the command is its operands alone, each where it belongs,
plain, and read back as it was asked for. -/
structure Decides (ctx : Ctx) (sub : Submission) (job : JobRecord) (binary : CachedBinary) :
    Prop where
  own : ∀ text, .own text ∈ tokens ctx job binary → Rendered.Own ctx binary text
  follow : (tokens ctx job binary).IsChain Rendered.Follows
  plain : ∀ t ∈ tokens ctx job binary, t.Plain
  read : readArgv (argv ctx job binary) =
    some ⟨sub.gate.text, sub.checkpoint, sub.params.entries⟩

/-- A submission that is let in decides no more than its operands just if its checkpoint does
not begin as an option does. -/
theorem decides_operands_iff (n : Node) (sub : Submission)
    (accepted : n.inspect n.quoting sub = none) (id : JobId) (now : UInt64) (ctx : Ctx)
    (binary : CachedBinary) :
    (tokens ctx ((n.asked sub).record id now) binary).map Rendered.text =
        argv ctx ((n.asked sub).record id now) binary ∧
      (Decides ctx sub ((n.asked sub).record id now) binary ↔
        ∀ c, sub.checkpoint = some c → c.toList.head? ≠ some '-') := by
  obtain ⟨params, checkpoint⟩ := inspect_accepted accepted
  refine ⟨tokens_text _ _ _, fun decides c hc => ?_, fun unflagged => ?_⟩
  · exact (decides.plain _ (checkpoint_mem_tokens _ _ _ hc)).1
  · refine ⟨fun _ => own_of_tokens _ _ _, tokens_follow _ _ _, fun t ht => ?_, ?_⟩
    · obtain ⟨text, rfl⟩ | rfl | ⟨c, hc, rfl⟩ | ⟨p, hp, rfl⟩ := mem_tokens _ _ _ ht
      · trivial
      · exact ⟨sub.gate.unflagged.2, token_clean sub.gate (by decide)⟩
      · exact ⟨unflagged c hc, checkpoint_clean (checkpoint c hc)⟩
      · exact (param_plain (params p hp)).2
    · exact read_argv _ _ _ fun p hp => (param_plain (params p hp)).1

section Instances

def gateRequest (checkpoint : String) : Submission where
  sender := 0
  key := ⟨"k", k_accepted⟩
  sha := ⟨"0000000000000000000000000000000000000000", zeros_sha⟩
  gate := ⟨"gate", gate_accepted⟩
  params := .empty
  checkpoint := some checkpoint
  hardware := none
  maxRunS := none
  note := none

/-- A request with a checkpoint and two params, the value of one with signs a shell would read. -/
def tunedRequest : Submission :=
  { gateRequest "base/7b" with params := .ofList [("batch", "8"), ("prompt", "--a=b c")] }

theorem named_checkpoint_decides :
    Decides plainCtx tunedRequest
      ((plainNode.asked tunedRequest).record ⟨"jb", by decide⟩ 1) ⟨"met", ""⟩ := by
  refine (decides_operands_iff plainNode tunedRequest (by decide) ⟨"jb", by decide⟩ 1
    plainCtx ⟨"met", ""⟩).2.mpr ?_
  rintro _ ⟨⟩
  decide

/-- A checkpoint's name is let in that reads as an option. -/
theorem flagged_checkpoint_accepted :
    plainNode.inspect plainNode.quoting (gateRequest "--yes") = none ∧
      argv plainCtx ((plainNode.asked (gateRequest "--yes")).record ⟨"jb", by decide⟩ 1) ⟨"met", ""⟩ =
        ["met", "benchmark", "run", "gate", "--pull-request-gate", "--hardware", "", "--yes",
          "--checkpoint", "--yes"] ∧
      ¬Decides plainCtx (gateRequest "--yes")
        ((plainNode.asked (gateRequest "--yes")).record ⟨"jb", by decide⟩ 1) ⟨"met", ""⟩ := by
  refine ⟨by decide, rfl, fun decides => ?_⟩
  exact (decides.plain _ (checkpoint_mem_tokens _ _ _ rfl)).1 rfl

end Instances

end Bench
end Metralectl
