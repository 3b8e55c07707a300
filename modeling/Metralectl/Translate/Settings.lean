import Mathlib.Data.List.Flatten
import Mathlib.Data.Rat.Cast.Order
import Mathlib.Tactic.Linarith
import Metralectl.Control.LocalControl
import Metralectl.Translate.Flags

/-!
What a client may set on a launch: the bound of every setting it may give, the
reason for every one it may not, and the check that enforces it. The engine's own
value sets come first.
-/
namespace Metralectl
namespace Translate
open SortedMaps

def kvDtypes : List String :=
  ["bf16", "fp8", "nvfp4", "turbo4", "turbo3", "turbo2", "turbo8", "turbo4k_turbo3v",
    "turbo4k_turbo8v", "turbo3k_turbo8v", "bf16k_turbo4v", "bf16k_turbo3v", "fp8k_turbo4v",
    "fp8k_turbo3v", "bf16k_turbo2v", "fp8k_turbo2v"]

def dtypes : List String := ["bf16", "fp8", "nvfp4"]

def lmHeadDtypes : List String := ["default", "bf16", "nvfp4", "fp8"]

def ssmHDtypes : List String := ["f32", "f16", "f16-pool"]

def mtpGates : List String := ["auto", "force"]

def tristates : List String := ["auto", "on", "off"]

def telemetryLevels : List String := ["off", "basic", "kernel"]

/-- What values a setting accepts. -/
inductive Bound where
  | int (min max : Int)
  | float (min max : F64)
  | enum (variants : List String)
  | toggle
  | boolValue
  | intOrAuto (min max : Int)
deriving DecidableEq

inductive Disposition where
  | expose (bound : Bound)
  | deny (reason : String)
deriving DecidableEq

def exposed : List (String × Disposition) :=
  [
    ("port", .expose (.int 1 65535)),
    ("tensor_parallel", .expose (.int 1 8)),
    ("ep_size", .expose (.int 1 8)),
    ("max_batch_size", .expose (.int 1 256)),
    ("max_num_seqs", .expose (.int 1 256)),
    ("max_prefill_tokens", .expose (.int 256 262144)),
    ("max_num_batched_tokens", .expose (.int 256 262144)),
    ("scheduler", .expose (.enum ["fifo", "slai"])),
    ("scheduler_config", .expose (.enum ["sync", "async"])),
    ("tbt_deadline_ms", .expose (.int 1 10000)),
    ("enable_prefix_caching", .expose .toggle)
  ]

def exposedMemory : List (String × Disposition) :=
  [
    ("gpu_memory_utilization", .expose (.float 0x3FB999999999999A 0x3FEE666666666666)),
    ("max_model_len", .expose (.int 256 262144)),
    ("kv_cache_dtype", .expose (.enum kvDtypes)),
    ("kv_high_precision_layers", .expose (.intOrAuto 0 256)),
    ("block_size", .expose (.enum ["8", "16", "32", "64"])),
    ("oom_guard_mb", .expose (.int 0 16384)),
    ("fp8_kv_calibration_tokens", .expose (.int 0 65536)),
    ("ssm_cache_slots", .expose (.int 0 4096)),
    ("ssm_checkpoint_interval", .expose (.int 1 8192)),
    ("speculative", .expose .toggle),
    ("self_speculative", .expose .toggle),
    ("ngram_speculative", .expose .toggle),
    ("dflash", .expose .toggle),
    ("num_drafts", .expose (.int 1 8)),
    ("mtp_quantization", .expose (.enum dtypes)),
    ("dflash_gamma", .expose (.int 1 16)),
    ("dflash_window_size", .expose (.int 1 8192)),
    ("tool_max_tokens", .expose (.int 64 65536)),
    ("tool_grammar", .expose (.enum tristates)),
    ("disable_thinking", .expose .toggle),
    ("max_thinking_budget", .expose (.int 0 262144)),
    ("lm_head_dtype", .expose (.enum lmHeadDtypes)),
    ("ssm_h_dtype", .expose (.enum ssmHDtypes)),
    ("gdn_fused_norm", .expose .toggle),
    ("ssm_batched_recurrent", .expose (.enum tristates)),
    ("no_ssm_tail_midchunk", .expose .toggle),
    ("prefill_varlen_batch", .expose .toggle),
    ("w4a4_downcast", .expose .toggle),
    ("w4a4_downcast_wide", .expose .toggle),
    ("mtp_gate", .expose (.enum mtpGates)),
    ("telemetry", .expose (.enum telemetryLevels)),
    ("request_timeout", .expose (.int 0 86400))
  ]

def denied : List (String × Disposition) :=
  [
    ("host", .deny "the bind address is a network-exposure decision the agent owns, not a client"),
    ("served_model_name",
      .deny "an unbounded name with no operational value; the only free string in the table"),
    ("mtp_vocab",
      .deny "couples to the checkpoint's draft-head artifact; changing it changes what loads"),
    ("draft_model", .deny "loads a second set of weights of the sender's choosing"),
    ("tool_call_parser",
      .deny ("model-coupled correctness pin; changing it away from the recipe can only " ++
        "break tool calls")),
    ("model_from_path",
      .deny ("a filesystem path that changes which weights load — the exact vector this " ++
        "project exists to close")),
    ("cache_dir", .deny "a host path controlling where weights are read and written"),
    ("gpu_ordinal", .deny "host hardware selection, not a property of the deployment"),
    ("api_key",
      .deny ("a credential must not travel from a page into a command line, where `docker " ++
        "inspect` can read it")),
    ("require_auth", .deny "letting a client turn authentication off is a downgrade attack"),
    ("high_speed_swap", .deny "unusable without a swap directory, which is a host path"),
    ("high_speed_swap_dir", .deny "a host path the engine writes to"),
    ("high_speed_swap_gb", .deny "part of the swap family, which is denied as a group"),
    ("high_speed_swap_resident_blocks", .deny ("part of the swap family, which is denied as a " ++
        "group")),
    ("high_speed_swap_rank", .deny "part of the swap family, which is denied as a group"),
    ("high_speed_swap_qd", .deny "part of the swap family, which is denied as a group"),
    ("high_speed_swap_cache_blocks_per_seq",
      .deny "part of the swap family, which is denied as a group"),
    ("no_high_speed_swap_graph", .deny "part of the swap family, which is denied as a group"),
    ("video_allow_ffmpeg",
      .deny "spawns an external decoder process; a recipe may enable that, a client may not")
  ]

/-- Every flag and its disposition, in declaration order. -/
def dispositions : List (String × Disposition) := exposed ++ exposedMemory ++ denied

def disposition (key : String) : Option Disposition := dispositions.lookup key

section Floats

def isFinite (f : F64) : Bool := exponent f ≠ 2047

/-- How many times the smallest positive float a finite one is. -/
def units (f : F64) : Int :=
  let size : Int := (significand f * 2 ^ (max (exponent f) 1 - 1) : Nat)
  if f.msb then -size else size

def value (f : F64) : ℚ := units f / 2 ^ 1074

/-- A whole number as a float: the nearest one, the even one of two. -/
def ofInt (i : Int) : F64 :=
  let n := i.natAbs
  let top := Nat.log2 n
  let rounded :=
    if top ≤ 52 then n * 2 ^ (52 - top)
    else
      let step := 2 ^ (top - 52)
      let below := n / step
      let twice := 2 * (n % step)
      if step < twice ∨ (step = twice ∧ below % 2 = 1) then below + 1 else below
  let size := if n = 0 then 0 else (top + 1023) * 2 ^ 52 + (rounded - 2 ^ 52)
  BitVec.ofNat 64 (if i < 0 then 2 ^ 63 + size else size)

end Floats

section Checks
variable (std : StdText)

/-- A float in an error's text. -/
def showFloat (f : F64) : String :=
  match wholeNumber f with
  | some (negative, n) => (if negative then "-" else "") ++ toString n
  | none => std.display f

/-- A whole number is a legitimate spelling of a float. -/
def asNumber : SettingValue → Option F64
  | .float f => some f
  | .int i => some (ofInt i)
  | _ => none

/-- Check a value against the bound. What comes back is the number read or the
stored variant. -/
def Bound.check (bound : Bound) (key : String) (v : SettingValue) :
    Except SettingError SettingValue :=
  match bound, v with
  | .int min max, .int n =>
      if n < min ∨ n > max then .error (.outOfRange key (toString min) (toString max))
      else .ok (.int n)
  | .float min max, v =>
      match asNumber v with
      | none => .error (.wrongType key "a number")
      | some n =>
          if isFinite n = false ∨ units n < units min ∨ units n > units max then
            .error (.outOfRange key (showFloat std min) (showFloat std max))
          else .ok (.float n)
  | .enum variants, .str s =>
      match variants.find? (· = s) with
      | some stored => .ok (.str stored)
      | none => .error (.notAVariant key variants)
  | .toggle, .bool b | .boolValue, .bool b => .ok (.bool b)
  | .intOrAuto min max, v =>
      match v with
      | .str "auto" => .ok (.str "auto")
      | .int n =>
          if n ≥ min ∧ n ≤ max then .ok (.int n)
          else .error (.outOfRange key (toString min) (toString max))
      | _ => .error (.wrongType key "`auto` or a whole number")
  | .int _ _, _ => .error (.wrongType key "a whole number")
  | .enum variants, _ => .error (.notAVariant key variants)
  | .toggle, _ | .boolValue, _ => .error (.wrongType key "true or false")

/-- One requested override: into the values, or its error among the errors. -/
def validateEntry (acc : Config × List SettingError) (entry : String × SettingValue) :
    Config × List SettingError :=
  let (out, errors) := acc
  let (key, v) := entry
  match disposition key with
  | none => (out, errors ++ [.unknownKey key])
  | some (.deny reason) => (out, errors ++ [.denied key reason])
  | some (.expose bound) =>
      match bound.check std key v with
      | .ok checked => (out.insert key checked, errors)
      | .error why => (out, errors ++ [why])

/-- Every override checked, every error collected. -/
def validate (requested : Config) : Except (List SettingError) Config :=
  let (out, errors) := requested.entries.foldl (validateEntry std) (.empty, [])
  if errors = [] then .ok out else .error errors

/-- Above 0.88, `gpu_memory_utilization` has hung a GB10. -/
def gb10UtilCaution : F64 := 0x3FEC28F5C28F5C29

def isNan (f : F64) : Bool := isFinite f = false ∧ f.toNat % 2 ^ 52 ≠ 0

/-- Where a value is allowed and still worth a word on this machine. -/
def caution (key : String) (v : F64) (accelerator : String) : Option String :=
  if key ≠ "gpu_memory_utilization" ∨ Hardware.classify accelerator ≠ some .gb10 then none
  else if isNan v = false ∧ units v ≤ units gb10UtilCaution then none
  else
    let given := showFloat std v
    let ceiling := showFloat std gb10UtilCaution
    some (s!"gpu_memory_utilization {given} is above {ceiling} on {accelerator}. " ++
      "0.90 has frozen a machine of this kind hard enough to need a power cycle, and " ++
      "unified memory leaves no framebuffer to fall back on. The shipped recipes run " ++
      s!"at {ceiling}; raise it only if you can reach the box to reset it.")

/-- The schema a machine validates launches with. -/
def settingsSchema : SettingsSchema where
  validate requested := (validate std (SortedMap.empty.extend requested)).map (·.entries)
  caution := caution std
  validate_nil := rfl

end Checks

/-- A value the bound accepts. -/
def Bound.Fits : Bound → SettingValue → Prop
  | .int min max, .int n | .intOrAuto min max, .int n => min ≤ n ∧ n ≤ max
  | .float min max, .float f => isFinite f = true ∧ units min ≤ units f ∧ units f ≤ units max
  | .enum variants, .str s => s ∈ variants
  | .intOrAuto _ _, .str s => s = "auto"
  | .toggle, .bool _ | .boolValue, .bool _ => True
  | _, _ => False

section Numerals

/-- An unsigned decimal numeral and the number it denotes. -/
def Numeral (text : List Char) (q : ℚ) : Prop :=
  ∃ digits decimals : List Char, digits ≠ [] ∧ (∀ c ∈ digits ++ decimals, c.isDigit = true) ∧
    text = digits ++ (if decimals = [] then [] else '.' :: decimals) ∧
    q = Nat.ofDigitChars 10 (digits ++ decimals) 0 / 10 ^ decimals.length

/-- The float a number is read as: no other one is nearer. -/
def Nearest (f : F64) (q : ℚ) : Prop :=
  isFinite f = true ∧ ∀ g, isFinite g = true → |q - value f| ≤ |q - value g|

/-- The standard library writes this float, where it is no small whole number, as a
decimal numeral that is read as this float. -/
def DisplaysDecimal (std : StdText) (f : F64) : Prop :=
  isFinite f = true → wholeNumber f = none → ∃ text q,
    (std.display f).toList = (if f.msb then ['-'] else []) ++ text ∧ Numeral text q ∧
      Nearest f (if f.msb then -q else q)

/-- What may stand after the flag of a setting with this bound: one of its choices,
or an unsigned decimal numeral within it. -/
def Bound.Permits : Bound → String → Prop
  | .int min max, token => ∃ n : Nat, token = toString n ∧ min ≤ n ∧ n ≤ max
  | .float min max, token => ∃ q f, Numeral token.toList q ∧ Nearest f q ∧
      units min ≤ units f ∧ units f ≤ units max
  | .enum variants, token => token ∈ variants
  | .intOrAuto min max, token =>
      token = "auto" ∨ ∃ n : Nat, token = toString n ∧ min ≤ n ∧ n ≤ max
  | .boolValue, token => token = "true" ∨ token = "false"
  | .toggle, _ => False

/-- Nothing below zero and no choice that looks like a flag. -/
def Bound.plain : Bound → Bool
  | .int min _ | .intOrAuto min _ => 0 ≤ min
  | .float min _ => 0 < units min
  | .enum variants => variants.all fun v => v.toList.head? ≠ some '-'
  | .toggle | .boolValue => true

/-- Whether the bound and the flag of its setting agree: a toggle stands bare. -/
def Bound.suits (bound : Bound) (kind : FlagKind) : Bool :=
  decide (kind = .boolToggle) == decide (bound = .toggle)

/-- What the settings and the flag table agree on. -/
def lineUp (entry : String × Disposition) : Bool :=
  match entry.2 with
  | .deny _ => true
  | .expose bound =>
      bound.plain &&
        match metraleFlags.filter (·.key = entry.1) with
        | [flag] => bound.suits flag.kind
        | _ => false

end Numerals

section Tables
variable {key : String} {bound : Bound}

theorem dispositions_lineUp : dispositions.all lineUp = true := by decide +kernel

theorem lineUp_exposed (h : disposition key = some (.expose bound)) :
    lineUp (key, .expose bound) = true := by
  have listed : (key, Disposition.expose bound) ∈ dispositions := by
    obtain ⟨front, back, whole, _⟩ := List.lookup_eq_some_iff.mp h
    rw [whole]
    exact List.mem_append_right _ List.mem_cons_self
  exact List.all_eq_true.mp dispositions_lineUp _ listed

theorem exposed_plain (h : disposition key = some (.expose bound)) : bound.plain = true := by
  have both := lineUp_exposed h
  simp only [lineUp, Bool.and_eq_true] at both
  exact both.1

/-- A setting a client may give has one flag, which takes a value unless it is a toggle. -/
theorem exposed_claimed (h : disposition key = some (.expose bound)) :
    ∃ flag, metraleFlags.filter (·.key = key) = [flag] ∧ bound.suits flag.kind = true := by
  have both := lineUp_exposed h
  simp only [lineUp, Bool.and_eq_true] at both
  have claimed := both.2
  split at claimed
  · next flag only => exact ⟨flag, only, claimed⟩
  · exact absurd claimed Bool.false_ne_true

theorem exposed_suits {flag : Flag} (listed : flag ∈ metraleFlags)
    (h : disposition flag.key = some (.expose bound)) :
    flag.kind = .boolToggle ↔ bound = .toggle := by
  obtain ⟨only, claimed, suits⟩ := exposed_claimed h
  have found : flag ∈ metraleFlags.filter (·.key = flag.key) :=
    List.mem_filter.mpr ⟨listed, decide_eq_true rfl⟩
  rw [claimed] at found
  obtain rfl := List.mem_singleton.mp found
  simpa [Bound.suits] using suits

end Tables

section Validation
variable {std : StdText} {bound : Bound} {key : String} {v w : SettingValue}
  {requested out : Config}

theorem check_fits (h : bound.check std key v = .ok w) : bound.Fits w := by
  unfold Bound.check at h
  split at h
  case h_1 min max n =>
    split at h
    · cases h
    · next inside =>
        obtain rfl := Except.ok.inj h
        exact ⟨by omega, by omega⟩
  case h_2 min max v =>
    split at h
    · cases h
    · next n _ =>
        split at h
        · cases h
        · next inside =>
            obtain rfl := Except.ok.inj h
            simp only [not_or, Bool.not_eq_false] at inside
            exact ⟨inside.1, by omega, by omega⟩
  case h_3 variants s =>
    split at h
    · next stored found =>
        obtain rfl := Except.ok.inj h
        exact List.mem_of_find?_eq_some found
    · cases h
  case h_4 => obtain rfl := Except.ok.inj h; trivial
  case h_5 => obtain rfl := Except.ok.inj h; trivial
  case h_6 min max v =>
    split at h
    · obtain rfl := Except.ok.inj h; rfl
    · split at h
      · next inside => obtain rfl := Except.ok.inj h; exact inside
      · cases h
    · cases h
  all_goals cases h

/-- What the overrides checked so far have left behind. -/
structure Collected (std : StdText) (seen : List (String × SettingValue))
    (acc : Config × List SettingError) : Prop where
  checked : ∀ key w, acc.1.get? key = some w → ∃ bound v,
    disposition key = some (.expose bound) ∧ (key, v) ∈ seen ∧ bound.check std key v = .ok w
  kept : acc.2 = [] → ∀ e ∈ seen, (acc.1.get? e.1).isSome

theorem Collected.refused {seen : List (String × SettingValue)}
    {acc : Config × List SettingError} (h : Collected std seen acc) (e : String × SettingValue)
    (why : SettingError) : Collected std (seen ++ [e]) (acc.1, acc.2 ++ [why]) := by
  refine ⟨fun key w hw => ?_, fun none => absurd none (by simp)⟩
  obtain ⟨bound, v, settable, member, passed⟩ := h.checked key w hw
  exact ⟨bound, v, settable, List.mem_append_left _ member, passed⟩

theorem Collected.entry {seen : List (String × SettingValue)}
    {acc : Config × List SettingError} (h : Collected std seen acc) (e : String × SettingValue) :
    Collected std (seen ++ [e]) (validateEntry std acc e) := by
  obtain ⟨out, errors⟩ := acc
  obtain ⟨key, v⟩ := e
  simp only [validateEntry]
  split
  · exact h.refused _ _
  · exact h.refused _ _
  · next bound settable =>
      split
      · next checked passed =>
          constructor
          · intro k w hw
            rw [SortedMap.get?_insert] at hw
            split at hw
            · next same =>
                subst same
                obtain rfl := Option.some.inj hw
                exact ⟨bound, v, settable, List.mem_append_right _ List.mem_cons_self, passed⟩
            · obtain ⟨bound', v', settable', member, passed'⟩ := h.checked k w hw
              exact ⟨bound', v', settable', List.mem_append_left _ member, passed'⟩
          · intro none e he
            rw [SortedMap.get?_insert]
            split
            · rfl
            · next other =>
                cases List.mem_append.mp he with
                | inl before => exact h.kept none e before
                | inr last => exact absurd (congrArg Prod.fst (List.mem_singleton.mp last)) other
      · exact h.refused _ _

theorem validate_ok (h : validate std requested = .ok out) :
    Collected std requested.entries (out, []) := by
  have all : ∀ (seen rest : List (String × SettingValue)) (acc : Config × List SettingError),
      Collected std seen acc →
        Collected std (seen ++ rest) (rest.foldl (validateEntry std) acc) := by
    intro seen rest
    induction rest generalizing seen with
    | nil => intro acc collected; rwa [List.append_nil]
    | cons e rest ih =>
        intro acc collected
        have later := ih (seen ++ [e]) _ (collected.entry e)
        rwa [List.append_assoc] at later
  have start : Collected std [] (.empty, []) := by
    constructor
    · intro key w found
      cases found
    · intro _ e he
      cases he
  have collected := all [] requested.entries (.empty, []) start
  unfold validate at h
  split at h
  next final errors folded =>
    rw [List.nil_append, folded] at collected
    split at h
    · next none =>
        obtain rfl := Except.ok.inj h
        exact none ▸ collected
    · cases h

/-- What comes back is what was asked, each read by the bound of its own setting. -/
theorem validate_checked (h : validate std requested = .ok out) (found : out.get? key = some w) :
    ∃ bound v, disposition key = some (.expose bound) ∧ requested.get? key = some v ∧
      bound.check std key v = .ok w := by
  obtain ⟨bound, v, settable, asked, passed⟩ := (validate_ok h).checked key w found
  exact ⟨bound, v, settable, SortedMap.mem_entries.mp asked, passed⟩

theorem validate_kept (h : validate std requested = .ok out) (asked : requested.get? key = some v) :
    (out.get? key).isSome :=
  (validate_ok h).kept rfl (key, v) (SortedMap.mem_entries.mpr asked)

/-- What a machine launches with is within the bounds of settings a client may give. -/
theorem settingsSchema_fits {asked overrides : Settings}
    (h : (settingsSchema std).validate asked = .ok overrides) :
    ∀ e ∈ overrides, ∃ bound, disposition e.1 = some (.expose bound) ∧ bound.Fits e.2 := by
  intro e he
  simp only [settingsSchema] at h
  cases passed : validate std (SortedMap.empty.extend asked) with
  | error errors => rw [passed] at h; cases h
  | ok out =>
      rw [passed] at h
      obtain rfl := Except.ok.inj h
      obtain ⟨bound, _, settable, _, checked⟩ :=
        validate_checked passed (SortedMap.mem_entries.mp he)
      exact ⟨bound, settable, check_fits checked⟩

end Validation

section Tokens
variable {std : StdText} {bound : Bound} {f : F64} {v : SettingValue}

theorem not_dash_of_digits {text : List Char} (h : ∀ c ∈ text, c.isDigit = true) :
    text.head? ≠ some '-' := by
  intro dash
  exact absurd (h '-' (List.mem_of_head? dash)) (by decide)

theorem Numeral.not_dash {text : List Char} {q : ℚ} (h : Numeral text q) :
    text.head? ≠ some '-' := by
  obtain ⟨digits, decimals, some_, all, rfl, _⟩ := h
  rw [List.head?_append_of_ne_nil _ some_]
  exact not_dash_of_digits fun c hc => all c (List.mem_append_left _ hc)

theorem toString_plain {i min max : Int} (plain : 0 ≤ min) (h : min ≤ i ∧ i ≤ max) :
    (∃ n : Nat, toString i = toString n ∧ min ≤ n ∧ n ≤ max) ∧
      (toString i).toList.head? ≠ some '-' := by
  obtain ⟨n, rfl⟩ := Int.eq_ofNat_of_zero_le (plain.trans h.1)
  exact ⟨⟨n, rfl, h⟩, not_dash_of_digits toString_isDigit⟩

theorem not_msb (h : 0 < units f) : f.msb = false := by
  cases sign : f.msb with
  | false => rfl
  | true =>
      simp only [units, sign, if_true] at h
      omega

/-- A small whole float is that number of times its unit. -/
theorem units_whole {negative : Bool} {n : Nat} (h : wholeNumber f = some (negative, n)) :
    negative = f.msb ∧ significand f * 2 ^ (max (exponent f) 1 - 1) = n * 2 ^ 1074 := by
  have positive : 1 ≤ max (exponent f) 1 := le_max_right _ _
  simp only [wholeNumber] at h
  generalize max (exponent f) 1 = scale at h positive ⊢
  split at h
  · cases h
  · split at h
    · next large =>
        split at h
        · obtain ⟨rfl, rfl⟩ := Prod.mk.inj (Option.some.inj h)
          refine ⟨rfl, ?_⟩
          rw [Nat.mul_assoc, ← Nat.pow_add, show scale - 1075 + 1074 = scale - 1 by omega]
        · cases h
    · next small =>
        split at h
        · next divides =>
            split at h
            · obtain ⟨rfl, rfl⟩ := Prod.mk.inj (Option.some.inj h)
              refine ⟨rfl, ?_⟩
              have split_ : 1075 - scale + (scale - 1) = 1074 := by omega
              rw [← split_, Nat.pow_add, ← Nat.mul_assoc,
                Nat.div_mul_cancel (Nat.dvd_of_mod_eq_zero divides)]
            · cases h
        · cases h

theorem numeral_whole (n : Nat) : Numeral (toString n ++ ".0").toList n := by
  refine ⟨Nat.toDigits 10 n, ['0'], Nat.toDigits_ne_nil, ?_, ?_, ?_⟩
  · intro c hc
    cases List.mem_append.mp hc with
    | inl digit => exact Nat.isDigit_of_mem_toDigits (by decide) (by decide) digit
    | inr zero => rw [List.mem_singleton.mp zero]; rfl
  · rw [String.toList_append, toList_toString]
    rfl
  · rw [Nat.ofDigitChars_append, Nat.ofDigitChars_ten_toDigits, Nat.ofDigitChars_cons,
      Nat.ofDigitChars_nil]
    simp

theorem nearest_value (h : isFinite f = true) : Nearest f (value f) := by
  refine ⟨h, fun g _ => ?_⟩
  rw [sub_self, abs_zero]
  exact abs_nonneg _

theorem float_plain (decimal : DisplaysDecimal std f) {min max : F64} (plain : 0 < units min)
    (h : isFinite f = true ∧ units min ≤ units f ∧ units f ≤ units max) :
    (Bound.float min max).Permits (renderScalar std (.float f)) ∧
      (renderScalar std (.float f)).toList.head? ≠ some '-' := by
  have sign : f.msb = false := not_msb (lt_of_lt_of_le plain h.2.1)
  obtain ⟨q, numeral, nearest⟩ :
      ∃ q, Numeral (renderScalar std (.float f)).toList q ∧ Nearest f q := by
    rw [renderScalar]
    split
    · next negative n whole =>
        obtain ⟨rfl, size⟩ := units_whole whole
        have exact_ : value f = n := by
          simp only [value, units, sign, Bool.false_eq_true, if_false, size]
          rw [Int.cast_natCast, Nat.cast_mul, Nat.cast_pow, Nat.cast_ofNat]
          exact mul_div_cancel_right₀ _ (by positivity)
        refine ⟨n, ?_, exact_ ▸ nearest_value h.1⟩
        rw [sign]
        exact numeral_whole n
    · next fraction =>
        obtain ⟨text, q, shown, numeral, nearest⟩ := decimal h.1 fraction
        simp only [sign, Bool.false_eq_true, if_false, List.nil_append] at shown nearest
        exact ⟨q, shown ▸ numeral, nearest⟩
  exact ⟨⟨q, f, numeral, nearest, h.2⟩, numeral.not_dash⟩

/-- The text of a value within a plain bound is one the bound permits, and no flag. -/
theorem rendered_plain (decimals : ∀ f, v = .float f → DisplaysDecimal std f)
    (plain : bound.plain = true) (valued : bound ≠ .toggle) (h : bound.Fits v) :
    bound.Permits (renderScalar std v) ∧ (renderScalar std v).toList.head? ≠ some '-' := by
  cases bound with
  | int min max =>
      cases v with
      | int i => exact toString_plain (of_decide_eq_true plain) h
      | bool _ | float _ | str _ => exact h.elim
  | float min max =>
      cases v with
      | float f => exact float_plain (decimals f rfl) (of_decide_eq_true plain) h
      | bool _ | int _ | str _ => exact h.elim
  | enum variants =>
      cases v with
      | str s => exact ⟨h, of_decide_eq_true (List.all_eq_true.mp plain s h)⟩
      | bool _ | int _ | float _ => exact h.elim
  | toggle => exact absurd rfl valued
  | boolValue =>
      cases v with
      | bool b =>
          cases b with
          | true => exact ⟨.inl rfl, show "true".toList.head? ≠ some '-' by decide⟩
          | false => exact ⟨.inr rfl, show "false".toList.head? ≠ some '-' by decide⟩
      | int _ | float _ | str _ => exact h.elim
  | intOrAuto min max =>
      cases v with
      | int i =>
          obtain ⟨within, dash⟩ := toString_plain (of_decide_eq_true plain) h
          exact ⟨.inr within, dash⟩
      | str s => obtain rfl := h; exact ⟨.inl rfl, show "auto".toList.head? ≠ some '-' by decide⟩
      | bool _ | float _ => exact h.elim

end Tokens

section Contribution
variable (std : StdText) (resolved out : Config) (skip : List String)

/-- The arguments one flag of the table comes to. -/
def settingWords (flag : Flag) : List String :=
  if skip.contains flag.key then []
  else ((resolved.get? flag.key).map (renderFlag std flag)).getD []

/-- The arguments of a flag whose setting an override has given: none where the caller
supplies the flag itself, the bare flag of a toggle that is on, and else the flag
and one word that this very setting's bound permits, and that is no flag. -/
inductive Schooled (flag : Flag) (bound : Bound) (v : SettingValue) : List String → Prop
  | supplied : skip.contains flag.key = true → Schooled flag bound v []
  | off : bound = .toggle → v = .bool false → Schooled flag bound v []
  | on : skip.contains flag.key = false → bound = .toggle → v = .bool true →
      Schooled flag bound v [flag.flag]
  | valued : skip.contains flag.key = false → bound ≠ .toggle →
      bound.Permits (renderScalar std v) → (renderScalar std v).toList.head? ≠ some '-' →
      Schooled flag bound v [flag.flag, renderScalar std v]

variable {std resolved out skip} {requested : Config}

theorem renderFlags_words : (renderFlags std resolved skip).1 =
    metraleFlags.flatMap (settingWords std resolved skip) := rfl

theorem get?_normalize {cfg : Config} {key : String} (auth : key ≠ "auth_token")
    (api : key ≠ "api_key") : (normalize cfg).get? key = cfg.get? key := by
  unfold normalize
  split
  · rfl
  · dsimp only
    split
    · rw [SortedMap.get?_remove, if_neg auth]
    · rw [SortedMap.get?_insert, if_neg api, SortedMap.get?_remove, if_neg auth]

theorem get?_resolve {defaults user : Config} {key : String} {bound : Bound} {v : SettingValue}
    (settable : disposition key = some (.expose bound)) (h : out.get? key = some v) :
    (resolve defaults user out).get? key = some v := by
  have auth : key ≠ "auth_token" := by
    rintro rfl
    have unknown : disposition "auth_token" = none := by decide +kernel
    rw [settable] at unknown
    cases unknown
  have api : key ≠ "api_key" := by
    rintro rfl
    have refused : disposition "api_key" =
        some (.deny ("a credential must not travel from a page into a command line, where `docker " ++
          "inspect` can read it")) := by decide +kernel
    rw [settable] at refused
    cases refused
  rw [resolve, get?_normalize auth api, SortedMap.get?_extend, h, Option.some_or]

end Contribution

/-- The words of a given setting: by the bound of its own flag. -/
theorem settingWords_schooled {std : StdText} {resolved : Config} {flag : Flag} {bound : Bound}
    {v : SettingValue} (skip : List String) (listed : flag ∈ metraleFlags)
    (settable : disposition flag.key = some (.expose bound)) (fits : bound.Fits v)
    (decimals : ∀ f, v = .float f → DisplaysDecimal std f)
    (given : resolved.get? flag.key = some v) :
    Schooled std skip flag bound v (settingWords std resolved skip flag) := by
  have kind := exposed_suits listed settable
  unfold settingWords
  cases supplied : skip.contains flag.key with
  | true => exact .supplied supplied
  | false =>
      rw [if_neg Bool.false_ne_true, given]
      simp only [Option.map_some, Option.getD_some, renderFlag]
      split
      · next toggles =>
          obtain rfl := kind.mp toggles
          cases v with
          | bool b =>
              cases b with
              | false => exact .off rfl rfl
              | true => exact .on supplied rfl rfl
          | int _ | float _ | str _ => exact fits.elim
      · next valued =>
          have bare : bound ≠ .toggle := fun toggle => by
            rw [kind.mpr toggle] at valued
            cases valued
          obtain ⟨permitted, dash⟩ := rendered_plain decimals (exposed_plain settable) bare fits
          exact .valued supplied bare permitted dash

/-- Every override a client gave that is accepted has one flag, which is rendered; what
it adds to the serve command is that flag and a numeral within the setting's own
bounds or one of its own choices; and none is left unmapped. -/
theorem overrides_stay_in_schema {std : StdText} {requested out : Config}
    (accepted : validate std requested = .ok out)
    (decimals : ∀ key f, out.get? key = some (.float f) → DisplaysDecimal std f) :
    (∀ key v, requested.get? key = some v → ∃ bound w flag,
      disposition key = some (.expose bound) ∧ bound.check std key v = .ok w ∧
        out.get? key = some w ∧ metraleFlags.filter (·.key = key) = [flag]) ∧
      ∀ (defaults user : Config) (skip : List String),
        (renderFlags std (resolve defaults user out) skip).1 =
            metraleFlags.flatMap (settingWords std (resolve defaults user out) skip) ∧
        (∀ flag ∈ metraleFlags, ∀ w, out.get? flag.key = some w → ∃ bound,
          disposition flag.key = some (.expose bound) ∧
            Schooled std skip flag bound w
              (settingWords std (resolve defaults user out) skip flag)) ∧
        ∀ dropped ∈ (renderFlags std (resolve defaults user out) skip).2,
          out.get? dropped.key = none := by
  refine ⟨fun key v given => ?_, fun defaults user skip => ⟨renderFlags_words, ?_, ?_⟩⟩
  · obtain ⟨w, found⟩ := Option.isSome_iff_exists.mp (validate_kept accepted given)
    obtain ⟨bound, v', settable, asked, checked⟩ := validate_checked accepted found
    obtain rfl := Option.some.inj (given.symm.trans asked)
    obtain ⟨flag, only, _⟩ := exposed_claimed settable
    exact ⟨bound, w, flag, settable, checked, found, only⟩
  · intro flag listed w found
    obtain ⟨bound, _, settable, _, checked⟩ := validate_checked accepted found
    exact ⟨bound, settable, settingWords_schooled skip listed settable (check_fits checked)
      (fun f float => decimals flag.key f (float ▸ found)) (get?_resolve settable found)⟩
  · intro dropped hd
    obtain ⟨entry, left_, rfl⟩ := List.mem_map.mp hd
    cases found : out.get? entry.1 with
    | none => rfl
    | some v =>
        exfalso
        obtain ⟨bound, _, settable, _⟩ := validate_checked accepted found
        obtain ⟨flag, only, _⟩ := exposed_claimed settable
        have listed := List.mem_filter.mp (only ▸ List.mem_singleton_self flag)
        have named : flag.key = entry.1 := of_decide_eq_true listed.2
        have unclaimed := (List.mem_filter.mp left_).2
        rw [List.contains_iff_mem.mpr] at unclaimed
        · cases unclaimed
        · refine List.mem_filter.mpr ⟨List.mem_map.mpr ⟨flag, listed.1, named⟩, ?_⟩
          rw [get?_resolve settable found]
          exact Bool.or_true _

/-- The text of one half, and of no other fraction. -/
def halfText : StdText where
  alphanumeric := Char.isAlphanum
  display _ := "0.5"
  display_nonzero _ _ := by decide

def half : F64 := 0x3FE0000000000000

def askedHalf : Config :=
  SortedMap.empty.insert "gpu_memory_utilization" (.float half)
    |>.insert "scheduler" (.str "slai") |>.insert "speculative" (.bool true)

theorem displays_half : DisplaysDecimal halfText half := by
  intro finite _
  have times : units half = 2 ^ 1073 := by decide +kernel
  have exact_ : value half = 1 / 2 := by
    rw [value, times, Int.cast_pow, Int.cast_ofNat, pow_succ (2 : ℚ) 1073]
    exact div_mul_cancel_left₀ (by positivity) 2 |>.trans (one_div 2).symm
  have numeral : Numeral "0.5".toList (1 / 2) :=
    ⟨['0'], ['5'], by decide, by simp, rfl, by
      rw [show Nat.ofDigitChars 10 (['0'] ++ ['5']) 0 = 5 from rfl]
      norm_num⟩
  exact ⟨"0.5".toList, 1 / 2, rfl, numeral, exact_ ▸ nearest_value finite⟩

def utilizationFlag : Flag := ⟨⟨"gpu_memory_utilization", "--gpu-memory-utilization"⟩, .value⟩

theorem overrides_stay_in_schema_half :
    validate halfText askedHalf = .ok askedHalf ∧
      (renderFlags halfText (resolve .empty .empty askedHalf) []).1 =
        ["--gpu-memory-utilization", "0.5", "--scheduler", "slai", "--speculative"] ∧
      ∃ bound, disposition "gpu_memory_utilization" = some (.expose bound) ∧
        Schooled halfText [] utilizationFlag bound (.float half)
          (settingWords halfText (resolve .empty .empty askedHalf) [] utilizationFlag) := by
  have accepted : validate halfText askedHalf = .ok askedHalf := by decide +kernel
  have entries : askedHalf.entries = [("gpu_memory_utilization", .float half),
      ("scheduler", .str "slai"), ("speculative", .bool true)] := by decide +kernel
  have floats : ∀ key f, askedHalf.get? key = some (.float f) → DisplaysDecimal halfText f := by
    intro key f given
    have listed := SortedMap.mem_entries.mpr given
    rw [entries] at listed
    simp only [List.mem_cons, Prod.mk.injEq, SettingValue.float.injEq, reduceCtorEq, and_false,
      List.not_mem_nil, or_false] at listed
    exact listed.2 ▸ displays_half
  exact ⟨accepted, by decide +kernel,
    ((overrides_stay_in_schema accepted floats).2 .empty .empty []).2.1 utilizationFlag
      (by decide +kernel) (.float half) (by decide +kernel)⟩

end Translate
end Metralectl
