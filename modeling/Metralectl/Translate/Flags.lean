import Metralectl.Library.SortedMap
import Metralectl.Rank.Rendering
import Mathlib.Data.String.Basic

/-!
How a recipe's settings become serve flags: the configuration chain, the flag
table, and how a scalar is written on a command line. Fractional numbers stay bit
patterns; a whole one is written out here, any other by the standard library.
-/
namespace Metralectl
namespace Translate
open SortedMaps Rendering

abbrev Config := SortedMap String SettingValue

/-- The exponent of a float, as it is stored. -/
def exponent (f : F64) : Nat := f.toNat / 2 ^ 52 % 2 ^ 11

def significand (f : F64) : Nat :=
  if exponent f = 0 then f.toNat % 2 ^ 52 else 2 ^ 52 + f.toNat % 2 ^ 52

/-- The whole number a float is, with its sign, if it is one below 10^16. -/
def wholeNumber (f : F64) : Option (Bool × Nat) :=
  let scale := max (exponent f) 1
  if exponent f = 2047 then none
  else if 1075 ≤ scale then
    let n := significand f * 2 ^ (scale - 1075)
    if n < 10 ^ 16 then some (f.msb, n) else none
  else if significand f % 2 ^ (1075 - scale) = 0 then
    let n := significand f / 2 ^ (1075 - scale)
    if n < 10 ^ 16 then some (f.msb, n) else none
  else none

/-- What the standard library says of a character, and how it writes a float that is
no small whole number: as the shortest text the float is read back from. -/
structure StdText where
  alphanumeric : Char → Bool
  display : F64 → String
  display_nonzero : ∀ f, wholeNumber f = none → display f ≠ "0.0" ∧ display f ≠ "-0.0"

/-- A scalar on the command line. Whole floats keep their `.0`. -/
def renderScalar (std : StdText) : SettingValue → String
  | .bool b => toString b
  | .int i => toString i
  | .float f =>
      match wholeNumber f with
      | some (negative, n) => (if negative then "-" else "") ++ toString n ++ ".0"
      | none => std.display f
  | .str s => s

/-- Whether a bare toggle of this value is given. The text `false` is. -/
def isTruthy : SettingValue → Bool
  | .bool b => b
  | .int i => i ≠ 0
  | .float f => f.toNat % 2 ^ 63 ≠ 0
  | .str s => s ≠ ""

/-- How a flag consumes its value: it is followed by it, or it stands bare when the
value is truthy. -/
inductive FlagKind where
  | value
  | boolToggle
deriving DecidableEq

structure Flag extends FlagSpec where
  kind : FlagKind
deriving DecidableEq

/-- Every serve flag the runtime understands, in the order they are emitted. -/
def metraleFlags : List Flag :=
  [
    ⟨⟨"port", "--port"⟩, .value⟩,
    ⟨⟨"host", "--host"⟩, .value⟩,
    ⟨⟨"tensor_parallel", "--tp-size"⟩, .value⟩,
    ⟨⟨"gpu_memory_utilization", "--gpu-memory-utilization"⟩, .value⟩,
    ⟨⟨"max_model_len", "--max-seq-len"⟩, .value⟩,
    ⟨⟨"max_num_seqs", "--max-num-seqs"⟩, .value⟩,
    ⟨⟨"max_num_batched_tokens", "--max-prefill-tokens"⟩, .value⟩,
    ⟨⟨"served_model_name", "--model-name"⟩, .value⟩,
    ⟨⟨"kv_cache_dtype", "--kv-cache-dtype"⟩, .value⟩,
    ⟨⟨"ep_size", "--ep-size"⟩, .value⟩,
    ⟨⟨"max_batch_size", "--max-batch-size"⟩, .value⟩,
    ⟨⟨"block_size", "--block-size"⟩, .value⟩,
    ⟨⟨"kv_high_precision_layers", "--kv-high-precision-layers"⟩, .value⟩,
    ⟨⟨"tool_call_parser", "--tool-call-parser"⟩, .value⟩,
    ⟨⟨"tool_max_tokens", "--tool-max-tokens"⟩, .value⟩,
    ⟨⟨"tool_grammar", "--tool-grammar"⟩, .value⟩,
    ⟨⟨"fp8_kv_calibration_tokens", "--fp8-kv-calibration-tokens"⟩, .value⟩,
    ⟨⟨"scheduler", "--scheduler"⟩, .value⟩,
    ⟨⟨"tbt_deadline_ms", "--tbt-deadline-ms"⟩, .value⟩,
    ⟨⟨"max_prefill_tokens", "--max-prefill-tokens"⟩, .value⟩,
    ⟨⟨"oom_guard_mb", "--oom-guard-mb"⟩, .value⟩,
    ⟨⟨"ssm_cache_slots", "--ssm-cache-slots"⟩, .value⟩,
    ⟨⟨"ssm_checkpoint_interval", "--ssm-checkpoint-interval"⟩, .value⟩,
    ⟨⟨"mtp_quantization", "--mtp-quantization"⟩, .value⟩,
    ⟨⟨"mtp_vocab", "--mtp-vocab"⟩, .value⟩,
    ⟨⟨"num_drafts", "--num-drafts"⟩, .value⟩,
    ⟨⟨"draft_model", "--draft-model"⟩, .value⟩,
    ⟨⟨"dflash_gamma", "--dflash-gamma"⟩, .value⟩,
    ⟨⟨"dflash_window_size", "--dflash-window-size"⟩, .value⟩,
    ⟨⟨"max_thinking_budget", "--max-thinking-budget"⟩, .value⟩,
    ⟨⟨"model_from_path", "--model-from-path"⟩, .value⟩,
    ⟨⟨"cache_dir", "--cache-dir"⟩, .value⟩,
    ⟨⟨"gpu_ordinal", "--gpu-ordinal"⟩, .value⟩,
    ⟨⟨"high_speed_swap_dir", "--high-speed-swap-dir"⟩, .value⟩,
    ⟨⟨"high_speed_swap_gb", "--high-speed-swap-gb"⟩, .value⟩,
    ⟨⟨"high_speed_swap_resident_blocks", "--high-speed-swap-resident-blocks"⟩, .value⟩,
    ⟨⟨"high_speed_swap_rank", "--high-speed-swap-rank"⟩, .value⟩,
    ⟨⟨"high_speed_swap_qd", "--high-speed-swap-qd"⟩, .value⟩,
    ⟨⟨"high_speed_swap_cache_blocks_per_seq", "--high-speed-swap-cache-blocks-per-seq"⟩, .value⟩,
    ⟨⟨"enable_prefix_caching", "--enable-prefix-caching"⟩, .boolToggle⟩,
    ⟨⟨"speculative", "--speculative"⟩, .boolToggle⟩,
    ⟨⟨"self_speculative", "--self-speculative"⟩, .boolToggle⟩,
    ⟨⟨"ngram_speculative", "--ngram-speculative"⟩, .boolToggle⟩,
    ⟨⟨"dflash", "--dflash"⟩, .boolToggle⟩,
    ⟨⟨"disable_thinking", "--disable-thinking"⟩, .boolToggle⟩,
    ⟨⟨"high_speed_swap", "--high-speed-swap"⟩, .boolToggle⟩,
    ⟨⟨"require_auth", "--require-auth"⟩, .boolToggle⟩,
    ⟨⟨"api_key", "--auth-token"⟩, .value⟩,
    ⟨⟨"lm_head_dtype", "--lm-head-dtype"⟩, .value⟩,
    ⟨⟨"ssm_h_dtype", "--ssm-h-dtype"⟩, .value⟩,
    ⟨⟨"gdn_fused_norm", "--gdn-fused-norm"⟩, .boolToggle⟩,
    ⟨⟨"ssm_batched_recurrent", "--ssm-batched-recurrent"⟩, .value⟩,
    ⟨⟨"no_ssm_tail_midchunk", "--no-ssm-tail-midchunk"⟩, .boolToggle⟩,
    ⟨⟨"mtp_gate", "--mtp-gate"⟩, .value⟩,
    ⟨⟨"prefill_varlen_batch", "--prefill-varlen-batch"⟩, .boolToggle⟩,
    ⟨⟨"request_timeout", "--request-timeout"⟩, .value⟩,
    ⟨⟨"video_allow_ffmpeg", "--video-allow-ffmpeg"⟩, .boolToggle⟩,
    ⟨⟨"scheduler_config", "--scheduler-config"⟩, .value⟩,
    ⟨⟨"telemetry", "--telemetry"⟩, .value⟩,
    ⟨⟨"w4a4_downcast", "--w4a4-downcast"⟩, .boolToggle⟩,
    ⟨⟨"w4a4_downcast_wide", "--w4a4-downcast-wide"⟩, .boolToggle⟩,
    ⟨⟨"no_high_speed_swap_graph", "--no-high-speed-swap-graph"⟩, .boolToggle⟩
  ]

/-- A resolved key that no flag in the table claims. -/
structure UnmappedKey where
  key : String
  rendered : String
deriving DecidableEq

/-- The arguments one flag contributes. -/
def renderFlag (std : StdText) (flag : Flag) (value : SettingValue) : List String :=
  match flag.kind with
  | .boolToggle => if isTruthy value then [flag.flag] else []
  | .value => [flag.flag, renderScalar std value]

/-- The serve flags of a configuration, and the keys the table does not claim. A
skipped key is claimed and not emitted. -/
def renderFlags (std : StdText) (resolved : Config) (skip : List String) :
    List String × List UnmappedKey :=
  let emitted := metraleFlags.flatMap fun flag =>
    if skip.contains flag.key then []
    else ((resolved.get? flag.key).map (renderFlag std flag)).getD []
  let claimed := metraleFlags.map (·.key) |>.filter fun key =>
    skip.contains key || (resolved.get? key).isSome
  let unmapped := resolved.entries.filter fun e => !claimed.contains e.1
  (emitted, unmapped.map fun e => ⟨e.1, renderScalar std e.2⟩)

/-- Fold alias spellings onto their canonical keys; the canonical key wins. -/
def normalize (cfg : Config) : Config :=
  match cfg.get? "auth_token" with
  | none => cfg
  | some value =>
      let rest := cfg.remove "auth_token"
      if (rest.get? "api_key").isSome then rest else rest.insert "api_key" value

/-- Overrides beat the user's configuration, which beats the recipe's defaults. -/
def resolve (recipeDefaults user overrides : Config) : Config :=
  normalize ((recipeDefaults.extend user.entries).extend overrides.entries)

def validateNoAliasConflict (resolved : Config) : Except AliasConflict Unit :=
  aliasConflict [] resolved.entries (metraleFlags.map (·.toFlagSpec))

end Translate
end Metralectl
