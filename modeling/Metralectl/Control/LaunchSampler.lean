import Metralectl.Core.Exposition
import Metralectl.Library.Interleaving
import Metralectl.Protocol.Messages

/-!
Readings of the launches on one machine. Rates need two scrapes, and the sampler
remembers one, whichever launch it was of. A call waits for the lock on the recipe
that is sampled, then for the sampler's own, for docker, for the engine's answer and
for the sampler's lock again; between two of its waits it is not interrupted. Times
are nanoseconds.
-/
namespace Metralectl
namespace Telemetry
open Metrics Interleaving Runs

/-- Beyond this, the previous sample is too old to difference against. -/
def maxWindow : Nat := 60 * 1000000000

structure LaunchReading where
  requestsTotal : Option ℚ
  requestsActive : Option ℚ
  decodeTokensPerS : Option ℚ
  promptTokensPerS : Option ℚ
  ttftP50S : Option Number
  ttftP90S : Option Number
  acceptRate : Option ℚ
  prefixHitRate : Option ℚ
  islMean : Option ℚ
  oslMean : Option ℚ
  windowS : Option ℚ
  promptTokensTotal : Option Nat
  generationTokensTotal : Option Nat
  tpotP50S : Option Number
  queueTimeP50S : Option Number
  gpuEnergyMjTotal : Option Nat
  phase : Option LaunchPhase
  engineCommit : Option Text
deriving DecidableEq

/-- A counter's value as the whole number it counts. -/
def count (v : ℚ) : Option Nat :=
  if 0 ≤ v ∧ v.den = 1 ∧ v ≤ 2 ^ 53 then some v.num.toNat else none

section Measured
variable (s : Scrape)

def quantileOf (name : String) (q : ℚ) : Option Number :=
  (s.buckets.get? name.toList).bind (quantile · q)

/-- Read per label, because the sum of accepts and rejects has no meaning. -/
def acceptance : Option ℚ :=
  let metric := "metrale_spec_decode_verify_total".toList
  (s.sumWhere metric "outcome".toList "accept".toList).bind fun accepted =>
    (s.get metric).bind fun total => Metrics.acceptRate accepted total

/-- Where the engine has got to, from the last startup phase it entered. -/
def startup : Option LaunchPhase :=
  ((s.get "metrale_startup_phase".toList).bind count).bind fun entered =>
    if entered = 5 then some .loadingWeights
    else if entered < 11 then some .starting
    else if entered = 11 then
      match (s.get "metrale_requests_active".toList).bind count with
      | some active => some (if 0 < active then .serving else .ready)
      | none => some .ready
    else none

def isHexDigit (c : Char) : Bool := c.isDigit || ('a' ≤ c && c ≤ 'f') || ('A' ≤ c && c ≤ 'F')

def engineCommit : Option Text :=
  (s.series.get? "metrale_build_info".toList).bind fun series =>
    ((series.filterMap fun x => x.labels.get? "commit".toList).find? fun c =>
      c.length = 40 && c.all isHexDigit).map (·.map Char.toLower)

/-- Everything one scrape says on its own. -/
def pointInTime : LaunchReading where
  requestsTotal := s.get "metrale_requests_total".toList
  requestsActive := s.get "metrale_requests_active".toList
  decodeTokensPerS := none
  promptTokensPerS := none
  ttftP50S := quantileOf s "metrale_time_to_first_token_seconds" (1 / 2)
  ttftP90S := quantileOf s "metrale_time_to_first_token_seconds" (9 / 10)
  acceptRate := acceptance s
  prefixHitRate := s.get "metrale_prefix_cache_hit_rate".toList
  islMean := none
  oslMean := none
  windowS := none
  promptTokensTotal := (s.get "metrale_prompt_tokens_total".toList).bind count
  generationTokensTotal := (s.get "metrale_generation_tokens_total".toList).bind count
  tpotP50S := quantileOf s "metrale_request_tpot_seconds" (1 / 2)
  queueTimeP50S := quantileOf s "metrale_queue_time_seconds" (1 / 2)
  gpuEnergyMjTotal := (s.get "metrale_gpu_energy_millijoules_total".toList).bind count
  phase := startup s
  engineCommit := engineCommit s

end Measured

section Differences
variable (previous current : Scrape)

def rateOf (name : String) (secs : ℚ) : Option ℚ :=
  (previous.get name.toList).bind fun p => (current.get name.toList).bind fun c => rate p c secs

/-- Mean of a counter per request completed between the two scrapes. -/
def meanOver (name : String) : Option ℚ :=
  (previous.get name.toList).bind fun p => (current.get name.toList).bind fun c =>
    (previous.get "metrale_requests_total".toList).bind fun pr =>
      (current.get "metrale_requests_total".toList).bind fun cr => meanPerRequest p c pr cr

/-- A reading with the difference of two scrapes in it, so many nanoseconds apart. -/
def differenced (out : LaunchReading) (elapsed : Nat) : LaunchReading :=
  let secs : ℚ := elapsed / 1000000000
  { out with
    windowS := some secs
    decodeTokensPerS := rateOf previous current "metrale_generation_tokens_total" secs
    promptTokensPerS := rateOf previous current "metrale_prompt_tokens_total" secs
    islMean := meanOver previous current "metrale_prompt_tokens_total"
    oslMean := meanOver previous current "metrale_generation_tokens_total" }

end Differences

/-- What `LaunchSampler::sample` makes of a scrape and of the one before it. -/
def reading (last : Option (Nat × Scrape)) (now : Nat) (current : Scrape) : LaunchReading :=
  let out := pointInTime current
  match last with
  | none => out
  | some (then_, previous) =>
      let elapsed := now - then_
      if elapsed ≤ maxWindow ∧ 0 < elapsed then differenced previous current out elapsed else out

/-- A scrape that succeeded: for which recipe it was made, at which reading of the clock. -/
structure Scraped where
  recipe : RecipeId
  port : Nat
  now : Nat
  scrape : Scrape
deriving DecidableEq

/-- What the calls share: the recipe that is sampled and whether its lock is held, the
scrape the sampler remembers, and beside them every scrape there was. -/
structure Shared where
  current : Option RecipeId
  locked : Bool
  last : Option (Nat × Scrape)
  scrapes : List Scraped
deriving DecidableEq

inductive Phase where
  | arriving
  /-- Another recipe was sampled before; its lock is held, the sampler's is waited for. -/
  | resetting
  | locating
  | scraping (port now : Nat)
  | scraped (now : Nat) (current : Scrape)
  | answered (result : Except String LaunchReading)

structure Call where
  recipe : RecipeId
  phase : Phase

/-- What a call waited for. The clock is read once its port is known. -/
inductive Reply where
  | granted
  | located (port : Except String Nat) (now : Nat)
  | body (text : Except String String)

def resume (s : Shared) (c : Call) : Reply → Option (Shared × Call)
  | .granted =>
      match c.phase with
      | .arriving =>
          if s.locked then none
          else if s.current = some c.recipe then some (s, { c with phase := .locating })
          else some ({ s with locked := true }, { c with phase := .resetting })
      | .resetting =>
          -- A different engine's counters are not a baseline for this one.
          some ({ s with last := none, current := some c.recipe, locked := false },
            { c with phase := .locating })
      | .scraped now current =>
          some ({ s with last := some (now, current) },
            { c with phase := .answered (.ok (reading s.last now current)) })
      | _ => none
  | .located (.error e) _ =>
      match c.phase with
      | .locating => some (s, { c with phase := .answered (.error e) })
      | _ => none
  | .located (.ok port) now =>
      match c.phase with
      | .locating => some (s, { c with phase := .scraping port now })
      | _ => none
  | .body (.error e) =>
      match c.phase with
      | .scraping _ _ => some (s, { c with phase := .answered (.error e) })
      | _ => none
  | .body (.ok text) =>
      match c.phase with
      | .scraping port now =>
          some ({ s with scrapes := s.scrapes ++ [⟨c.recipe, port, now, parse text⟩] },
            { c with phase := .scraped now (parse text) })
      | _ => none

/-- `LocalLaunchTelemetry::sample`, for any number of recipes at once. -/
def telemetry : Object Shared Call RecipeId Reply where
  enter s recipe := some (s, ⟨recipe, .arriving⟩)
  resume := resume

def fresh : Shared := ⟨none, false, none, []⟩

/-- No rate, no mean and no window, or those between two scrapes of the recipe. -/
def Own (s : Shared) (recipe : RecipeId) (r : LaunchReading) : Prop :=
  (r.windowS = none ∧ r.decodeTokensPerS = none ∧ r.promptTokensPerS = none ∧ r.islMean = none ∧
      r.oslMean = none) ∨
    ∃ a ∈ s.scrapes, ∃ b ∈ s.scrapes, a.recipe = recipe ∧ b.recipe = recipe ∧ a.now < b.now ∧
      b.now - a.now ≤ maxWindow ∧
      r = differenced a.scrape b.scrape (pointInTime b.scrape) (b.now - a.now)

/-- A call that has its scrape and waits for the sampler's lock. -/
def Call.hasScrape (c : Call) : Bool :=
  match c.phase with
  | .scraped _ _ => true
  | _ => false

/-- A call comes to the sampler's scrape while its own recipe is the one sampled. -/
def InTurn (p : Pool Shared Call) : Act RecipeId Reply → Prop
  | .resume i .granted =>
      ∀ c ∈ p.tasks[i]?, c.hasScrape = true → p.shared.current = some c.recipe
  | _ => True

instance (p : Pool Shared Call) (a : Act RecipeId Reply) : Decidable (InTurn p a) :=
  match a with
  | .resume i .granted => inferInstanceAs (Decidable
      (∀ c ∈ p.tasks[i]?, c.hasScrape = true → p.shared.current = some c.recipe))
  | .enter _ | .resume _ (.located _ _) | .resume _ (.body _) => isTrue trivial

section Invariants
variable {s t : Shared} {c : Call}

/-- What the sampler remembers was scraped for the recipe that is sampled. -/
def Remembers (s : Shared) : Prop :=
  ∀ now scrape, s.last = some (now, scrape) →
    ∃ recipe port, s.current = some recipe ∧ ⟨recipe, port, now, scrape⟩ ∈ s.scrapes

/-- A call's own scrape is among those there were, and so are those its reading is of. -/
def Tells (s : Shared) (c : Call) : Prop :=
  match c.phase with
  | .scraped now current => ∃ port, ⟨c.recipe, port, now, current⟩ ∈ s.scrapes
  | .answered (.ok r) => Own s c.recipe r
  | _ => True

theorem Own.mono {recipe : RecipeId} {r : LaunchReading} (h : Own s recipe r)
    (more : s.scrapes ⊆ t.scrapes) : Own t recipe r := by
  cases h with
  | inl none => exact .inl none
  | inr both =>
      obtain ⟨a, ha, b, hb, facts⟩ := both
      exact .inr ⟨a, more ha, b, more hb, facts⟩

theorem Tells.mono (h : Tells s c) (more : s.scrapes ⊆ t.scrapes) : Tells t c := by
  unfold Tells at h ⊢
  cases phase : c.phase with
  | scraped now current =>
      rw [phase] at h
      obtain ⟨port, there⟩ := h
      exact ⟨port, more there⟩
  | answered result =>
      rw [phase] at h
      cases result with
      | ok r => exact Own.mono h more
      | error e => trivial
  | _ => trivial

/-- A reading of a scrape after one of the same recipe is of these two, or of itself. -/
theorem reading_own {recipe : RecipeId} {now port : Nat} {current : Scrape} (remembers : Remembers s)
    (turn : s.current = some recipe) (made : ⟨recipe, port, now, current⟩ ∈ s.scrapes) :
    Own s recipe (reading s.last now current) := by
  cases last : s.last with
  | none => exact .inl ⟨rfl, rfl, rfl, rfl, rfl⟩
  | some before =>
      obtain ⟨then_, previous⟩ := before
      obtain ⟨r, port', same, there⟩ := remembers then_ previous last
      rw [turn] at same
      cases same
      by_cases window : now - then_ ≤ maxWindow ∧ 0 < now - then_
      · refine .inr ⟨_, there, _, made, rfl, rfl, Nat.lt_of_sub_pos window.2, window.1, ?_⟩
        simp only [reading, if_pos window]
      · simp only [reading, if_neg window]
        exact .inl ⟨rfl, rfl, rfl, rfl, rfl⟩

/-- One wait ends: the call may remember, in its turn, and forget, and only ever adds to
the scrapes there were. -/
theorem resume_keeps {c' : Call} {reply : Reply} (remembers : Remembers s) (tells : Tells s c)
    (turn : reply = .granted → c.hasScrape = true → s.current = some c.recipe)
    (resumed : resume s c reply = some (t, c')) :
    Remembers t ∧ Tells t c' ∧ s.scrapes ⊆ t.scrapes := by
  obtain ⟨recipe, phase⟩ := c
  cases reply with
  | granted =>
      cases phase with
      | arriving =>
          simp only [resume] at resumed
          by_cases locked : s.locked = true
          · simp [locked] at resumed
          · rw [if_neg locked] at resumed
            by_cases same : s.current = some recipe
            · rw [if_pos same] at resumed
              cases resumed
              exact ⟨remembers, trivial, List.Subset.refl _⟩
            · rw [if_neg same] at resumed
              cases resumed
              exact ⟨remembers, trivial, List.Subset.refl _⟩
      | resetting =>
          cases resumed
          exact ⟨fun _ _ none => (nomatch none), trivial, List.Subset.refl _⟩
      | scraped now current =>
          cases resumed
          obtain ⟨port, made⟩ := tells
          have here : s.current = some recipe := turn rfl rfl
          refine ⟨fun now' scrape last => ?_, reading_own remembers here made, List.Subset.refl _⟩
          cases last
          exact ⟨recipe, port, here, made⟩
      | locating | scraping | answered => cases resumed
  | located port now =>
      cases port with
      | error e =>
          cases phase with
          | locating =>
              cases resumed
              exact ⟨remembers, trivial, List.Subset.refl _⟩
          | _ => cases resumed
      | ok port =>
          cases phase with
          | locating =>
              cases resumed
              exact ⟨remembers, trivial, List.Subset.refl _⟩
          | _ => cases resumed
  | body text =>
      cases text with
      | error e =>
          cases phase with
          | scraping =>
              cases resumed
              exact ⟨remembers, trivial, List.Subset.refl _⟩
          | _ => cases resumed
      | ok text =>
          cases phase with
          | scraping port now =>
              cases resumed
              refine ⟨fun now' scrape last => ?_,
                ⟨port, List.mem_append_right _ (List.mem_singleton.mpr rfl)⟩,
                List.subset_append_left _ _⟩
              obtain ⟨r, port', same, there⟩ := remembers now' scrape last
              exact ⟨r, port', same, List.mem_append_left _ there⟩
          | _ => cases resumed

theorem telemetry_preserves : telemetry.Preserves InTurn Remembers Tells where
  enter p recipe s c holds _ entered := by
    cases entered
    exact ⟨holds.1, trivial, holds.2⟩
  resume p i reply c s c' holds turn here resumed := by
    have tells : Tells p.shared c := holds.2 c (List.mem_of_getElem? here)
    have own : reply = .granted → c.hasScrape = true → p.shared.current = some c.recipe := by
      rintro rfl
      exact turn c here
    obtain ⟨remembers, told, more⟩ := resume_keeps holds.1 tells own resumed
    refine ⟨remembers, told, fun u hu other => ?_⟩
    have old : u ∈ p.tasks := (List.mem_or_eq_of_mem_set hu).resolve_right other
    exact (holds.2 u old).mono more

end Invariants

/-- While every call comes to the sampler's scrape in its turn, no reading mixes the
engines of two recipes, whatever the order in which calls go on. -/
theorem rates_own {as : List (Act RecipeId Reply)} {p : Pool Shared Call}
    (run : Run telemetry.step InTurn (.start fresh) as p) :
    ∀ c ∈ p.tasks, ∀ r, c.phase = .answered (.ok r) → Own p.shared c.recipe r := by
  have start : (Pool.start fresh : Pool Shared Call).Holds Remembers Tells :=
    ⟨fun _ _ none => (nomatch none), fun _ none => absurd none List.not_mem_nil⟩
  intro c there r answered
  have told := (telemetry_preserves.run start run).2 c there
  rw [Tells, answered] at told
  exact told

section Fixed

def qwen : RecipeId := ⟨"qwen3", rfl⟩
def gemma : RecipeId := ⟨"gemma4", rfl⟩

def before : String :=
  "metrale_requests_total 10\nmetrale_prompt_tokens_total 1000\n" ++
    "metrale_generation_tokens_total 100\n"

def after : String :=
  "metrale_requests_total 14\nmetrale_prompt_tokens_total 3048\n" ++
    "metrale_generation_tokens_total 340\n"

/-- The scrape of an engine that has counted so much. -/
def counted (requests prompt generated : ℚ) : Scrape :=
  ((Scrape.empty.record "metrale_requests_total".toList .empty requests).record
    "metrale_prompt_tokens_total".toList .empty prompt).record
    "metrale_generation_tokens_total".toList .empty generated

theorem parse_before : parse before = counted 10 1000 100 := by
  unfold parse lines before counted
  rw [String.toList_append]
  repeat rw [String.toList_ofList]
  decide +kernel

theorem parse_after : parse after = counted 14 3048 340 := by
  unfold parse lines after counted
  rw [String.toList_append]
  repeat rw [String.toList_ofList]
  decide +kernel

/-- Two calls for one recipe, two seconds apart. -/
def twice : List (Act RecipeId Reply) :=
  [.enter qwen, .resume 0 .granted, .resume 0 .granted, .resume 0 (.located (.ok 8001) 0),
    .resume 0 (.body (.ok before)), .resume 0 .granted, .enter qwen, .resume 1 .granted,
    .resume 1 (.located (.ok 8001) 2000000000), .resume 1 (.body (.ok after)), .resume 1 .granted]

theorem rates_own_twice : ∃ p, Run telemetry.step InTurn (.start fresh) twice p ∧
    ∃ c ∈ p.tasks, ∃ r, c.phase = .answered (.ok r) ∧ r.decodeTokensPerS = some 120 ∧
      r.islMean = some 512 ∧ Own p.shared qwen r := by
  have run : Run telemetry.step InTurn (.start fresh) twice _ := Run.of_replay rfl
  refine ⟨_, run, _, List.mem_cons_of_mem _ List.mem_cons_self, _, rfl, ?_, ?_, ?_⟩
  · rw [parse_before, parse_after]
    decide +kernel
  · rw [parse_before, parse_after]
    decide +kernel
  · exact rates_own run _ (List.mem_cons_of_mem _ List.mem_cons_self) _ (by rfl)

/-- A call for another recipe comes while the first waits for its engine. The first leaves
its scrape for the third to be compared with, though the engine of the third has done
nothing between its two scrapes. -/
def overtaken : List (Act RecipeId Reply) :=
  [.enter qwen, .resume 0 .granted, .resume 0 .granted, .resume 0 (.located (.ok 8001) 1000000000),
    .enter gemma, .resume 1 .granted, .resume 1 .granted, .resume 1 (.located (.ok 8002) 2000000000),
    .resume 1 (.body (.ok after)), .resume 1 .granted, .resume 0 (.body (.ok before)),
    .resume 0 .granted, .enter gemma, .resume 2 .granted,
    .resume 2 (.located (.ok 8002) 3000000000), .resume 2 (.body (.ok after)), .resume 2 .granted]

theorem rates_own_overtaken : ∃ p, Run telemetry.step Free (.start fresh) overtaken p ∧
    ∃ c ∈ p.tasks, ∃ r, c.phase = .answered (.ok r) ∧ ¬ Own p.shared c.recipe r := by
  refine ⟨_, Run.of_replay rfl, _, List.mem_cons_of_mem _ (List.mem_cons_of_mem _ List.mem_cons_self),
    _, rfl, ?_⟩
  intro own
  cases own with
  | inl none =>
      have some_ := none.1
      revert some_
      decide +kernel
  | inr both =>
      obtain ⟨a, ha, b, hb, mine, mine', later, _, is_⟩ := both
      -- gemma4 was scraped at two and at three seconds, so the window would be one second.
      have only {x : Scraped} (hx : x ∈ [⟨gemma, 8002, 2000000000, parse after⟩,
          ⟨qwen, 8001, 1000000000, parse before⟩, ⟨gemma, 8002, 3000000000, parse after⟩])
          (own : x.recipe = gemma) : x.now = 2000000000 ∨ x.now = 3000000000 := by
        simp only [List.mem_cons, List.not_mem_nil, or_false] at hx
        rcases hx with rfl | rfl | rfl
        · exact .inl rfl
        · exact absurd own (by decide)
        · exact .inr rfl
      have apart : b.now - a.now = 1000000000 := by
        have first := only ha mine
        have second := only hb mine'
        omega
      have window : some (((2000000000 : Nat) : ℚ) / 1000000000) =
          some (((b.now - a.now : Nat) : ℚ) / 1000000000) := congrArg LaunchReading.windowS is_
      rw [apart] at window
      exact absurd window (by decide +kernel)

end Fixed
end Telemetry
end Metralectl
