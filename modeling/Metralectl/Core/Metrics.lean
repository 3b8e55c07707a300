import Mathlib.Algebra.Order.Field.Rat
import Mathlib.Algebra.Order.Field.Basic
import Mathlib.Tactic.Linarith
import Mathlib.Tactic.NormNum

/-!
The arithmetic on what an engine's metrics say: rates and means between two scrapes,
and quantiles of a histogram. Numbers are exact; what no rational number is keeps its
own constructor.
-/
namespace Metralectl
namespace Metrics

inductive Number where
  | finite (value : ℚ)
  | infinity
  | negInfinity
  | nan
deriving DecidableEq

namespace Number

/-- Less, as a comparison of floating-point numbers has it. -/
def lt : Number → Number → Prop
  | .finite a, .finite b => a < b
  | .finite _, .infinity | .negInfinity, .finite _ | .negInfinity, .infinity => True
  | _, _ => False

def isInfinite : Number → Bool
  | .infinity | .negInfinity => true
  | _ => false

/-- The point so far between two edges. From or to what is not finite there is none. -/
def between (lower edge : Number) (frac : ℚ) : Number :=
  match lower, edge with
  | .finite l, .finite e => .finite (l + (e - l) * frac)
  | _, _ => .nan

end Number

/-- A rate derived from two scrapes of the same counter. A counter that went backwards
is a restart. -/
def rate (previous current seconds : ℚ) : Option ℚ :=
  if seconds ≤ 0 then none
  else if current < previous then none
  else some ((current - previous) / seconds)

/-- The mean of a per-request quantity over an interval. -/
def meanPerRequest (prevTotal curTotal prevRequests curRequests : ℚ) : Option ℚ :=
  if curTotal < prevTotal ∨ curRequests < prevRequests then none
  else
    let requests := curRequests - prevRequests
    if requests ≤ 0 then none else some ((curTotal - prevTotal) / requests)

/-- The share of drafted tokens the model accepted. -/
def acceptRate (accepted drafted : ℚ) : Option ℚ :=
  if drafted ≤ 0 then none else some (max 0 (min 1 (accepted / drafted)))

/-- Upper bounds of a histogram's buckets, each with its cumulative count. -/
abbrev Buckets := List (Number × ℚ)

/-- The loop of `quantile`, past a bucket with the given edge and count. -/
def within (want : ℚ) : Number → ℚ → Buckets → Option Number
  | _, _, [] => none
  | lowerBound, lowerCount, (edge, count) :: rest =>
      if want ≤ count then
        if edge.isInfinite then none
        else
          let span := count - lowerCount
          if span ≤ 0 then some edge
          else some (lowerBound.between edge ((want - lowerCount) / span))
      else within want edge count rest

/-- Estimate a quantile from cumulative histogram buckets. -/
def quantile (buckets : Buckets) (q : ℚ) : Option Number :=
  if ¬ (0 ≤ q ∧ q ≤ 1) ∨ buckets = [] then none
  else
    match buckets.getLast? with
    | none => none
    | some (_, total) => if total ≤ 0 then none else within (q * total) (.finite 0) 0 buckets

section Quantiles

/-- Above an edge and a count: every edge is above the one before it, and no count is
below the one before it. -/
def Cumulative : Number → ℚ → Buckets → Prop
  | _, _, [] => True
  | lower, low, (edge, count) :: rest => lower.lt edge ∧ low ≤ count ∧ Cumulative edge count rest

/-- The first bucket whose count reaches what is wanted, by its two edges; the first of
all begins at `lower`. -/
def FirstReaching (lower : Number) (b : Buckets) (want : ℚ) (low edge : Number) : Prop :=
  ∃ (before : Buckets) (count : ℚ) (after : Buckets), b = before ++ (edge, count) :: after ∧ (∀ x ∈ before, x.2 < want) ∧
    want ≤ count ∧ low = ((before.getLast?).map (·.1)).getD lower

/-- The count of the last bucket. -/
def total (b : Buckets) : ℚ := ((b.getLast?).map (·.2)).getD 0

theorem FirstReaching.head {lower edge : Number} {count want : ℚ} {rest : Buckets}
    (reached : want ≤ count) : FirstReaching lower ((edge, count) :: rest) want lower edge :=
  ⟨[], count, rest, rfl, fun _ hx => absurd hx List.not_mem_nil, reached, rfl⟩

theorem FirstReaching.tail {lower edge low high : Number} {count want : ℚ} {rest : Buckets}
    (short : count < want) (later : FirstReaching edge rest want low high) :
    FirstReaching lower ((edge, count) :: rest) want low high := by
  obtain ⟨before, reached, after, rfl, below, enough, rfl⟩ := later
  refine ⟨(edge, count) :: before, reached, after, rfl,
    List.forall_mem_cons.mpr ⟨short, below⟩, enough, ?_⟩
  cases before with
  | nil => rfl
  | cons => simp [List.getLast?_cons]

/-- A list has one first bucket. -/
theorem FirstReaching.cases_cons {lower edge low high : Number} {count want : ℚ} {rest : Buckets}
    (first : FirstReaching lower ((edge, count) :: rest) want low high) :
    (want ≤ count ∧ low = lower ∧ high = edge) ∨
      (count < want ∧ FirstReaching edge rest want low high) := by
  obtain ⟨before, reached, after, same, below, enough, rfl⟩ := first
  cases before with
  | nil =>
      obtain ⟨first, rfl⟩ := List.cons.inj same
      cases first
      exact .inl ⟨enough, rfl, rfl⟩
  | cons x xs =>
      obtain ⟨first, rfl⟩ := List.cons.inj same
      subst first
      refine .inr ⟨below _ List.mem_cons_self, xs, reached, after, rfl,
        fun y hy => below y (List.mem_cons_of_mem _ hy), enough, ?_⟩
      cases xs with
      | nil => rfl
      | cons => simp [List.getLast?_cons]

variable {want l c : ℚ} {b : Buckets}

theorem edge_above {edge : Number} (above : (Number.finite l).lt edge) :
    (∃ e, edge = .finite e ∧ l < e) ∨ edge = .infinity := by
  cases edge with
  | finite e => exact .inl ⟨e, rfl, above⟩
  | infinity => exact .inr rfl
  | negInfinity | nan => exact above.elim

/-- Nothing is above an infinite edge. -/
theorem Cumulative.last (h : Cumulative .infinity c b) : b = [] := by
  cases b with
  | nil => rfl
  | cons x rest => exact h.1.elim

/-- In the bucket that is reached, an answer is on the line between its two corners. -/
theorem within_head {e n : ℚ} {rest : Buckets} (reached : want ≤ n) :
    within want (.finite l) c ((.finite e, n) :: rest) =
      some (.finite (if n ≤ c then e else l + (e - l) * ((want - c) / (n - c)))) := by
  by_cases flat : n ≤ c
  · simp [within, reached, Number.isInfinite, flat]
  · simp [within, reached, Number.isInfinite, flat, Number.between]

/-- The line is between the edges, and rises. -/
theorem line_bounds {e n : ℚ} (above : l < e) (from_ : c ≤ want) (reached : want ≤ n) :
    l ≤ (if n ≤ c then e else l + (e - l) * ((want - c) / (n - c))) ∧
      (if n ≤ c then e else l + (e - l) * ((want - c) / (n - c))) ≤ e := by
  by_cases flat : n ≤ c
  · rw [if_pos flat]
    exact ⟨le_of_lt above, le_refl e⟩
  · rw [if_neg flat]
    have span : 0 < n - c := by linarith
    have width : 0 ≤ e - l := by linarith
    have low : 0 ≤ (want - c) / (n - c) := div_nonneg (by linarith) (le_of_lt span)
    have high : (want - c) / (n - c) ≤ 1 := (div_le_one span).mpr (by linarith)
    constructor
    · linarith [mul_nonneg width low]
    · linarith [mul_le_mul_of_nonneg_left high width]

theorem line_mono {e n want' : ℚ} (above : l < e) (more : want ≤ want') :
    (if n ≤ c then e else l + (e - l) * ((want - c) / (n - c))) ≤
      (if n ≤ c then e else l + (e - l) * ((want' - c) / (n - c))) := by
  by_cases flat : n ≤ c
  · rw [if_pos flat, if_pos flat]
  · rw [if_neg flat, if_neg flat]
    have span : 0 ≤ n - c := by linarith
    have frac : (want - c) / (n - c) ≤ (want' - c) / (n - c) :=
      div_le_div_of_nonneg_right (by linarith) span
    linarith [mul_le_mul_of_nonneg_left frac (by linarith : 0 ≤ e - l)]

theorem within_skips {e n : ℚ} {rest : Buckets} (short : n < want) :
    within want (.finite l) c ((.finite e, n) :: rest) = within want (.finite e) n rest := by
  simp [within, not_le.mpr short]

/-- An answer lies in the first bucket that is reached. -/
theorem within_some {x : Number} (h : Cumulative (.finite l) c b) (from_ : c ≤ want)
    (answer : within want (.finite l) c b = some x) :
    ∃ low edge v, FirstReaching (.finite l) b want (.finite low) (.finite edge) ∧ x = .finite v ∧
      l ≤ low ∧ low ≤ v ∧ v ≤ edge := by
  induction b generalizing l c with
  | nil => cases answer
  | cons head rest ih =>
      obtain ⟨edge, n⟩ := head
      obtain ⟨above, grown, later⟩ := h
      cases edge_above above with
      | inl finite =>
          obtain ⟨e, rfl, higher⟩ := finite
          by_cases reached : want ≤ n
          · rw [within_head reached] at answer
            cases answer
            obtain ⟨lower, upper⟩ := line_bounds higher from_ reached
            exact ⟨l, e, _, .head reached, rfl, le_refl l, lower, upper⟩
          · have short : n < want := not_le.mp reached
            rw [within_skips short] at answer
            obtain ⟨low, edge, v, first, same, after, bounds⟩ := ih later (le_of_lt short) answer
            exact ⟨low, edge, v, first.tail short, same, le_trans (le_of_lt higher) after, bounds⟩
      | inr infinite =>
          subst infinite
          rw [later.last] at answer
          by_cases reached : want ≤ n <;> simp [within, reached, Number.isInfinite] at answer

/-- There is none exactly when no count is enough, or the first that is has no edge. -/
theorem within_none (h : Cumulative (.finite l) c b) :
    within want (.finite l) c b = none ↔
      (∀ x ∈ b, x.2 < want) ∨ ∃ low, FirstReaching (.finite l) b want low .infinity := by
  induction b generalizing l c with
  | nil => exact iff_of_true rfl (.inl fun x hx => absurd hx List.not_mem_nil)
  | cons head rest ih =>
      obtain ⟨edge, n⟩ := head
      obtain ⟨above, grown, later⟩ := h
      by_cases reached : want ≤ n
      · have some_enough : ¬ ∀ x ∈ (edge, n) :: rest, x.2 < want := fun all =>
          absurd (all _ List.mem_cons_self) (not_lt.mpr reached)
        cases edge_above above with
        | inl finite =>
            obtain ⟨e, rfl, higher⟩ := finite
            rw [within_head reached]
            refine iff_of_false nofun ?_
            intro either
            obtain ⟨low, first⟩ := either.resolve_left some_enough
            cases first.cases_cons with
            | inl here => cases here.2.2
            | inr behind => exact absurd behind.1 (not_lt.mpr reached)
        | inr infinite =>
            subst infinite
            refine iff_of_true (by simp [within, reached, Number.isInfinite]) (.inr ⟨_, .head reached⟩)
      · have short : n < want := not_le.mp reached
        cases edge_above above with
        | inl finite =>
            obtain ⟨e, rfl, higher⟩ := finite
            rw [within_skips short, ih later, List.forall_mem_cons]
            constructor
            · rintro (all | ⟨low, first⟩)
              · exact .inl ⟨short, all⟩
              · exact .inr ⟨low, first.tail short⟩
            · rintro (all | ⟨low, first⟩)
              · exact .inl all.2
              · exact (first.cases_cons.resolve_left fun here => reached here.1).elim
                  fun _ behind => .inr ⟨low, behind⟩
        | inr infinite =>
            subst infinite
            cases later.last
            exact iff_of_true (by simp [within, reached]) (.inl (by simpa using short))

/-- More is found no lower. -/
theorem within_mono {want' : ℚ} {x y : Number} (h : Cumulative (.finite l) c b) (from_ : c ≤ want)
    (more : want ≤ want') (first : within want (.finite l) c b = some x)
    (second : within want' (.finite l) c b = some y) :
    ∃ v w, x = .finite v ∧ y = .finite w ∧ v ≤ w := by
  induction b generalizing l c with
  | nil => cases first
  | cons head rest ih =>
      obtain ⟨edge, n⟩ := head
      obtain ⟨above, grown, later⟩ := h
      cases edge_above above with
      | inl finite =>
          obtain ⟨e, rfl, higher⟩ := finite
          by_cases reached : want ≤ n
          · rw [within_head reached] at first
            cases first
            by_cases again : want' ≤ n
            · rw [within_head again] at second
              cases second
              exact ⟨_, _, rfl, rfl, line_mono higher more⟩
            · have short : n < want' := not_le.mp again
              rw [within_skips short] at second
              obtain ⟨low, edge, w, _, rfl, after, lower, _⟩ :=
                within_some later (le_of_lt short) second
              have upper := (line_bounds higher from_ reached).2
              exact ⟨_, w, rfl, rfl, le_trans upper (le_trans after lower)⟩
          · have short : n < want := not_le.mp reached
            rw [within_skips short] at first
            rw [within_skips (lt_of_lt_of_le short more)] at second
            exact ih later (le_of_lt short) first second
      | inr infinite =>
          subst infinite
          rw [later.last] at first
          by_cases reached : want ≤ n <;> simp [within, reached, Number.isInfinite] at first

theorem Cumulative.counts {lower : Number} (h : Cumulative lower c b) : ∀ x ∈ b, c ≤ x.2 := by
  induction b generalizing lower c with
  | nil => exact fun _ hx => absurd hx List.not_mem_nil
  | cons head rest ih =>
      obtain ⟨_, grown, later⟩ := h
      exact List.forall_mem_cons.mpr ⟨grown, fun x hx => le_trans grown (ih later x hx)⟩

/-- The last bucket counts everything. -/
theorem total_mem (some_ : b ≠ []) : ∃ edge, (edge, total b) ∈ b := by
  rw [total, List.getLast?_eq_some_getLast some_]
  exact ⟨_, List.getLast_mem some_⟩

theorem quantile_eq_none {q : ℚ} (bad : (q < 0 ∨ 1 < q) ∨ b = [] ∨ total b ≤ 0) :
    quantile b q = none := by
  unfold quantile
  by_cases refused : ¬ (0 ≤ q ∧ q ≤ 1) ∨ b = []
  · rw [if_pos refused]
  · rw [if_neg refused]
    rw [not_or, not_not] at refused
    have none_counted : total b ≤ 0 := by
      rcases bad with outside | empty | none_counted
      · rcases outside with below | above
        · exact absurd refused.1.1 (not_le.mpr below)
        · exact absurd refused.1.2 (not_le.mpr above)
      · exact absurd empty refused.2
      · exact none_counted
    rw [total, List.getLast?_eq_some_getLast refused.2] at none_counted
    rw [List.getLast?_eq_some_getLast refused.2]
    exact if_pos none_counted

theorem quantile_eq_within {q : ℚ} (low : 0 ≤ q) (high : q ≤ 1) (counted : 0 < total b) :
    quantile b q = within (q * total b) (.finite 0) 0 b := by
  have some_ : b ≠ [] := by
    rintro rfl
    exact lt_irrefl 0 counted
  have accepted : ¬ (¬ (0 ≤ q ∧ q ≤ 1) ∨ b = []) := by
    rw [not_or, not_not]
    exact ⟨⟨low, high⟩, some_⟩
  rw [total, List.getLast?_eq_some_getLast some_] at counted ⊢
  rw [quantile, if_neg accepted, List.getLast?_eq_some_getLast some_]
  exact if_neg (not_le.mpr counted)

/-- A quantile that is answered was looked for. -/
theorem quantile_some {q : ℚ} {x : Number} (answer : quantile b q = some x) :
    0 ≤ q ∧ q ≤ 1 ∧ 0 < total b ∧ within (q * total b) (.finite 0) 0 b = some x := by
  have good : ¬ ((q < 0 ∨ 1 < q) ∨ b = [] ∨ total b ≤ 0) := fun bad => by
    rw [quantile_eq_none bad] at answer
    cases answer
  rw [not_or, not_or, not_or, not_lt, not_lt, not_le] at good
  refine ⟨good.1.1, good.1.2, good.2.2, ?_⟩
  rwa [quantile_eq_within good.1.1 good.1.2 good.2.2] at answer

/-- Quantiles of a cumulative histogram are ordered, lie in the first bucket that is
reached, and are missing only out of range, of nothing, or beyond the last edge. -/
theorem quantile_ordered (h : Cumulative (.finite 0) 0 b) :
    (∀ q q' x y, q ≤ q' → quantile b q = some x → quantile b q' = some y →
      ∃ v w, x = .finite v ∧ y = .finite w ∧ v ≤ w) ∧
    (∀ q x, quantile b q = some x → ∃ low edge v,
      FirstReaching (.finite 0) b (q * total b) (.finite low) (.finite edge) ∧ x = .finite v ∧
        low ≤ v ∧ v ≤ edge) ∧
    ∀ q, quantile b q = none ↔ (q < 0 ∨ 1 < q) ∨ b = [] ∨ total b = 0 ∨
      ∃ low, FirstReaching (.finite 0) b (q * total b) low .infinity := by
  refine ⟨fun q q' x y more first second => ?_, fun q x answer => ?_, fun q => ?_⟩
  · obtain ⟨low, _, counted, found⟩ := quantile_some first
    obtain ⟨_, _, _, found'⟩ := quantile_some second
    exact within_mono h (mul_nonneg low (le_of_lt counted))
      (mul_le_mul_of_nonneg_right more (le_of_lt counted)) found found'
  · obtain ⟨low, _, counted, found⟩ := quantile_some answer
    obtain ⟨lower, edge, v, first, same, _, bounds⟩ :=
      within_some h (mul_nonneg low (le_of_lt counted)) found
    exact ⟨lower, edge, v, first, same, bounds⟩
  · by_cases bad : (q < 0 ∨ 1 < q) ∨ b = [] ∨ total b ≤ 0
    · refine iff_of_true (quantile_eq_none bad) ?_
      rcases bad with outside | empty | none_counted
      · exact .inl outside
      · exact .inr (.inl empty)
      · by_cases empty : b = []
        · exact .inr (.inl empty)
        · obtain ⟨edge, last⟩ := total_mem empty
          exact .inr (.inr (.inl (le_antisymm none_counted (h.counts _ last))))
    · rw [not_or, not_or, not_or, not_lt, not_lt, not_le] at bad
      obtain ⟨⟨low, high⟩, some_, counted⟩ := bad
      rw [quantile_eq_within low high counted, within_none h]
      obtain ⟨edge, last⟩ := total_mem some_
      have reached : ¬ ∀ x ∈ b, x.2 < q * total b := fun all => by
        have most : q * total b ≤ total b := mul_le_of_le_one_left (le_of_lt counted) high
        exact absurd (all _ last) (not_lt.mpr most)
      have inside : ¬ (q < 0 ∨ 1 < q) := not_or.mpr ⟨not_lt.mpr low, not_lt.mpr high⟩
      simp only [reached, inside, some_, ne_of_gt counted, false_or]

end Quantiles

/-- Ten requests in two buckets and one beyond them. -/
def latencies : Buckets := [(.finite 1, 4), (.finite 2, 4), (.finite 4, 9), (.infinity, 10)]

theorem quantile_ordered_latencies : quantile latencies (1 / 2) = some (.finite (12 / 5)) ∧
    quantile latencies 1 = none ∧
      ∃ low, FirstReaching (.finite 0) latencies (1 * total latencies) low .infinity := by
  have cumulative : Cumulative (.finite 0) 0 latencies := by
    simp only [Cumulative, latencies, Number.lt]
    norm_num
  have ordered := quantile_ordered cumulative
  have beyond : quantile latencies 1 = none := by decide +kernel
  refine ⟨by decide +kernel, beyond, ?_⟩
  rcases (ordered.2.2 1).mp beyond with outside | empty | none_counted | infinite
  · norm_num at outside
  · cases empty
  · exact absurd none_counted (by decide +kernel)
  · exact infinite

end Metrics
end Metralectl
