import Nasiko.Json.Basic
import Mathlib.Algebra.Order.Floor.Ring
import Mathlib.Data.Rat.Floor

/-!
# The cost of a call

A call is charged for four classes of tokens, each at its rate and rounded to a millionth of a
dollar. What is known of the circumstances of the call changes the rates afterwards: how long the
cache entries are kept, the speed, and where the model runs. The result is marked as an estimate if
a rate was guessed. Amounts and rates are exact here.

**Theorem (`contextCost_estimated_iff`).** The total is the rounded sum of the four amounts, which
are rounded. For a quote that is an estimate, a result above zero is marked exactly if the cost at
the rates of the quote alone is above zero, or the circumstances give a reason of their own
(`Reason`). It need not be (`estimate_not_marked`): the mark of the quote is decided on before the
cache entries are charged for an hour.
-/

namespace Nasiko.Pricing

structure NormalizedUsage where
  (input output cacheRead cacheCreation : Nat)

def NormalizedUsage.isEmpty (u : NormalizedUsage) : Bool :=
  u.input = 0 && u.output = 0 && u.cacheRead = 0 && u.cacheCreation = 0

structure PriceQuote where
  (inputPer1m outputPer1m cacheReadPer1m cacheCreationPer1m : ℚ)
  cacheCreation1hPer1m : Option ℚ
  estimated : Bool

inductive Vendor where
  | anthropic
  | openAi
  | google
  | deepSeek
  | unknown
  deriving DecidableEq

structure ModelKey where
  provider : Option Str
  canonical : Str
  vendor : Vendor

structure PricingContext where
  (cacheCreation5m cacheCreation1h : Option Nat)
  (speed serviceTier inferenceGeo : Option Str)
  conflictingObservations : Bool

structure CostBreakdown where
  (inputUsd outputUsd cacheReadUsd cacheCreationUsd totalUsd : ℚ)
  estimated : Bool

/-- Six decimal places; a half is rounded away from zero. -/
def roundUsd (v : ℚ) : ℚ :=
  (if 0 ≤ v then ⌊v * 10 ^ 6 + 1 / 2⌋ else ⌈v * 10 ^ 6 - 1 / 2⌉ : ℤ) / 10 ^ 6

variable (usage : NormalizedUsage) (quote : PriceQuote) (key : ModelKey) (context : PricingContext)

def cost : CostBreakdown :=
  let perMillion := fun (tokens : Nat) (rate : ℚ) => roundUsd (tokens / 10 ^ 6 * rate)
  let inputUsd := perMillion usage.input quote.inputPer1m
  let outputUsd := perMillion usage.output quote.outputPer1m
  let cacheReadUsd := perMillion usage.cacheRead quote.cacheReadPer1m
  let cacheCreationUsd := perMillion usage.cacheCreation quote.cacheCreationPer1m
  let totalUsd := roundUsd (inputUsd + outputUsd + cacheReadUsd + cacheCreationUsd)
  ⟨inputUsd, outputUsd, cacheReadUsd, cacheCreationUsd, totalUsd, quote.estimated && 0 < totalUsd⟩

/-- The provider is Anthropic itself. -/
def ModelKey.direct : Bool := key.provider = some "anthropic".toList

/-- What the cache entries cost, by how long they are kept, and whether that is a guess. -/
def cacheCreationCost : ℚ × Bool :=
  let hasTtl := context.cacheCreation5m.isSome || context.cacheCreation1h.isSome
  let five := context.cacheCreation5m.getD 0
  let hour := context.cacheCreation1h.getD 0
  let anthropicModel : Bool := key.vendor = .anthropic
  -- The sum of the two is checked for overflow.
  if hasTtl && five + hour < 2 ^ 64 && five + hour ≤ usage.cacheCreation && anthropicModel then
    let remainder := usage.cacheCreation - (five + hour)
    let hourRate := quote.cacheCreation1hPer1m.getD (quote.inputPer1m * 2)
    (roundUsd ((five * quote.cacheCreationPer1m + hour * hourRate +
        remainder * quote.cacheCreationPer1m) / 10 ^ 6),
      0 < hour && quote.cacheCreation1hPer1m.isNone || !key.direct || 0 < remainder)
  else
    ((cost usage quote).cacheCreationUsd, hasTtl || anthropicModel && 0 < usage.cacheCreation)

/-- The factor for the speed, and whether that is a guess. -/
def speedFactor : ℚ × Bool :=
  let speed := context.speed.getD []
  if speed = [] ∨ speed = "standard" then (1, false)
  else if speed = "fast" ∧ key.direct ∧
      key.canonical ∈ ["claude-opus-5".toList, "claude-opus-4-8"] then
    (2, false)
  else (1, true)

def geoFactor : ℚ × Bool :=
  let geo := context.inferenceGeo.getD []
  if geo = [] ∨ geo = "global" then (1, false)
  else if geo = "us" ∧ key.direct then (1.1, false)
  else (1, true)

/-- Whether the circumstances mark the result. -/
def guesses : Bool :=
  (cacheCreationCost usage quote key context).2 || (speedFactor key context).2 ||
    (geoFactor key context).2 || context.serviceTier.any (· ∉ [[], "standard".toList]) ||
    context.conflictingObservations || key.provider.isNone

def contextCost : CostBreakdown :=
  let plain := cost usage quote
  let multiplier := (speedFactor key context).1 * (geoFactor key context).1
  let inputUsd := roundUsd (plain.inputUsd * multiplier)
  let outputUsd := roundUsd (plain.outputUsd * multiplier)
  let cacheReadUsd := roundUsd (plain.cacheReadUsd * multiplier)
  let cacheCreationUsd := roundUsd ((cacheCreationCost usage quote key context).1 * multiplier)
  let totalUsd := roundUsd (inputUsd + outputUsd + cacheReadUsd + cacheCreationUsd)
  ⟨inputUsd, outputUsd, cacheReadUsd, cacheCreationUsd, totalUsd,
    (plain.estimated || guesses usage quote key context) && !usage.isEmpty⟩

/-! ## Reasons for an estimate -/

/-- What is known of the cache entries is in line with their number, and they are priced by it. -/
structure DurationsFit : Prop where
  known : context.cacheCreation5m ≠ none ∨ context.cacheCreation1h ≠ none
  noOverflow : context.cacheCreation5m.getD 0 + context.cacheCreation1h.getD 0 < 2 ^ 64
  le : context.cacheCreation5m.getD 0 + context.cacheCreation1h.getD 0 ≤ usage.cacheCreation
  vendor : key.vendor = .anthropic

/-- A reason of the circumstances of a call to take its cost for an estimate. -/
inductive Reason : Prop where
  /-- The rate for an hour is missing, it is not Anthropic who charges, or a duration is missing. -/
  | durations (hfit : DurationsFit usage key context)
      (h : 0 < context.cacheCreation1h.getD 0 ∧ quote.cacheCreation1hPer1m = none ∨
        key.provider ≠ some "anthropic".toList ∨
        context.cacheCreation5m.getD 0 + context.cacheCreation1h.getD 0 < usage.cacheCreation)
  /-- The durations are not used, or those of a model of Anthropic are missing. -/
  | misfit (hfit : ¬ DurationsFit usage key context)
      (h : context.cacheCreation5m ≠ none ∨ context.cacheCreation1h ≠ none ∨
        key.vendor = .anthropic ∧ 0 < usage.cacheCreation)
  | speed (s : Str) (hspeed : context.speed = some s) (hset : ¬ (s = [] ∨ s = "standard"))
      (hfast : ¬ (s = "fast" ∧ key.provider = some "anthropic".toList ∧
        (key.canonical = "claude-opus-5" ∨ key.canonical = "claude-opus-4-8")))
  | geo (s : Str) (hgeo : context.inferenceGeo = some s) (hset : ¬ (s = [] ∨ s = "global"))
      (hus : ¬ (s = "us" ∧ key.provider = some "anthropic".toList))
  | tier (s : Str) (htier : context.serviceTier = some s) (hset : ¬ (s = [] ∨ s = "standard"))
  | conflict (hconflict : context.conflictingObservations = true)
  | noProvider (hprovider : key.provider = none)

variable {usage quote key context}

theorem cacheCreationCost_guess_iff : (cacheCreationCost usage quote key context).2 = true ↔
    (DurationsFit usage key context ∧
      (0 < context.cacheCreation1h.getD 0 ∧ quote.cacheCreation1hPer1m = none ∨
        key.provider ≠ some "anthropic".toList ∨
        context.cacheCreation5m.getD 0 + context.cacheCreation1h.getD 0 < usage.cacheCreation)) ∨
    (¬ DurationsFit usage key context ∧
      (context.cacheCreation5m ≠ none ∨ context.cacheCreation1h ≠ none ∨
        key.vendor = .anthropic ∧ 0 < usage.cacheCreation)) := by
  have hknown : (context.cacheCreation5m.isSome || context.cacheCreation1h.isSome) = true ↔
      context.cacheCreation5m ≠ none ∨ context.cacheCreation1h ≠ none := by
    simp [Option.isSome_iff_ne_none]
  rw [cacheCreationCost]
  dsimp only
  split_ifs with hcond
  all_goals simp only [Bool.and_eq_true, decide_eq_true_eq, hknown] at hcond
  · have hfit : DurationsFit usage key context := ⟨hcond.1.1.1, hcond.1.1.2, hcond.1.2, hcond.2⟩
    simp only [hfit, ModelKey.direct, Bool.or_eq_true, Bool.and_eq_true, decide_eq_true_eq,
      Bool.not_eq_true', decide_eq_false_iff_not, Option.isNone_iff_eq_none, Nat.sub_pos_iff_lt,
      not_true_eq_false, false_and, or_false, true_and, or_assoc, ne_eq]
  · have hfit : ¬ DurationsFit usage key context := fun h =>
      hcond ⟨⟨⟨h.known, h.noOverflow⟩, h.le⟩, h.vendor⟩
    simp only [hfit, Bool.or_eq_true, Bool.and_eq_true, decide_eq_true_eq, hknown, false_and,
      false_or, not_false_eq_true, true_and, or_assoc]

theorem ite_guess_iff {p q : Prop} [Decidable p] [Decidable q] {x y z : ℚ} :
    (if p then (x, false) else if q then (y, false) else (z, true)).2 = true ↔ ¬ p ∧ ¬ q := by
  split_ifs with hp hq
  · exact iff_of_false nofun fun h => h.1 hp
  · exact iff_of_false nofun fun h => h.2 hq
  · exact iff_of_true rfl ⟨hp, hq⟩

theorem speedFactor_guess_iff : (speedFactor key context).2 = true ↔
    ∃ s, context.speed = some s ∧ ¬ (s = [] ∨ s = "standard") ∧
      ¬ (s = "fast" ∧ key.provider = some "anthropic".toList ∧
        (key.canonical = "claude-opus-5" ∨ key.canonical = "claude-opus-4-8")) := by
  rw [speedFactor, ite_guess_iff]
  cases context.speed with
  | none => simp
  | some s =>
    simp only [Option.getD_some, ModelKey.direct, decide_eq_true_eq, List.mem_cons,
      List.not_mem_nil, or_false, Option.some.injEq, exists_eq_left']

theorem geoFactor_guess_iff : (geoFactor key context).2 = true ↔
    ∃ s, context.inferenceGeo = some s ∧ ¬ (s = [] ∨ s = "global") ∧
      ¬ (s = "us" ∧ key.provider = some "anthropic".toList) := by
  rw [geoFactor, ite_guess_iff]
  cases context.inferenceGeo with
  | none => simp
  | some s =>
    simp only [Option.getD_some, ModelKey.direct, decide_eq_true_eq, Option.some.injEq,
      exists_eq_left']

/-- The code marks the result for these reasons and no others. -/
theorem guesses_iff : guesses usage quote key context = true ↔ Reason usage quote key context := by
  simp only [guesses, Bool.or_eq_true, cacheCreationCost_guess_iff, speedFactor_guess_iff,
    geoFactor_guess_iff, Option.any_eq_true, Option.isNone_iff_eq_none, or_assoc, decide_eq_true_eq,
    List.mem_cons, List.not_mem_nil, or_false]
  constructor
  · rintro (⟨hfit, h⟩ | ⟨hfit, h⟩ | ⟨s, hs, hset, hfast⟩ | ⟨s, hs, hset, hus⟩ |
      ⟨s, hs, hset⟩ | h | h)
    · exact .durations hfit h
    · exact .misfit hfit h
    · exact .speed s hs hset hfast
    · exact .geo s hs hset hus
    · exact .tier s hs hset
    · exact .conflict h
    · exact .noProvider h
  · intro h
    cases h with
    | durations hfit h => exact .inl ⟨hfit, h⟩
    | misfit hfit h => exact .inr (.inl ⟨hfit, h⟩)
    | speed s hs hset hfast => exact .inr (.inr (.inl ⟨s, hs, hset, hfast⟩))
    | geo s hs hset hus => exact .inr (.inr (.inr (.inl ⟨s, hs, hset, hus⟩)))
    | tier s hs hset => exact .inr (.inr (.inr (.inr (.inl ⟨s, hs, hset⟩))))
    | conflict h => exact .inr (.inr (.inr (.inr (.inr (.inl h)))))
    | noProvider h => exact .inr (.inr (.inr (.inr (.inr (.inr h)))))

/-! ## The result -/

theorem roundUsd_zero : roundUsd 0 = 0 := by
  norm_num [roundUsd]

theorem totalUsd_of_isEmpty (h : usage.isEmpty = true) :
    (contextCost usage quote key context).totalUsd = 0 := by
  simp only [NormalizedUsage.isEmpty, Bool.and_eq_true, decide_eq_true_eq] at h
  obtain ⟨⟨⟨hin, hout⟩, hread⟩, hcc⟩ := h
  have hcache : (cacheCreationCost usage quote key context).1 = 0 := by
    rw [cacheCreationCost]
    dsimp only
    split_ifs with hreprice
    · simp only [hcc, Bool.and_eq_true, decide_eq_true_eq, Nat.le_zero,
        Nat.add_eq_zero_iff] at hreprice
      obtain ⟨⟨-, hfive, hhour⟩, -⟩ := hreprice
      simp [hcc, hfive, hhour, roundUsd_zero]
    · simp [cost, hcc, roundUsd_zero]
  simp [contextCost, cost, hin, hout, hread, hcache, roundUsd_zero]

theorem contextCost_estimated_iff (usage : NormalizedUsage) (quote : PriceQuote) (key : ModelKey)
    (context : PricingContext) :
    let r := contextCost usage quote key context
    r.totalUsd = roundUsd (r.inputUsd + r.outputUsd + r.cacheReadUsd + r.cacheCreationUsd) ∧
      (∀ usd ∈ [r.inputUsd, r.outputUsd, r.cacheReadUsd, r.cacheCreationUsd],
        ∃ v, usd = roundUsd v) ∧
      (quote.estimated = true → 0 < r.totalUsd → (r.estimated = true ↔
        0 < (cost usage quote).totalUsd ∨ Reason usage quote key context)) := by
  refine ⟨rfl, ?_, fun hest htot => ?_⟩
  · simp [contextCost]
  · have hne : usage.isEmpty = false := by
      by_contra h
      rw [totalUsd_of_isEmpty (by simpa using h)] at htot
      exact lt_irrefl 0 htot
    rw [← guesses_iff]
    simp [contextCost, cost, hne, hest]

/-- A token is written to the cache for an hour, at the rates `0.3` and, for an hour, `0.5`. -/
theorem estimate_not_marked :
    let quote : PriceQuote := ⟨0.25, 1.25, 0.03, 0.3, some 0.5, true⟩
    let r := contextCost ⟨0, 0, 0, 1⟩ quote ⟨some "anthropic", "claude-3-haiku", .anthropic⟩
      ⟨none, some 1, none, none, none, false⟩
    quote.estimated = true ∧ 0 < r.totalUsd ∧ r.estimated = false := by
  decide +kernel

end Nasiko.Pricing
