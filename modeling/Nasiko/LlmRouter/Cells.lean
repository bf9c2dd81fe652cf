import Mathlib.Tactic
import Nasiko.LlmRouter.Routing

/-!
# What the router learns about a tier

A cell is the mean of the rewards that a tier has got for a type of request, and their number up to
a cap. The store in memory starts a cell with the prior of the tier; in Postgres the first reward is
inserted as it is, and the clause for a conflict blends in the others.

**Theorem (`stores_agree`).** After any rewards in `[0, 1]` for a new cell, both stores have the
same cell. After the first reward there is one; its number of samples is that of the rewards up to
`maxSamples`, its mean is in `[0, 1]`, and the average of the rewards if they are fewer than
`maxSamples`.

The prior of the first cell counts for nothing, because it has no samples. Numbers are rational.
-/

namespace Nasiko.LlmRouter.Cells

open List

structure Cell where
  qualityMean : ℚ
  samples : Int
  deriving DecidableEq

def maxSamples : Int := 200

def updateCell (cell : Cell) (observation : ℚ) : Cell :=
  let nEff := min cell.samples maxSamples
  ⟨cell.qualityMean + (observation - cell.qualityMean) / (nEff + 1),
    min (cell.samples + 1) maxSamples⟩

def coldStartPrior (qualityTier : Int) (strengths : List RequestType) (rt : RequestType) : ℚ :=
  let tierBase : ℚ := 0.5 + 0.15 * max (qualityTier - 1) 0
  let bonus := if rt ∈ strengths then 0.15 else 0
  min (max (tierBase + bonus) 0.05) 0.95

def tierPrior : Tier → RequestType → ℚ
  | .tier1 => coldStartPrior 3 [.codeGeneration, .analyticalReasoning, .technicalDesign]
  | .tier2 => coldStartPrior 2 [.codeUnderstanding, .writing]
  | .tier3 => coldStartPrior 1 [.factualLookup, .general]

abbrev CellTable := Str × Tier × RequestType → Option Cell

def observeAt (fold : Option Cell → ℚ → Cell) (key : Str × Tier × RequestType) (cells : CellTable)
    (observation : ℚ) : CellTable :=
  Function.update cells key (some (fold (cells key) observation))

def InMemory.observe (provider : Str) (tier : Tier) (rt : RequestType) :
    CellTable → ℚ → CellTable :=
  observeAt (fun entry => updateCell (entry.getD ⟨tierPrior tier rt, 0⟩)) (provider, tier, rt)

/-- What `INSERT … ON CONFLICT DO UPDATE` makes of the row. -/
def upsert (row : Option Cell) (observation : ℚ) : Cell :=
  match row with
  | none => ⟨observation, 1⟩
  | some row =>
    ⟨row.qualityMean + (observation - row.qualityMean) / ((min row.samples maxSamples + 1 : Int)),
      min (row.samples + 1) maxSamples⟩

/-- The provider in the rows of the table. -/
def rowKey (provider : Str) : Str := (Str.trim provider).map Char.toLower

def Pg.observe (provider : Str) (tier : Tier) (rt : RequestType) : CellTable → ℚ → CellTable :=
  observeAt upsert (rowKey provider, tier, rt)

theorem foldl_observeAt (fold : Option Cell → ℚ → Cell) (key : Str × Tier × RequestType)
    (xs : List ℚ) (cells : CellTable) :
    xs.foldl (observeAt fold key) cells key =
      xs.foldl (fun entry x => some (fold entry x)) (cells key) := by
  induction xs generalizing cells with
  | nil => rfl
  | cons x xs ih => rw [foldl_cons, ih, observeAt, Function.update_self, foldl_cons]

/-- The first reward takes the place of any prior. -/
theorem upsert_eq (prior : ℚ) : upsert = fun entry => updateCell (entry.getD ⟨prior, 0⟩) := by
  funext entry x
  cases entry with
  | none => simp [upsert, updateCell, maxSamples]
  | some row => simp [upsert, updateCell]

/-- What a cell says about the rewards. -/
structure Learned (xs : List ℚ) (cell : Cell) : Prop where
  samples : cell.samples = min (xs.length : Int) maxSamples
  nonneg : 0 ≤ cell.qualityMean
  le_one : cell.qualityMean ≤ 1
  sum : xs.length ≤ maxSamples → cell.qualityMean * xs.length = xs.sum

theorem learned_nil {tier : Tier} {rt : RequestType} : Learned [] ⟨tierPrior tier rt, 0⟩ := by
  have hpri : ∀ q s, 0 ≤ coldStartPrior q s rt ∧ coldStartPrior q s rt ≤ 1 := by
    intro q s
    rw [coldStartPrior]
    exact ⟨by positivity, min_le_of_right_le (by norm_num)⟩
  cases tier <;> exact ⟨rfl, (hpri _ _).1, (hpri _ _).2, by simp⟩

theorem Learned.snoc {xs : List ℚ} {cell : Cell} (h : Learned xs cell) {x : ℚ}
    (hx : 0 ≤ x ∧ x ≤ 1) : Learned (xs ++ [x]) (updateCell cell x) := by
  obtain ⟨hsam, h0, h1, hsum⟩ := h
  obtain ⟨n, hn⟩ : ∃ n : ℕ, min cell.samples maxSamples = n := by
    refine ⟨(min cell.samples maxSamples).toNat, ?_⟩
    simp only [maxSamples] at hsam ⊢
    omega
  have hmean : (updateCell cell x).qualityMean = (n * cell.qualityMean + x) / (n + 1) := by
    simp only [updateCell, hn, Int.cast_natCast]
    field_simp
    ring
  have hpos : (0 : ℚ) < n + 1 := by positivity
  constructor
  · simp only [updateCell, hsam, maxSamples, length_append, length_singleton]
    omega
  · rw [hmean]
    have := hx.1
    positivity
  · rw [hmean, div_le_one hpos]
    nlinarith [hx.2, (Nat.cast_nonneg n : (0 : ℚ) ≤ n)]
  · intro hlen
    simp only [length_append, length_singleton, maxSamples] at hlen hsam hn hsum
    obtain rfl : n = xs.length := by omega
    rw [hmean, sum_append, sum_singleton, ← hsum (by omega), length_append, length_singleton]
    push_cast
    field_simp

theorem learned_foldl (tier : Tier) (rt : RequestType) {xs : List ℚ}
    (hxs : ∀ x ∈ xs, 0 ≤ x ∧ x ≤ 1) :
    Learned xs ((xs.foldl (fun entry x => some (updateCell (entry.getD ⟨tierPrior tier rt, 0⟩) x))
      none).getD ⟨tierPrior tier rt, 0⟩) := by
  induction xs using reverseRecOn with
  | nil => exact learned_nil
  | append_singleton xs x ih =>
    obtain ⟨hxs, hx⟩ := forall_mem_append.1 hxs
    rw [foldl_append]
    exact (ih hxs).snoc (hx x (mem_singleton_self x))

theorem stores_agree (provider : Str) (tier : Tier) (rt : RequestType) (xs : List ℚ)
    (hxs : ∀ x ∈ xs, 0 ≤ x ∧ x ≤ 1) (cells rows : CellTable)
    (hcells : cells (provider, tier, rt) = none) (hrows : rows (rowKey provider, tier, rt) = none) :
    xs.foldl (InMemory.observe provider tier rt) cells (provider, tier, rt) =
        xs.foldl (Pg.observe provider tier rt) rows (rowKey provider, tier, rt) ∧
      (xs ≠ [] → ∃ cell,
        xs.foldl (Pg.observe provider tier rt) rows (rowKey provider, tier, rt) = some cell ∧
        cell.samples = min (xs.length : Int) maxSamples ∧
        0 ≤ cell.qualityMean ∧ cell.qualityMean ≤ 1 ∧
        (xs.length < maxSamples → cell.qualityMean = xs.sum / xs.length)) := by
  have hpg : xs.foldl (Pg.observe provider tier rt) rows (rowKey provider, tier, rt) =
      xs.foldl (fun entry x => some (updateCell (entry.getD ⟨tierPrior tier rt, 0⟩) x)) none := by
    rw [Pg.observe, foldl_observeAt, hrows, upsert_eq]
  refine ⟨by rw [hpg, InMemory.observe, foldl_observeAt, hcells], fun hne => ?_⟩
  obtain ⟨cell, hcell⟩ : ∃ cell, xs.foldl
      (fun entry x => some (updateCell (entry.getD ⟨tierPrior tier rt, 0⟩) x)) none =
        some cell := by
    rw [← dropLast_append_getLast hne, foldl_append]
    exact ⟨_, rfl⟩
  have hlea := learned_foldl tier rt hxs
  rw [hcell, Option.getD_some] at hlea
  refine ⟨cell, hpg.trans hcell, hlea.samples, hlea.nonneg, hlea.le_one, fun hlen => ?_⟩
  rw [eq_div_iff (by simpa using hne), hlea.sum hlen.le]

/-- Two good answers and a bad one. -/
theorem stores_agree_three :
    let cell := [1, 1, 0].foldl (InMemory.observe "openai" .tier2 .writing) (fun _ => none)
      ("openai", .tier2, .writing)
    let row := [1, 1, 0].foldl (Pg.observe "openai" .tier2 .writing) (fun _ => none)
      (rowKey "openai", .tier2, .writing)
    cell = row ∧ ∃ learned, row = some learned ∧ learned.samples = 3 ∧
      learned.qualityMean = 2 / 3 := by
  intro cell row
  have hagree := stores_agree "openai" .tier2 .writing [1, 1, 0] (by simp) (fun _ => none)
    (fun _ => none) rfl rfl
  obtain ⟨learned, hrow, hsamples, -, -, hmean⟩ := hagree.2 (by simp)
  exact ⟨hagree.1, learned, hrow, hsamples, (hmean (by decide)).trans (by norm_num)⟩

end Nasiko.LlmRouter.Cells
