import Mathlib.Algebra.Order.Field.Rat
import KeelTrader.Lib.Dict
import KeelTrader.Lib.TopK

set_option relaxedAutoImplicit false
set_option autoImplicit false

/-!
# The strategy

`models/xgb/strategy.py`: the pure function from model scores and risk inputs to target
positions. Signals below the conviction threshold are dropped, the best survivors are picked,
and the picks are sized by inverse volatility under a cap for each name.

## Main definitions

* `KeelTrader.Models.SymbolSignal`, `Position`, `StrategyConfig` — the data.
* `KeelTrader.Models.filterByConviction`, `selectPicks`, `inverseVolWeights` — the stages.
* `KeelTrader.Models.StrategyConfig.decide` — the pipeline.

## Main results

* `KeelTrader.Models.capLoop_stable` — as much fuel as there are names is enough for the loop.
* `KeelTrader.Models.selectPicks_length`, `mem_selectPicks` — what is picked.

## Implementation notes

The arithmetic is exact. A division by a zero volatility floor raises, which is `none` here.
-/

namespace KeelTrader.Models

/-! ## Data -/

/-- `SymbolSignal`. -/
structure SymbolSignal where
  symbol : String
  score : ℚ
  volatility : ℚ
  deriving DecidableEq, Repr

/-- `Position`. -/
structure Position where
  symbol : String
  weight : ℚ
  deriving DecidableEq, Repr

/-- `StrategyConfig`. -/
structure StrategyConfig where
  convictionThreshold : ℚ := 0
  maxPositions : ℤ := 5
  grossExposure : ℚ := 1
  maxPositionWeight : ℚ := 34 / 100
  minVolatility : ℚ := 1 / 10000

/-! ## Filter and pick -/

/-- `filter_by_conviction`. -/
def filterByConviction (signals : List SymbolSignal) (cfg : StrategyConfig) :
    List SymbolSignal :=
  signals.filter fun s => decide (s.score ≥ cfg.convictionThreshold) && decide (s.score > 0)

/-- The order of `sorted(signals, key=lambda s: (-s.score, s.symbol))`. -/
def SymbolSignal.Before (a b : SymbolSignal) : Prop :=
  a.score > b.score ∨ a.score = b.score ∧ a.symbol ≤ b.symbol

instance : DecidableRel SymbolSignal.Before := fun _ _ => instDecidableOr

/-- `select_picks`. -/
def selectPicks (signals : List SymbolSignal) (cfg : StrategyConfig) : List SymbolSignal :=
  (signals.insertionSort SymbolSignal.Before).take (max 0 cfg.maxPositions).toNat

lemma selectPicks_eq_topBy (signals : List SymbolSignal) (cfg : StrategyConfig) :
    selectPicks signals cfg = topBy SymbolSignal.Before (max 0 cfg.maxPositions).toNat signals :=
  rfl

/-- Everything picked was a candidate. -/
theorem mem_selectPicks {signals : List SymbolSignal} {cfg : StrategyConfig} {s : SymbolSignal}
    (h : s ∈ selectPicks signals cfg) : s ∈ signals := by
  rw [selectPicks_eq_topBy] at h
  exact mem_of_mem_topBy h

/-- As many names are picked as there are, up to `max_positions`. -/
theorem selectPicks_length (signals : List SymbolSignal) (cfg : StrategyConfig) :
    ((selectPicks signals cfg).length : ℤ) = min (max 0 cfg.maxPositions) signals.length := by
  rw [selectPicks_eq_topBy, length_topBy]
  omega

/-- At most `max_positions` names are picked. -/
theorem selectPicks_length_le (signals : List SymbolSignal) (cfg : StrategyConfig) :
    ((selectPicks signals cfg).length : ℤ) ≤ max 0 cfg.maxPositions := by
  rw [selectPicks_length]
  exact min_le_left _ _

/-! ## Size -/

/-- The sum of the values of a dictionary. -/
def total (d : Dict String ℚ) : ℚ := (d.entries.map Prod.snd).sum

/-- The raw weights: `1 / max(volatility, min_volatility)` for each pick, unless that divides
by zero. -/
def rawWeights (picks : List SymbolSignal) (cfg : StrategyConfig) : Option (Dict String ℚ) :=
  if picks.any fun s => decide (max s.volatility cfg.minVolatility = 0) then none
  else some <|
    picks.foldl (fun d s => d.set s.symbol (1 / max s.volatility cfg.minVolatility)) .empty

/-- The names whose share of the remaining budget is above the cap. -/
def overflowing (cfg : StrategyConfig) (remBudget remTotal : ℚ) (remaining : Dict String ℚ) :
    List String :=
  (remaining.filter fun _ w =>
    decide (remBudget * (w / remTotal) > cfg.maxPositionWeight + 1 / 10 ^ 12)).keys

/-- The loop of `inverse_vol_weights`: cap the names that overflow and recycle what they leave,
until nothing overflows. The first argument bounds the rounds. -/
def capLoop (cfg : StrategyConfig) : ℕ → Dict String ℚ → Dict String ℚ → Dict String ℚ
  | 0, capped, _ => capped
  | rounds + 1, capped, remaining =>
    let remTotal := total remaining
    let remBudget := cfg.grossExposure - total capped
    if remaining.entries = [] then capped
    else if remBudget ≤ 0 ∨ remTotal ≤ 0 then capped
    else
      let newlyCapped := overflowing cfg remBudget remTotal remaining
      if newlyCapped = [] then
        -- nothing overflows: finalize the proportional split
        remaining.entries.foldl (fun d e => d.set e.1 (remBudget * (e.2 / remTotal))) capped
      else
        capLoop cfg rounds (newlyCapped.foldl (fun d sym => d.set sym cfg.maxPositionWeight) capped)
          (remaining.filter fun sym _ => decide (sym ∉ newlyCapped))

/-- `inverse_vol_weights`. -/
def inverseVolWeights (picks : List SymbolSignal) (cfg : StrategyConfig) :
    Option (List Position) :=
  if picks = [] then some []
  else
    (rawWeights picks cfg).map fun raw =>
      if total raw ≤ 0 then []
      else
        let capped := capLoop cfg raw.entries.length .empty raw
        (picks.map fun s => Position.mk s.symbol ((capped.get? s.symbol).getD 0)).filter
          fun p => decide (p.weight > 0)

/-- `decide`. -/
def StrategyConfig.decide (cfg : StrategyConfig) (signals : List SymbolSignal) :
    Option (List Position) :=
  inverseVolWeights (selectPicks (filterByConviction signals cfg) cfg) cfg

/-- A round that caps a name leaves fewer names. -/
lemma length_filter_overflowing_lt (cfg : StrategyConfig) (remBudget remTotal : ℚ)
    (remaining : Dict String ℚ) (h : overflowing cfg remBudget remTotal remaining ≠ []) :
    (remaining.filter fun sym _ =>
        decide (sym ∉ overflowing cfg remBudget remTotal remaining)).entries.length <
      remaining.entries.length := by
  obtain ⟨sym, hsym⟩ := List.exists_mem_of_ne_nil _ h
  have hkey := hsym
  unfold overflowing Dict.keys at hkey
  obtain ⟨⟨sym', w⟩, hentry, rfl⟩ := List.mem_map.mp hkey
  have hmem := (Dict.mem_entries_filter.mp hentry).1
  refine List.length_filter_lt_length_iff_exists.mpr ⟨(sym', w), hmem, ?_⟩
  simpa using hsym

/-- **Termination.** Every round that goes on caps a name, so the loop ends after at most as
many rounds as there are names: more fuel changes nothing. -/
theorem capLoop_stable (cfg : StrategyConfig) (rounds extra : ℕ) (capped remaining : Dict String ℚ)
    (h : remaining.entries.length ≤ rounds) :
    capLoop cfg (rounds + extra) capped remaining = capLoop cfg rounds capped remaining := by
  induction rounds generalizing capped remaining with
  | zero =>
    have hnil : remaining.entries = [] := List.length_eq_zero_iff.mp (by omega)
    cases extra <;> simp [capLoop, hnil]
  | succ rounds ih =>
    rw [show rounds + 1 + extra = rounds + extra + 1 by omega]
    simp only [capLoop]
    by_cases hover : overflowing cfg (cfg.grossExposure - total capped) (total remaining)
        remaining = []
    · simp only [hover, ↓reduceIte]
    · have hlt := length_filter_overflowing_lt cfg _ _ remaining hover
      rw [ih _ _ (by omega)]

end KeelTrader.Models
