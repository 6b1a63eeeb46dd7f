import KeelTrader.Lib.Checked

set_option relaxedAutoImplicit false
set_option autoImplicit false

/-!
# Market data, parameters and agent state of the simulator

The data types of `sim/include/trading_env.h`, and the reads of the market data. Every read is
a `Checked` computation: it faults when its row is not in `[0, T)` or its symbol is not in
`[0, S)`. Prices, cash and rates are exact fractions (the C code uses `float`), indices and
counters are unbounded integers (the C code uses `int`).

## Main definitions

* `KeelTrader.Sim.MarketData`, `Params`, `AgentState`, `Log`, `EnvState` — the data model.
* `KeelTrader.Sim.keelEnvCreate` — the default parameters.
* `KeelTrader.Sim.getPrice`, `isTradable`, `featureRow`, `anyTradableAt` — the checked reads.
* `KeelTrader.Sim.fastRandU64`, `fastRandFloat`, `fastRandInt` — the xorshift generator.

## Implementation notes

The arrays `float features[T][S][F]` and `float prices[T][S][5]` are functions of their three
indices, guarded by the checked reads. The output parameters of the C functions are returned
values.
-/

namespace KeelTrader.Sim

open Checked

/-! ## Data types -/

/-- The columns `P_OPEN`, `P_HIGH`, `P_LOW`, `P_CLOSE` and `P_VOL` of a price row. -/
inductive PriceFeat where
  | pOpen | pHigh | pLow | pClose | pVol
  deriving DecidableEq, Repr

/-- `INITIAL_CASH`. -/
def initialCash : ℚ := 10000

/-- `MarketData`: `numTimesteps` rows of `numSymbols` symbols. `tradable` is the optional
`uint8[T][S]` mask and `anyTradable` the optional `uint8[T]` cache. -/
structure MarketData where
  numSymbols : ℕ
  numTimesteps : ℕ
  featuresPerSym : ℕ
  features : ℕ → ℕ → ℕ → ℚ
  prices : ℕ → ℕ → PriceFeat → ℚ
  tradable : Option (ℕ → ℕ → UInt8)
  anyTradable : Option (ℕ → UInt8)

/-- The configuration fields of `TradingEnv`. -/
structure Params where
  maxSteps : ℤ
  feeRate : ℚ
  maxLeverage : ℚ
  shortBorrowApr : ℚ
  periodsPerYear : ℚ
  maxHoldHours : ℤ
  enableDrawdownProfitEarlyExit : ℤ
  drawdownProfitEarlyExitMinSteps : ℤ
  drawdownProfitEarlyExitProgressFraction : ℚ
  actionAllocationBins : ℤ
  actionLevelBins : ℤ
  actionMaxOffsetBps : ℚ
  rewardScale : ℚ
  rewardClip : ℚ
  cashPenalty : ℚ
  drawdownPenalty : ℚ
  downsidePenalty : ℚ
  smoothDownsidePenalty : ℚ
  smoothDownsideTemperature : ℚ
  tradePenalty : ℚ
  smoothnessPenalty : ℚ
  fillSlippageBps : ℚ
  fillBufferBps : ℚ
  fillProbability : ℚ
  decisionLag : ℤ
  deathSpiralToleranceBps : ℚ
  deathSpiralOvernightToleranceBps : ℚ
  deathSpiralStaleAfterBars : ℤ
  forcedOffset : ℤ
  deriving DecidableEq, Repr

/-- `keel_env_create`: the defaults a new environment starts with. -/
def keelEnvCreate : Params where
  maxSteps := 720
  feeRate := 1 / 1000
  maxLeverage := 1
  shortBorrowApr := 0
  periodsPerYear := 8760
  maxHoldHours := 0
  enableDrawdownProfitEarlyExit := 0
  drawdownProfitEarlyExitMinSteps := 20
  drawdownProfitEarlyExitProgressFraction := 1 / 2
  actionAllocationBins := 1
  actionLevelBins := 1
  actionMaxOffsetBps := 0
  rewardScale := 10
  rewardClip := 5
  cashPenalty := 1 / 100
  drawdownPenalty := 0
  downsidePenalty := 0
  smoothDownsidePenalty := 0
  smoothDownsideTemperature := 2 / 100
  tradePenalty := 0
  smoothnessPenalty := 0
  fillSlippageBps := 0
  fillBufferBps := 0
  fillProbability := 1
  decisionLag := 2
  deathSpiralToleranceBps := 0
  deathSpiralOvernightToleranceBps := 500
  deathSpiralStaleAfterBars := 8
  forcedOffset := -1

/-- `AgentState`. `positionSym` is `-1` when flat, `s` for a long and `S + s` for a short
position in symbol `s`. -/
structure AgentState where
  cash : ℚ
  positionSym : ℤ
  positionQty : ℚ
  entryPrice : ℚ
  holdHours : ℤ
  peakEquity : ℚ
  initialEquity : ℚ
  numTrades : ℤ
  winningTrades : ℤ
  sumNegSq : ℚ
  sumRet : ℚ
  retCount : ℤ
  prevRet : ℚ
  maxDrawdown : ℚ
  dataOffset : ℤ
  step : ℤ
  deriving DecidableEq, Repr

/-- `Log`: sums over the episodes that ended, and their number. -/
structure Log where
  totalReturn : ℚ
  sortino : ℚ
  maxDrawdown : ℚ
  numTrades : ℚ
  winRate : ℚ
  avgHoldHours : ℚ
  n : ℚ
  deriving DecidableEq, Repr

/-- The mutable part of a `TradingEnv`, with the state of the generator. -/
structure EnvState where
  agent : AgentState
  rng : UInt64
  log : Log
  observations : List ℚ
  reward : ℚ
  terminal : Bool
  deriving DecidableEq, Repr

/-- The functions of `math.h` that the reward and the Sortino ratio call. -/
structure Libm where
  expf : ℚ → ℚ
  log1pf : ℚ → ℚ
  sqrtf : ℚ → ℚ

/-- First-order stand-ins for `expf` and `log1pf`, exact at `0`, and a square root that is exact
on squares of fractions. -/
def Libm.firstOrder : Libm where
  expf x := 1 + x
  log1pf x := x
  sqrtf x := (Nat.sqrt x.num.toNat : ℚ) / Nat.sqrt x.den

/-! ## Checked reads -/

variable (md : MarketData)

/-- `get_price`. -/
def getPrice (t s : ℤ) (k : PriceFeat) : Checked ℚ := do
  let row ← index t md.numTimesteps
  let sym ← index s md.numSymbols
  pure (md.prices row sym k)

/-- `is_tradable`: every symbol is tradable when there is no mask. -/
def isTradable (t s : ℤ) : Checked Bool :=
  match md.tradable with
  | none => pure true
  | some mask => do
    let row ← index t md.numTimesteps
    let sym ← index s md.numSymbols
    pure (mask row sym != 0)

/-- Whether symbol `s` is tradable at row `t` of the mask. -/
def MarketData.maskAt (md : MarketData) (t s : ℕ) : Bool :=
  match md.tradable with
  | none => true
  | some mask => mask t s != 0

/-- `md->any_tradable[t] != 0`, or true when there is no cache. -/
def anyTradableAt (t : ℤ) : Checked Bool :=
  match md.anyTradable with
  | none => pure true
  | some row => do
    let i ← index t md.numTimesteps
    pure (row i != 0)

/-- The `S * F` features of row `t`, symbol by symbol. -/
def featureRow (t : ℤ) : Checked (List ℚ) := do
  let row ← index t md.numTimesteps
  pure ((List.range md.numSymbols).flatMap fun s =>
    (List.range md.featuresPerSym).map fun f => md.features row s f)

/-- The last row, for a clock that has run past it. -/
def clampRow (t : ℤ) : ℤ := if t ≥ md.numTimesteps then md.numTimesteps - 1 else t

/-- A clamped clock is a row of the data. -/
lemma clampRow_range (md : MarketData) {t : ℤ} (hT : 0 < md.numTimesteps) (ht : 0 ≤ t) :
    0 ≤ clampRow md t ∧ clampRow md t < md.numTimesteps := by
  unfold clampRow
  split <;> omega

/-- Clamping never moves the clock forward. -/
lemma clampRow_le (md : MarketData) (t : ℤ) : clampRow md t ≤ t := by
  unfold clampRow
  split <;> omega

variable {md}

lemma getPrice_of_lt {t s : ℤ} (ht : 0 ≤ t ∧ t < md.numTimesteps)
    (hs : 0 ≤ s ∧ s < md.numSymbols) (k : PriceFeat) :
    getPrice md t s k = .ok (md.prices t.toNat s.toNat k) := by
  simp only [getPrice, index_of_lt ht.1 ht.2, index_of_lt hs.1 hs.2]
  rfl

/-- A price that was returned is the one in the data. -/
lemma getPrice_eq_ok {t s : ℤ} {k : PriceFeat} {price : ℚ} (h : getPrice md t s k = .ok price) :
    t.toNat < md.numTimesteps ∧ s.toNat < md.numSymbols ∧
      price = md.prices t.toNat s.toNat k := by
  obtain ⟨row, hrow, h⟩ := bind_eq_ok.mp h
  obtain ⟨sym, hsym, h⟩ := bind_eq_ok.mp h
  obtain ⟨hrow, hrowlt⟩ := index_eq_ok hrow
  obtain ⟨hsym, hsymlt⟩ := index_eq_ok hsym
  obtain rfl : row = t.toNat := by omega
  obtain rfl : sym = s.toNat := by omega
  exact ⟨hrowlt, hsymlt, (pure_eq_ok.mp h).symm⟩

lemma isTradable_returns {t s : ℤ} (ht : 0 ≤ t ∧ t < md.numTimesteps)
    (hs : 0 ≤ s ∧ s < md.numSymbols) : Returns (isTradable md t s) fun _ => True := by
  unfold isTradable
  cases md.tradable with
  | none => exact Returns.pure trivial
  | some mask =>
    simp only [index_of_lt ht.1 ht.2, index_of_lt hs.1 hs.2]
    exact Returns.pure trivial

/-- A tradability flag that was returned is the mask's. -/
lemma isTradable_eq_ok {t s : ℤ} {b : Bool} (h : isTradable md t s = .ok b) :
    b = md.maskAt t.toNat s.toNat := by
  unfold isTradable at h
  unfold MarketData.maskAt
  cases hm : md.tradable with
  | none =>
    rw [hm] at h
    exact (pure_eq_ok.mp h).symm
  | some mask =>
    rw [hm] at h
    obtain ⟨row, hrow, h⟩ := bind_eq_ok.mp h
    obtain ⟨sym, hsym, h⟩ := bind_eq_ok.mp h
    have h1 : row = t.toNat := by have := (index_eq_ok hrow).1; omega
    have h2 : sym = s.toNat := by have := (index_eq_ok hsym).1; omega
    rw [← pure_eq_ok.mp h, h1, h2]

lemma anyTradableAt_returns {t : ℤ} (ht : 0 ≤ t ∧ t < md.numTimesteps) :
    Returns (anyTradableAt md t) fun _ => True := by
  unfold anyTradableAt
  cases md.anyTradable with
  | none => exact Returns.pure trivial
  | some row =>
    simp only [index_of_lt ht.1 ht.2]
    exact Returns.pure trivial

lemma featureRow_returns {t : ℤ} (ht : 0 ≤ t ∧ t < md.numTimesteps) :
    Returns (featureRow md t) fun _ => True := by
  simp only [featureRow, index_of_lt ht.1 ht.2]
  exact Returns.pure trivial

/-- The market of one symbol and one feature whose row `t` trades at `price t` throughout. -/
def rowMarket (numTimesteps : ℕ) (price : ℕ → ℚ) : MarketData where
  numSymbols := 1
  numTimesteps := numTimesteps
  featuresPerSym := 1
  features t _ _ := price t
  prices t _ _ := price t
  tradable := none
  anyTradable := none

/-! ## The generator -/

/-- `fast_rand_u64`: the drawn word and the new state of the generator. -/
def fastRandU64 (state : UInt64) : UInt64 × UInt64 :=
  let x := if state = 0 then 0x9E3779B97F4A7C15 else state
  let x := x ^^^ (x >>> 12)
  let x := x ^^^ (x <<< 25)
  let x := x ^^^ (x >>> 27)
  (x * 0x2545F4914F6CDD1D, x)

/-- `fast_rand_float`: the top 24 bits of a draw, scaled by `2⁻²⁴`. -/
def fastRandFloat (state : UInt64) : ℚ × UInt64 :=
  let (u, state') := fastRandU64 state
  (((u >>> 40).toNat : ℚ) * (1 / 16777216), state')

/-- `fast_rand_int`: the top 32 bits of a draw, scaled to `[0, n)`. -/
def fastRandInt (n : ℤ) (state : UInt64) : ℤ × UInt64 :=
  if n ≤ 1 then (0, state)
  else
    let (u, state') := fastRandU64 state
    ((((u >>> 32).toNat * n.toNat / 2 ^ 32 : ℕ) : ℤ), state')

/-- A drawn integer is never negative. -/
lemma fastRandInt_nonneg (n : ℤ) (state : UInt64) : 0 ≤ (fastRandInt n state).1 := by
  unfold fastRandInt
  split
  · exact le_rfl
  · exact Int.natCast_nonneg _

end KeelTrader.Sim
