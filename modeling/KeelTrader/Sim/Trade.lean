import KeelTrader.Sim.Data

set_option relaxedAutoImplicit false
set_option autoImplicit false

/-!
# Trade execution

The fill rule and the three functions that change a position: `close_position`, `open_long`
and `open_short` of `sim/src/trading_env.c`, with the death-spiral guard and the decoding of
allocation and level bins.

## Main definitions

* `KeelTrader.Sim.limitFillPrice`, `resolveLimitFillPrice` — the limit-fill rule, on a bar's
  range and on the market data; `keelTestFillPrice` — the rule as the paper loop calls it.
* `KeelTrader.Sim.deathSpiralRefused`, `closePosition` — the guarded exit.
* `KeelTrader.Sim.sizedFill`, `openLong`, `openShort` — the entries.

## Main results

* `KeelTrader.Sim.closePosition_cases` — everything an exit can do.
* `KeelTrader.Sim.sizedFill_spec` — what an order that was sized satisfies.
* `KeelTrader.Sim.closePosition_returns`, `openLong_returns`, `openShort_returns` — none of
  them faults on a valid bar and symbol.

## Implementation notes

`open_long` and `open_short` share their first half (reference price, limit fill, allocation
clamp, budget, quantity); it is `sizedFill`, with the direction of the order as a parameter.
-/

namespace KeelTrader.Sim

open Checked

/-! ## The fill rule -/

/-- The traded range of a bar: its low and high, swapped when they are the wrong way round. -/
def barRange (low high : ℚ) : ℚ × ℚ := if low > high then (high, low) else (low, high)

/-- The price a buy limit must be undercut to, `fillBufferBps` below the target and never
negative. -/
def buyTrigger (fillBufferBps targetPrice : ℚ) : ℚ :=
  let trigger := targetPrice * (1 - fillBufferBps / 10000)
  if trigger < 0 then 0 else trigger

/-- The body of `resolve_limit_fill_price`, on the low and high of the bar: the fill price, or
`none` where the C function returns `0`. -/
def limitFillPrice (fillBufferBps fillSlippageBps low high targetPrice : ℚ) (isBuy : Bool) :
    Option ℚ :=
  let slippage := fillSlippageBps / 10000
  if isBuy then
    if (barRange low high).1 > buyTrigger fillBufferBps targetPrice then none
    else
      let fillPrice := targetPrice * (1 + slippage)
      if fillPrice > (barRange low high).2 then none else some fillPrice
  else
    let trigger := targetPrice * (1 + fillBufferBps / 10000)
    if (barRange low high).2 < trigger then none
    else
      let fillPrice := targetPrice * (1 - slippage)
      if fillPrice < (barRange low high).1 then none else some fillPrice

/-- `resolve_limit_fill_price`, on the bar of symbol `sym` at row `t`. -/
def resolveLimitFillPrice (md : MarketData) (p : Params) (t sym : ℤ) (targetPrice : ℚ)
    (isBuy : Bool) : Checked (Option ℚ) := do
  let low ← getPrice md t sym .pLow
  let high ← getPrice md t sym .pHigh
  pure (limitFillPrice p.fillBufferBps p.fillSlippageBps low high targetPrice isBuy)

/-- `keel_test_fill_price`: the fill rule on one bar, `0` where the order cannot fill. -/
def keelTestFillPrice (_o h l _c target bufferBps slipBps : ℚ) (isBuy : Bool) : ℚ :=
  (limitFillPrice bufferBps slipBps l h target isBuy).getD 0

/-- An accepted price is the target moved by the slippage against the order. -/
lemma limitFillPrice_eq {b s l h x f : ℚ} {isBuy : Bool}
    (hf : limitFillPrice b s l h x isBuy = some f) :
    f = if isBuy then x * (1 + s / 10000) else x * (1 - s / 10000) := by
  unfold limitFillPrice at hf
  cases isBuy <;> simp only [Bool.false_eq_true, ↓reduceIte] at hf ⊢
  all_goals
    split at hf
    · cases hf
    · split at hf
      · cases hf
      · exact (Option.some.inj hf).symm

/-! ## Exits -/

/-- `death_spiral_refused`. -/
def deathSpiralRefused (p : Params) (sellPrice entryPrice : ℚ) (holdHours : ℤ)
    (isShort : Bool) : Bool :=
  if p.deathSpiralToleranceBps ≤ 0 then false
  else if isShort then false
  else if entryPrice ≤ 0 ∨ sellPrice ≤ 0 then false
  else
    let threshold := if p.deathSpiralStaleAfterBars < 0 then 0 else p.deathSpiralStaleAfterBars
    let tol := if holdHours ≥ threshold then p.deathSpiralOvernightToleranceBps
      else p.deathSpiralToleranceBps
    if tol ≤ 0 then false else decide (sellPrice < entryPrice * (1 - tol / 10000))

/-- `ag->hold_hours++`. -/
def AgentState.hold (ag : AgentState) : AgentState := { ag with holdHours := ag.holdHours + 1 }

/-- The agent after its position was closed at `price`: the exit cost is the fee plus the
slippage, a short is bought back and a long is sold. -/
def AgentState.closedAt (p : Params) (isShort : Bool) (price : ℚ) (ag : AgentState) :
    AgentState :=
  let effectiveFee := p.feeRate + p.fillSlippageBps / 10000
  let pnl := if isShort then ag.entryPrice - price else price - ag.entryPrice
  { ag with
    cash := if isShort then ag.cash - ag.positionQty * price * (1 + effectiveFee)
      else ag.cash + ag.positionQty * price * (1 - effectiveFee)
    winningTrades := if pnl > 0 then ag.winningTrades + 1 else ag.winningTrades
    numTrades := ag.numTrades + 1
    positionSym := -1
    positionQty := 0
    entryPrice := 0
    holdHours := 0 }

/-- `close_position`: the agent afterwards, and whether the position was closed. -/
def closePosition (md : MarketData) (p : Params) (t : ℤ) (ag : AgentState) :
    Checked (AgentState × Bool) :=
  if ag.positionSym < 0 then pure (ag, false)
  else do
    let sym ← cmod ag.positionSym md.numSymbols
    let curPrice ← getPrice md t sym .pOpen
    let isShort := decide (ag.positionSym ≥ md.numSymbols)
    if deathSpiralRefused p curPrice ag.entryPrice ag.holdHours isShort then pure (ag.hold, false)
    else pure (ag.closedAt p isShort curPrice, true)

/-! ## Entries -/

/-- `action_allocation_pct`. -/
def actionAllocationPct (p : Params) (allocIdx : ℤ) : Checked ℚ :=
  let bins := p.actionAllocationBins
  if bins ≤ 1 then pure 1
  else do
    let allocIdx := if allocIdx < 0 then 0 else allocIdx
    let allocIdx := if allocIdx ≥ bins then bins - 1 else allocIdx
    let pct ← fdiv (allocIdx + 1 : ℤ) bins
    let pct := if pct < 1 / 100 then 1 / 100 else pct
    pure (if pct > 1 then 1 else pct)

/-- `action_level_offset_bps`. -/
def actionLevelOffsetBps (p : Params) (levelIdx : ℤ) : Checked ℚ :=
  let bins := p.actionLevelBins
  if bins ≤ 1 ∨ p.actionMaxOffsetBps ≤ 0 then pure 0
  else do
    let levelIdx := if levelIdx < 0 then 0 else levelIdx
    let levelIdx := if levelIdx ≥ bins then bins - 1 else levelIdx
    let frac ← fdiv levelIdx (bins - 1 : ℤ)
    pure ((2 * frac - 1) * p.actionMaxOffsetBps)

/-- An allocation, at most the whole of the cash. -/
def clampAllocation (allocationPct : ℚ) : ℚ := if allocationPct > 1 then 1 else allocationPct

/-- The first half of `open_long` and `open_short`: the fill price and the quantity of an order
to spend `allocationPct` of the levered cash, or `none` where the C functions return early. -/
def sizedFill (md : MarketData) (p : Params) (t sym : ℤ) (allocationPct levelOffsetBps : ℚ)
    (isBuy : Bool) (cash : ℚ) : Checked (Option (ℚ × ℚ)) := do
  let refPrice ← getPrice md t sym .pOpen
  if refPrice ≤ 0 ∨ cash ≤ 0 then pure none
  else
    let targetPrice := refPrice * (1 + levelOffsetBps / 10000)
    if targetPrice ≤ 0 then pure none
    else
      match ← resolveLimitFillPrice md p t sym targetPrice isBuy with
      | none => pure none
      | some fillPrice =>
        if allocationPct ≤ 0 then pure none
        else
          let budget := cash * p.maxLeverage * clampAllocation allocationPct
          if budget ≤ 0 then pure none
          else
            let denom := fillPrice * (1 + p.feeRate)
            if denom ≤ 0 then pure none
            else do
              let qty ← fdiv budget denom
              if qty ≤ 0 then pure none else pure (some (fillPrice, qty))

/-- `open_long`. -/
def openLong (md : MarketData) (p : Params) (t sym : ℤ) (allocationPct levelOffsetBps : ℚ)
    (ag : AgentState) : Checked AgentState := do
  match ← sizedFill md p t sym allocationPct levelOffsetBps true ag.cash with
  | none => pure ag
  | some (fillPrice, qty) =>
    let cost := qty * (fillPrice * (1 + p.feeRate))
    if cost ≤ 0 then pure ag
    else pure { ag with
      cash := ag.cash - cost
      positionSym := sym
      positionQty := qty
      entryPrice := fillPrice
      holdHours := 0 }

/-- `open_short`: the proceeds go to cash, minus the fee. -/
def openShort (md : MarketData) (p : Params) (t sym : ℤ) (allocationPct levelOffsetBps : ℚ)
    (ag : AgentState) : Checked AgentState := do
  match ← sizedFill md p t sym allocationPct levelOffsetBps false ag.cash with
  | none => pure ag
  | some (fillPrice, qty) =>
    pure { ag with
      cash := ag.cash + qty * fillPrice * (1 - p.feeRate)
      positionSym := md.numSymbols + sym
      positionQty := qty
      entryPrice := fillPrice
      holdHours := 0 }

/-! ## What an exit can do -/

variable {md : MarketData} {p : Params} {t : ℤ} {ag : AgentState}

/-- **Exits.** A call of `close_position` that returns found nothing to close, was refused by
the guard and let the hold clock tick, or closed the position at the open of the bar. -/
theorem closePosition_cases {r : AgentState × Bool} (h : closePosition md p t ag = .ok r) :
    (ag.positionSym < 0 ∧ r = (ag, false)) ∨
    (0 ≤ ag.positionSym ∧ ∃ sym price, cmod ag.positionSym md.numSymbols = .ok sym ∧
      getPrice md t sym .pOpen = .ok price ∧
      ((deathSpiralRefused p price ag.entryPrice ag.holdHours
          (decide (ag.positionSym ≥ md.numSymbols)) = true ∧
        r = (ag.hold, false)) ∨
      (deathSpiralRefused p price ag.entryPrice ag.holdHours
          (decide (ag.positionSym ≥ md.numSymbols)) = false ∧
        r = (ag.closedAt p (decide (ag.positionSym ≥ md.numSymbols)) price, true)))) := by
  unfold closePosition at h
  split at h
  · next hflat =>
    rw [pure_eq_ok] at h
    exact .inl ⟨hflat, h.symm⟩
  · next hheld =>
    obtain ⟨sym, hsym, h⟩ := bind_eq_ok.mp h
    obtain ⟨price, hprice, h⟩ := bind_eq_ok.mp h
    refine .inr ⟨by omega, sym, price, hsym, hprice, ?_⟩
    dsimp only at h
    split at h
    · next hr =>
      rw [pure_eq_ok] at h
      exact .inl ⟨hr, h.symm⟩
    · next hr =>
      rw [pure_eq_ok] at h
      exact .inr ⟨by simpa using hr, h.symm⟩

/-- An exit does not fault on a row of the data. -/
theorem closePosition_returns (hS : 0 ≤ ag.positionSym → 0 < md.numSymbols)
    (ht : 0 ≤ t ∧ t < md.numTimesteps) : Returns (closePosition md p t ag) fun _ => True := by
  unfold closePosition
  refine Returns.ite (fun _ => Returns.pure trivial) fun hheld => ?_
  refine (cmod_returns (by omega) (hS (by omega))).bind fun sym hsym => ?_
  rw [bind_of_eq_ok (getPrice_of_lt ht ⟨hsym.1, hsym.2.1⟩ _)]
  exact Returns.ite (fun _ => Returns.pure trivial) fun _ => Returns.pure trivial

/-! ## What an entry can do -/

/-- An order that was sized has a positive reference price, positive cash, a fill the rule
accepted, and a positive quantity worth the budget with the fee on top. -/
theorem sizedFill_spec {sym : ℤ} {alloc level cash f q : ℚ} {isBuy : Bool}
    (h : sizedFill md p t sym alloc level isBuy cash = .ok (some (f, q))) :
    0 < cash ∧ 0 < q ∧ 0 < f * (1 + p.feeRate) ∧ 0 < alloc ∧
      q * (f * (1 + p.feeRate)) = cash * p.maxLeverage * clampAllocation alloc ∧
      ∃ ref, getPrice md t sym .pOpen = .ok ref ∧ 0 < ref ∧
        0 < ref * (1 + level / 10000) ∧
        resolveLimitFillPrice md p t sym (ref * (1 + level / 10000)) isBuy = .ok (some f) := by
  unfold sizedFill at h
  obtain ⟨ref, href, h⟩ := bind_eq_ok.mp h
  split at h
  · cases h
  next hpos =>
  rw [not_or, not_le, not_le] at hpos
  dsimp only at h
  split at h
  · cases h
  next htarget =>
  obtain ⟨fill, hfill, h⟩ := bind_eq_ok.mp h
  cases fill with
  | none => cases h
  | some f' =>
    dsimp only at h
    split at h
    · cases h
    next halloc =>
    split at h
    · cases h
    next hbudget =>
    split at h
    · cases h
    next hdenom =>
    obtain ⟨q', hq', h⟩ := bind_eq_ok.mp h
    split at h
    · cases h
    next hqty =>
    cases h
    obtain ⟨hne, hq⟩ := fdiv_eq_ok hq'
    refine ⟨hpos.2, not_le.mp hqty, not_le.mp hdenom, not_le.mp halloc, ?_,
      ref, href, hpos.1, not_le.mp htarget, hfill⟩
    rw [hq, div_mul_cancel₀ _ hne]

/-- Sizing an order does not fault on a row and a symbol of the data. -/
lemma sizedFill_returns {sym : ℤ} (ht : 0 ≤ t ∧ t < md.numTimesteps)
    (hs : 0 ≤ sym ∧ sym < md.numSymbols) (alloc level : ℚ) (isBuy : Bool) (cash : ℚ) :
    Returns (sizedFill md p t sym alloc level isBuy cash) fun _ => True := by
  unfold sizedFill
  rw [bind_of_eq_ok (getPrice_of_lt ht hs _)]
  refine Returns.ite (fun _ => Returns.pure trivial) fun _ => ?_
  refine Returns.ite (fun _ => Returns.pure trivial) fun _ => ?_
  simp only [resolveLimitFillPrice, getPrice_of_lt ht hs]
  refine Returns.bind (P := fun _ => True) (Returns.pure trivial) fun fill _ => ?_
  cases fill with
  | none => exact Returns.pure trivial
  | some f =>
    refine Returns.ite (fun _ => Returns.pure trivial) fun _ => ?_
    refine Returns.ite (fun _ => Returns.pure trivial) fun _ => ?_
    refine Returns.ite (fun _ => Returns.pure trivial) fun hdenom => ?_
    rw [bind_of_eq_ok (fdiv_of_ne (by linarith))]
    exact Returns.ite (fun _ => Returns.pure trivial) fun _ => Returns.pure trivial

theorem openLong_returns {sym : ℤ} (ht : 0 ≤ t ∧ t < md.numTimesteps)
    (hs : 0 ≤ sym ∧ sym < md.numSymbols) (alloc level : ℚ) :
    Returns (openLong md p t sym alloc level ag) fun _ => True := by
  refine (sizedFill_returns ht hs alloc level true ag.cash).bind fun fill _ => ?_
  cases fill with
  | none => exact Returns.pure trivial
  | some fq =>
    exact Returns.ite (fun _ => Returns.pure trivial) fun _ => Returns.pure trivial

theorem openShort_returns {sym : ℤ} (ht : 0 ≤ t ∧ t < md.numTimesteps)
    (hs : 0 ≤ sym ∧ sym < md.numSymbols) (alloc level : ℚ) :
    Returns (openShort md p t sym alloc level ag) fun _ => True := by
  refine (sizedFill_returns ht hs alloc level false ag.cash).bind fun fill _ => ?_
  cases fill with
  | none => exact Returns.pure trivial
  | some fq => exact Returns.pure trivial

lemma actionAllocationPct_returns (allocIdx : ℤ) :
    Returns (actionAllocationPct p allocIdx) fun _ => True := by
  unfold actionAllocationPct
  refine Returns.ite (fun _ => Returns.pure trivial) fun hbins => ?_
  have hne : ((p.actionAllocationBins : ℤ) : ℚ) ≠ 0 := by
    exact_mod_cast (by omega : p.actionAllocationBins ≠ 0)
  rw [bind_of_eq_ok (fdiv_of_ne hne)]
  exact Returns.pure trivial

lemma actionLevelOffsetBps_returns (levelIdx : ℤ) :
    Returns (actionLevelOffsetBps p levelIdx) fun _ => True := by
  unfold actionLevelOffsetBps
  refine Returns.ite (fun _ => Returns.pure trivial) fun hbins => ?_
  have hne : ((p.actionLevelBins - 1 : ℤ) : ℚ) ≠ 0 := by
    exact_mod_cast (by omega : p.actionLevelBins - 1 ≠ 0)
  rw [bind_of_eq_ok (fdiv_of_ne hne)]
  exact Returns.pure trivial

end KeelTrader.Sim
