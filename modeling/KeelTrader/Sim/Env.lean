import KeelTrader.Sim.Trade

set_option relaxedAutoImplicit false
set_option autoImplicit false

/-!
# The environment: reset, step and observation

`c_reset` and `c_step` of `sim/src/trading_env.c`, as checked computations on the state of one
environment. `c_step` is one C function; here it is the composition of its parts in source
order:

* `executeBar` — the part that trades at bar `t`: the forced close, the valuation before the
  action, the decoded action (`applyAction`);
* `markToMarket` — time advances, the position is valued at the next bar, the borrow fee is
  charged, and the return and drawdown statistics are updated;
* `shapedReward` — the reward terms;
* `finishEpisode` — the terminal branch: the final close, the log and the auto-reset.

## Main definitions

* `KeelTrader.Sim.fillObservations`, `computeEquity`, `borrowFee` — observation and valuation.
* `KeelTrader.Sim.decodeAction`, `applyAction` — the action space.
* `KeelTrader.Sim.resetAgentState`, `cReset`, `cStep` — the environment.
* `KeelTrader.Sim.runFrom`, `episode` — a `c_reset` followed by a list of `c_step`s.

## Main results

* `KeelTrader.Sim.cStep_cases` — everything a step that returns can do.
* `KeelTrader.Sim.episode_induction` — what `c_reset` establishes and `c_step` preserves holds
  after every list of actions, none of which faults.
* `KeelTrader.Sim.episode_ensures` — the same for the runs that return.
-/

namespace KeelTrader.Sim

open Checked

/-! ## Observation -/

/-- The row `fill_observations` reads: the clamped clock, `decision_lag` rows earlier. -/
def obsRow (md : MarketData) (p : Params) (ag : AgentState) : ℤ :=
  let t := ag.dataOffset + ag.step
  let t := if t < 0 then 0 else t
  let t := clampRow md t
  let lag := if p.decisionLag ≥ 1 then p.decisionLag else 1
  if t - lag < 0 then 0 else t - lag

/-- The signed position value and the unrealised PnL at the close of row `t`. -/
def positionValue (md : MarketData) (t : ℤ) (ag : AgentState) : Checked (ℚ × ℚ) :=
  if ag.positionSym ≥ 0 then do
    let sym ← cmod ag.positionSym md.numSymbols
    let curPrice ← getPrice md t sym .pClose
    if ag.positionSym ≥ md.numSymbols then
      pure (-(ag.positionQty * curPrice), ag.positionQty * (ag.entryPrice - curPrice))
    else
      pure (ag.positionQty * curPrice, ag.positionQty * (curPrice - ag.entryPrice))
  else pure (0, 0)

/-- The one-hot encoding of the position: `1` for a long, `-1` for a short. -/
def positionOneHot (numSymbols : ℕ) (positionSym : ℤ) : List ℚ :=
  (List.range numSymbols).map fun s =>
    if positionSym = s then 1 else if positionSym = numSymbols + s then -1 else 0

/-- `fill_observations`. -/
def fillObservations (md : MarketData) (p : Params) (ag : AgentState) : Checked (List ℚ) := do
  let tObs := obsRow md p ag
  let feats ← featureRow md tObs
  let (posVal, unrealPnl) ← positionValue md tObs ag
  let denom : ℤ := if p.maxSteps > 0 then p.maxSteps else 1
  let hoursInPosition ← fdiv ag.holdHours denom
  let episodeProgress ← fdiv ag.step denom
  pure (feats ++ [ag.cash / initialCash, posVal / initialCash, unrealPnl / initialCash,
    hoursInPosition, episodeProgress] ++ positionOneHot md.numSymbols ag.positionSym)

/-! ## Portfolio valuation -/

/-- `compute_equity`: cash plus the position at the close of row `t`. -/
def computeEquity (md : MarketData) (t : ℤ) (ag : AgentState) : Checked ℚ :=
  if ag.positionSym ≥ 0 then do
    let sym ← cmod ag.positionSym md.numSymbols
    let curPrice ← getPrice md t sym .pClose
    if ag.positionSym ≥ md.numSymbols then pure (ag.cash - ag.positionQty * curPrice)
    else pure (ag.cash + ag.positionQty * curPrice)
  else pure ag.cash

/-- `periods_per_year`, or `8760` when it is not positive. -/
def Params.ppy (p : Params) : ℚ := if p.periodsPerYear ≤ 0 then 8760 else p.periodsPerYear

/-- `borrow_fee`: charged on a short, or on the borrowed part of a levered long. -/
def borrowFee (md : MarketData) (p : Params) (t : ℤ) (ag : AgentState) : Checked ℚ :=
  if p.shortBorrowApr ≤ 0 ∨ ag.positionQty ≤ 0 then pure 0
  else do
    let sym ← cmod ag.positionSym md.numSymbols
    let curPrice ← getPrice md t sym .pClose
    if curPrice ≤ 0 then pure 0
    else if ag.positionSym ≥ md.numSymbols then
      fdiv (ag.positionQty * curPrice * p.shortBorrowApr) p.ppy
    else if p.maxLeverage > 1 then do
      let inverse ← fdiv 1 p.maxLeverage
      let borrowed := ag.positionQty * curPrice * (1 - inverse)
      if borrowed ≤ 0 then pure 0 else fdiv (borrowed * p.shortBorrowApr) p.ppy
    else pure 0

/-- `should_drawdown_profit_early_exit`. -/
def shouldDrawdownProfitEarlyExit (p : Params) (ag : AgentState) (equityAfter : ℚ) :
    Checked Bool :=
  if p.enableDrawdownProfitEarlyExit = 0 then pure false
  else if p.maxSteps < 2 then pure false
  else if p.maxSteps < p.drawdownProfitEarlyExitMinSteps then pure false
  else if ag.initialEquity ≤ 0 then pure false
  else do
    let progress ← fdiv (ag.step + 1 : ℤ) p.maxSteps
    let progress := if progress > 1 then 1 else progress
    if progress < p.drawdownProfitEarlyExitProgressFraction then pure false
    else do
      let totalReturn ← fdiv (equityAfter - ag.initialEquity) ag.initialEquity
      pure (decide (ag.maxDrawdown > totalReturn))

/-! ## Actions -/

/-- What an action asks for. -/
inductive Decoded where
  /-- Action `0`: go flat. -/
  | flat
  /-- A long or short target, with its allocation and level bins. -/
  | target (isShort : Bool) (sym allocIdx levelIdx : ℤ)
  /-- An action outside the action space: hold. -/
  | invalid
  deriving DecidableEq, Repr

/-- The decoding of an action by `c_step`: longs are `1..side_block`, shorts the next
`side_block` actions, and each side factors as (symbol, allocation bin, level bin). -/
def decodeAction (p : Params) (numSymbols : ℕ) (action : ℤ) : Checked Decoded :=
  let allocBins := if p.actionAllocationBins < 1 then 1 else p.actionAllocationBins
  let levelBins := if p.actionLevelBins < 1 then 1 else p.actionLevelBins
  let perSymbolActions := allocBins * levelBins
  let sideBlock := numSymbols * perSymbolActions
  if action = 0 then pure .flat
  else if action ≥ 1 ∧ action ≤ 2 * sideBlock then do
    let isShort := decide (action - 1 ≥ sideBlock)
    let actionIdx := if isShort then action - 1 - sideBlock else action - 1
    let targetSym ← cdiv actionIdx perSymbolActions
    let rem ← cmod actionIdx perSymbolActions
    let allocIdx ← cdiv rem levelBins
    let levelIdx ← cmod rem levelBins
    pure (.target isShort targetSym allocIdx levelIdx)
  else pure .invalid

/-- The forced close of a position held for `max_hold_hours`: the agent afterwards and the
number of trade events. -/
def forceClose (md : MarketData) (p : Params) (t : ℤ) (ag : AgentState) :
    Checked (AgentState × ℤ) :=
  if p.maxHoldHours > 0 ∧ ag.positionSym ≥ 0 ∧ ag.holdHours ≥ p.maxHoldHours then do
    let cs ← cmod ag.positionSym md.numSymbols
    let open_ ← isTradable md t cs
    if open_ then do
      let (ag', closed) ← closePosition md p t ag
      pure (ag', if closed then 1 else 0)
    else pure (ag, 0)
  else pure (ag, 0)

/-- Whether the held symbol trades at row `t`; true when flat. -/
def curTradable (md : MarketData) (t : ℤ) (ag : AgentState) : Checked Bool :=
  if ag.positionSym ≥ 0 then do
    let sym ← cmod ag.positionSym md.numSymbols
    isTradable md t sym
  else pure true

/-- Action `0`: close the position, or hold it while its market is closed. -/
def goFlat (md : MarketData) (p : Params) (t : ℤ) (tradable : Bool) (ag : AgentState) :
    Checked (AgentState × ℤ) :=
  if ag.positionSym ≥ 0 then
    if tradable then do
      let (ag', closed) ← closePosition md p t ag
      pure (ag', if closed then 1 else 0)
    else pure (ag.hold, 0)
  else pure (ag, 0)

/-- The roll of the fill-probability gate; no word is drawn when every order fills. -/
def fillGate (p : Params) (rng : UInt64) : Bool × UInt64 :=
  if p.fillProbability < 1 then
    let (roll, rng') := fastRandFloat rng
    (decide (roll ≤ p.fillProbability), rng')
  else (true, rng)

/-- The position a target stands for. -/
def targetPosId (numSymbols : ℕ) (isShort : Bool) (sym : ℤ) : ℤ :=
  if isShort then numSymbols + sym else sym

/-- The entry on the side of the target. -/
def openTarget (md : MarketData) (p : Params) (t : ℤ) (isShort : Bool) (sym : ℤ)
    (alloc level : ℚ) (ag : AgentState) : Checked AgentState :=
  if isShort then openShort md p t sym alloc level ag else openLong md p t sym alloc level ag

/-- The order of a switch, after the old position was closed: the fill gate, then the entry. -/
def enterTarget (md : MarketData) (p : Params) (t : ℤ) (isShort : Bool) (sym : ℤ)
    (alloc level : ℚ) (ag : AgentState) (rng : UInt64) (events : ℤ) :
    Checked (AgentState × UInt64 × ℤ) := do
  let (fillOk, rng) := fillGate p rng
  if fillOk then do
    let ag' ← openTarget md p t isShort sym alloc level ag
    let opened := decide (ag'.positionSym = targetPosId md.numSymbols isShort sym)
    pure (ag', rng, if opened then events + 1 else events)
  else pure (ag, rng, events)

/-- A long or short target: hold it, hold on while a market is closed, or switch to it. -/
def goTarget (md : MarketData) (p : Params) (t : ℤ) (tradable isShort : Bool)
    (sym allocIdx levelIdx : ℤ) (ag : AgentState) (rng : UInt64) :
    Checked (AgentState × UInt64 × ℤ) := do
  let alloc ← actionAllocationPct p allocIdx
  let level ← actionLevelOffsetBps p levelIdx
  let targetTradable ← isTradable md t sym
  if ag.positionSym = targetPosId md.numSymbols isShort sym then pure (ag.hold, rng, 0)
  else if !targetTradable then
    -- the target market is closed: do nothing, to avoid accidental closes
    pure (if ag.positionSym ≥ 0 then ag.hold else ag, rng, 0)
  else if ag.positionSym ≥ 0 ∧ !tradable then pure (ag.hold, rng, 0)
  else if ag.positionSym ≥ 0 then do
    let (ag', closed) ← closePosition md p t ag
    -- a refused close has already ticked the hold clock, and nothing is opened
    if closed then enterTarget md p t isShort sym alloc level ag' rng 1
    else pure (ag', rng, 0)
  else enterTarget md p t isShort sym alloc level ag rng 0

/-- The action of the step: the agent, the generator and the trade events it caused. -/
def applyAction (md : MarketData) (p : Params) (t : ℤ) (tradable : Bool) (action : ℤ)
    (ag : AgentState) (rng : UInt64) : Checked (AgentState × UInt64 × ℤ) := do
  match ← decodeAction p md.numSymbols action with
  | .flat => do
    let (ag', events) ← goFlat md p t tradable ag
    pure (ag', rng, events)
  | .target isShort sym allocIdx levelIdx =>
    goTarget md p t tradable isShort sym allocIdx levelIdx ag rng
  | .invalid => pure (ag, rng, 0)

/-! ## One step -/

/-- The step up to the advance of time: the agent after trading, with the valuation taken
before the action. -/
structure Executed where
  agent : AgentState
  rng : UInt64
  tradeEvents : ℤ
  anyTradable : Bool
  equityBefore : ℚ

/-- The bar that `c_step` trades at. -/
def tradeRow (md : MarketData) (ag : AgentState) : ℤ := clampRow md (ag.dataOffset + ag.step)

/-- `c_step` up to the advance of time. -/
def executeBar (md : MarketData) (p : Params) (ag : AgentState) (rng : UInt64)
    (action : ℤ) : Checked Executed := do
  let t := tradeRow md ag
  let (ag, forced) ← forceClose md p t ag
  let tradable ← curTradable md t ag
  let anyTradable ← anyTradableAt md t
  let equityBefore ← computeEquity md t ag
  let (ag, rng, events) ← applyAction md p t tradable action ag rng
  pure ⟨ag, rng, forced + events, anyTradable, equityBefore⟩

/-- The step after time advanced: the agent with its statistics, and the bar's figures. -/
structure Marked where
  agent : AgentState
  tNew : ℤ
  equityAfter : ℚ
  ret : ℚ
  currentDrawdown : ℚ

/-- The return of a step; `0` when the equity before it was not positive. -/
def stepReturn (equityBefore equityAfter : ℚ) : Checked ℚ :=
  if equityBefore > 1 / 1000000 then fdiv (equityAfter - equityBefore) equityBefore else pure 0

/-- The Sortino sums after a step with return `ret`. -/
def AgentState.trackReturn (ret : ℚ) (ag : AgentState) : AgentState :=
  { ag with
    sumRet := ag.sumRet + ret
    retCount := ag.retCount + 1
    sumNegSq := if ret < 0 then ag.sumNegSq + ret * ret else ag.sumNegSq }

/-- The peak after a step that ended at `equityAfter`. -/
def AgentState.trackPeak (equityAfter : ℚ) (ag : AgentState) : AgentState :=
  { ag with peakEquity := if equityAfter > ag.peakEquity then equityAfter else ag.peakEquity }

/-- The drawdown of a step, with the running maximum updated. -/
def trackDrawdown (equityAfter : ℚ) (ag : AgentState) : Checked (AgentState × ℚ) :=
  if ag.peakEquity > 0 then do
    let dd ← fdiv (ag.peakEquity - equityAfter) ag.peakEquity
    pure ({ ag with maxDrawdown := if dd > ag.maxDrawdown then dd else ag.maxDrawdown }, dd)
  else pure (ag, 0)

/-- `ag->step++`. -/
def AgentState.tick (ag : AgentState) : AgentState := { ag with step := ag.step + 1 }

/-- The borrow fee, charged when it is positive. -/
def AgentState.charge (bfee : ℚ) (ag : AgentState) : AgentState :=
  { ag with cash := if bfee > 0 then ag.cash - bfee else ag.cash }

/-- `c_step` from the advance of time to the drawdown update. -/
def markToMarket (md : MarketData) (p : Params) (x : Executed) : Checked Marked := do
  let ag := x.agent.tick
  let tNew := tradeRow md ag
  let equity ← computeEquity md tNew ag
  let bfee ← borrowFee md p tNew ag
  let equityAfter := if bfee > 0 then equity - bfee else equity
  let ret ← stepReturn x.equityBefore equityAfter
  let (ag, currentDrawdown) ← trackDrawdown equityAfter
    (((ag.charge bfee).trackReturn ret).trackPeak equityAfter)
  pure ⟨ag, tNew, equityAfter, ret, currentDrawdown⟩

/-- The smooth downside term: a softplus of the scaled loss. -/
def smoothNeg (lm : Libm) (p : Params) (ret : ℚ) : Checked ℚ := do
  let temp := if p.smoothDownsideTemperature ≤ 1 / 1000000 then 1 / 1000000
    else p.smoothDownsideTemperature
  let x ← fdiv (-ret) temp
  let softplus := if x > 20 then x else if x < -20 then lm.expf x else lm.log1pf (lm.expf x)
  pure (temp * softplus)

/-- The smooth downside penalty, when it is enabled. -/
def smoothDownside (lm : Libm) (p : Params) (ret reward : ℚ) : Checked ℚ :=
  if p.smoothDownsidePenalty > 0 then do
    let s ← smoothNeg lm p ret
    pure (reward - p.smoothDownsidePenalty * (s * s))
  else pure reward

/-- The scaled return, clipped to `[-reward_clip, reward_clip]`. -/
def clippedReturn (p : Params) (ret : ℚ) : ℚ :=
  let reward := ret * p.rewardScale
  let reward := if reward > p.rewardClip then p.rewardClip else reward
  if reward < -p.rewardClip then -p.rewardClip else reward

/-- The reward of a step: the clipped return minus the enabled penalties. -/
def shapedReward (lm : Libm) (p : Params) (x : Executed) (m : Marked) : Checked ℚ := do
  let reward := clippedReturn p m.ret
  let reward := if m.agent.positionSym < 0 ∧ x.anyTradable then reward - p.cashPenalty else reward
  let reward := if p.drawdownPenalty > 0 ∧ m.currentDrawdown > 0 then
    reward - p.drawdownPenalty * m.currentDrawdown else reward
  let reward := if p.downsidePenalty > 0 ∧ m.ret < 0 then
    reward - p.downsidePenalty * (m.ret * m.ret) else reward
  let reward ← smoothDownside lm p m.ret reward
  let reward := if p.tradePenalty > 0 ∧ x.tradeEvents > 0 then
    reward - p.tradePenalty * x.tradeEvents else reward
  let diff := m.ret - m.agent.prevRet
  pure (if p.smoothnessPenalty > 0 ∧ m.agent.retCount > 0 then
    reward - p.smoothnessPenalty * (diff * diff) else reward)

/-! ## Reset -/

/-- The start row of an episode: `forced_offset`, or a drawn one. -/
def startOffset (md : MarketData) (p : Params) (rng : UInt64) : ℤ × UInt64 :=
  let maxOffset := md.numTimesteps - p.maxSteps - 1
  if p.forcedOffset ≥ 0 then
    (if p.forcedOffset > maxOffset ∧ maxOffset ≥ 0 then maxOffset else p.forcedOffset, rng)
  else if maxOffset ≤ 0 then (0, rng)
  else fastRandInt (maxOffset + 1) rng

/-- The agent at the start of an episode. -/
def AgentState.initial (dataOffset : ℤ) : AgentState where
  cash := initialCash
  positionSym := -1
  positionQty := 0
  entryPrice := 0
  holdHours := 0
  peakEquity := initialCash
  initialEquity := initialCash
  numTrades := 0
  winningTrades := 0
  sumNegSq := 0
  sumRet := 0
  retCount := 0
  prevRet := 0
  maxDrawdown := 0
  dataOffset := dataOffset
  step := 0

/-- `reset_agent_state`. -/
def resetAgentState (md : MarketData) (p : Params) (rng : UInt64) : AgentState × UInt64 :=
  let start := startOffset md p rng
  (AgentState.initial start.1, start.2)

/-- `c_reset`. -/
def cReset (md : MarketData) (p : Params) (env : EnvState) : Checked EnvState := do
  let (ag, rng) := resetAgentState md p env.rng
  let obs ← fillObservations md p ag
  pure { env with agent := ag, rng := rng, observations := obs, reward := 0, terminal := false }

/-! ## The end of an episode -/

/-- The annualised Sortino ratio of an episode. -/
def sortinoRatio (lm : Libm) (p : Params) (ag : AgentState) : Checked ℚ :=
  if ag.retCount > 1 ∧ ag.sumNegSq > 0 then do
    let meanRet ← fdiv ag.sumRet ag.retCount
    let meanSq ← fdiv ag.sumNegSq ag.retCount
    let downsideDev := lm.sqrtf meanSq
    if downsideDev > 1 / 100000000 then do
      let ratio ← fdiv meanRet downsideDev
      pure (ratio * lm.sqrtf p.ppy)
    else pure 0
  else pure 0

/-- The closing of the last position at row `t`, with the equity the episode is scored at: the
cash after the close, or the marked position when the guard refused it. -/
def finalClose (md : MarketData) (p : Params) (t : ℤ) (ag : AgentState) :
    Checked (AgentState × ℚ) :=
  if ag.positionSym ≥ 0 then do
    let (ag', closed) ← closePosition md p t ag
    if closed then pure (ag', ag'.cash)
    else do
      let equity ← computeEquity md t ag'
      pure (ag', equity)
  else pure (ag, ag.cash)

/-- A quotient of counters, `0` when the denominator is not positive. -/
def perTrade (x n : ℤ) : Checked ℚ := if n > 0 then fdiv x n else pure 0

/-- The log after an episode that ended with agent `ag` and equity `finalEquity`. -/
def logEpisode (lm : Libm) (p : Params) (ag : AgentState) (finalEquity : ℚ) (log : Log) :
    Checked Log := do
  let totalReturn ← fdiv (finalEquity - ag.initialEquity) ag.initialEquity
  let sortino ← sortinoRatio lm p ag
  let winRate ← perTrade ag.winningTrades ag.numTrades
  let avgHoldHours ← perTrade ag.step ag.numTrades
  pure {
    totalReturn := log.totalReturn + totalReturn
    sortino := log.sortino + sortino
    maxDrawdown := log.maxDrawdown + ag.maxDrawdown
    numTrades := log.numTrades + ag.numTrades
    winRate := log.winRate + winRate
    avgHoldHours := log.avgHoldHours + avgHoldHours
    n := log.n + 1 }

/-- The terminal branch of `c_step`: the final close, the log and the auto-reset. -/
def finishEpisode (lm : Libm) (md : MarketData) (p : Params) (tNew : ℤ) (ag : AgentState)
    (rng : UInt64) (log : Log) (reward : ℚ) : Checked EnvState := do
  let (closedAg, finalEquity) ← finalClose md p tNew ag
  let log ← logEpisode lm p closedAg finalEquity log
  let (ag, rng) := resetAgentState md p rng
  let obs ← fillObservations md p ag
  pure ⟨ag, rng, log, obs, reward, true⟩

/-- Whether a step ends the episode. -/
def isDone (md : MarketData) (p : Params) (m : Marked) (earlyExit : Bool) : Bool :=
  decide (m.agent.step ≥ p.maxSteps) || decide (m.tNew ≥ md.numTimesteps - 1) || earlyExit ||
    decide (m.equityAfter < initialCash * (1 / 100))

/-- `c_step`. -/
def cStep (lm : Libm) (md : MarketData) (p : Params) (env : EnvState) (action : ℤ) :
    Checked EnvState := do
  let x ← executeBar md p env.agent env.rng action
  let m ← markToMarket md p x
  let reward ← shapedReward lm p x m
  let earlyExit ← shouldDrawdownProfitEarlyExit p m.agent m.equityAfter
  let ag := { m.agent with prevRet := m.ret }
  if isDone md p m earlyExit then finishEpisode lm md p m.tNew ag x.rng env.log reward
  else do
    let obs ← fillObservations md p ag
    pure ⟨ag, x.rng, env.log, obs, reward, false⟩

/-! ## What a step can do -/

section Cases

variable {lm : Libm} {md : MarketData} {p : Params} {env env' : EnvState}

/-- The drawdown update raises the running maximum, and changes nothing else. -/
lemma trackDrawdown_eq_ok {equityAfter : ℚ} {ag : AgentState} {r : AgentState × ℚ}
    (h : trackDrawdown equityAfter ag = .ok r) :
    ∃ dd, r.1 = { ag with maxDrawdown := dd } ∧ ag.maxDrawdown ≤ dd := by
  unfold trackDrawdown at h
  split at h
  · obtain ⟨dd, -, h⟩ := bind_eq_ok.mp h
    rw [← pure_eq_ok.mp h]
    refine ⟨_, rfl, ?_⟩
    split_ifs with hdd
    · exact hdd.le
    · exact le_rfl
  · rw [← pure_eq_ok.mp h]
    exact ⟨ag.maxDrawdown, rfl, le_rfl⟩

/-- **Steps.** A step that returns trades at its bar and marks the agent at the next one. Then it
ends the episode with the final close, and leaves a fresh agent; or it goes on with the marked
agent. -/
theorem cStep_cases {action : ℤ} (h : cStep lm md p env action = .ok env') :
    ∃ x m, executeBar md p env.agent env.rng action = .ok x ∧ markToMarket md p x = .ok m ∧
      ((env'.terminal = true ∧ env'.agent = (resetAgentState md p x.rng).1 ∧
        ∃ r, finalClose md p m.tNew { m.agent with prevRet := m.ret } = .ok r) ∨
      (env'.terminal = false ∧ env'.agent = { m.agent with prevRet := m.ret } ∧
        env'.rng = x.rng ∧
        fillObservations md p { m.agent with prevRet := m.ret } = .ok env'.observations)) := by
  unfold cStep at h
  obtain ⟨x, hx, h⟩ := bind_eq_ok.mp h
  obtain ⟨m, hm, h⟩ := bind_eq_ok.mp h
  obtain ⟨reward, -, h⟩ := bind_eq_ok.mp h
  obtain ⟨earlyExit, -, h⟩ := bind_eq_ok.mp h
  refine ⟨x, m, hx, hm, ?_⟩
  dsimp only at h
  split at h
  · obtain ⟨r, hr, h⟩ := bind_eq_ok.mp h
    obtain ⟨log, -, h⟩ := bind_eq_ok.mp h
    obtain ⟨obs, -, h⟩ := bind_eq_ok.mp h
    rw [← pure_eq_ok.mp h]
    exact .inl ⟨rfl, rfl, r, hr⟩
  · obtain ⟨obs, hobs, h⟩ := bind_eq_ok.mp h
    rw [← pure_eq_ok.mp h]
    exact .inr ⟨rfl, rfl, rfl, hobs⟩

end Cases

/-! ## Runs -/

/-- The `c_step`s of a list of actions. -/
def runFrom (lm : Libm) (md : MarketData) (p : Params) : EnvState → List ℤ → Checked EnvState
  | env, [] => pure env
  | env, a :: as => do
    let env' ← cStep lm md p env a
    runFrom lm md p env' as

/-- A `c_reset` followed by the `c_step`s of a list of actions. -/
def episode (lm : Libm) (md : MarketData) (p : Params) (env : EnvState) (actions : List ℤ) :
    Checked EnvState := do
  let env' ← cReset md p env
  runFrom lm md p env' actions

lemma runFrom_concat {lm : Libm} {md : MarketData} {p : Params} (a : ℤ) :
    ∀ (actions : List ℤ) (env : EnvState), runFrom lm md p env (actions ++ [a]) =
      runFrom lm md p env actions >>= fun env' => cStep lm md p env' a
  | [], env => by simp [runFrom]
  | b :: actions, env => by
    simp only [List.cons_append, runFrom, bind_assoc]
    congr 1
    funext env'
    exact runFrom_concat a actions env'

/-- One action more is one step more. -/
lemma episode_concat {lm : Libm} {md : MarketData} {p : Params} (env : EnvState)
    (actions : List ℤ) (a : ℤ) : episode lm md p env (actions ++ [a]) =
      episode lm md p env actions >>= fun env' => cStep lm md p env' a := by
  simp only [episode, runFrom_concat, bind_assoc]

/-- The zeroed environment that `keel_env_create` allocates, with the state of the generator. -/
def EnvState.zero (rng : UInt64) : EnvState where
  agent := { AgentState.initial 0 with
    cash := 0, positionSym := 0, peakEquity := 0, initialEquity := 0 }
  rng := rng
  log := ⟨0, 0, 0, 0, 0, 0, 0⟩
  observations := []
  reward := 0
  terminal := false

/-- **Run rule.** What a step preserves holds after every list of actions. -/
theorem runFrom_induction {lm : Libm} {md : MarketData} {p : Params} {I : EnvState → Prop}
    (hstep : ∀ env a, I env → Returns (cStep lm md p env a) I) :
    ∀ (actions : List ℤ) (env : EnvState), I env → Returns (runFrom lm md p env actions) I
  | [], _, h => Returns.pure h
  | a :: as, env, h => (hstep env a h).bind fun env' h' => runFrom_induction hstep as env' h'

/-- What `c_reset` establishes and a step preserves holds after every episode prefix. -/
theorem episode_induction {lm : Libm} {md : MarketData} {p : Params} {I : EnvState → Prop}
    (hreset : ∀ env, Returns (cReset md p env) I)
    (hstep : ∀ env a, I env → Returns (cStep lm md p env a) I) (env : EnvState)
    (actions : List ℤ) : Returns (episode lm md p env actions) I :=
  (hreset env).bind fun env' h => runFrom_induction hstep actions env' h

/-- The same for the runs that return: what a reset ensures and the given actions preserve. -/
theorem episode_ensures {lm : Libm} {md : MarketData} {p : Params} {I : EnvState → Prop}
    {env : EnvState} (hreset : Ensures (cReset md p env) I) (actions : List ℤ)
    (hkeep : ∀ e, ∀ a ∈ actions, I e → Ensures (cStep lm md p e a) I) :
    Ensures (episode lm md p env actions) I := by
  induction actions using List.reverseRecOn with
  | nil => exact hreset.bind fun e he => Ensures.pure he
  | append_singleton actions a ih =>
    rw [episode_concat]
    refine (ih fun e b hb => hkeep e b (by simp [hb])).bind fun e he => ?_
    exact hkeep e a (by simp) he

end KeelTrader.Sim
