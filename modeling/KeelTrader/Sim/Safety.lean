import KeelTrader.Sim.Frame

set_option relaxedAutoImplicit false
set_option autoImplicit false

/-!
# State and memory safety of the simulator

Every run of the environment on a data set with at least one symbol and one row returns: no
read leaves the data and no division has a zero denominator, whatever the parameters and the
actions are. Along the way the agent's fields stay consistent with each other.

## Main definitions

* `KeelTrader.Sim.AgentState.Flat`, `AgentState.Held` — the two shapes of the position fields.
* `KeelTrader.Sim.AgentState.Ok` — the invariant of an agent at the start of a step.

## Main results

* `KeelTrader.Sim.executeBar_ok`, `markToMarket_ok`, `finishEpisode_ok` — the parts of a step
  keep the invariant and do not fault.
* `KeelTrader.Sim.cReset_ok`, `cStep_ok` — `c_reset` establishes it and `c_step` preserves it.
* `KeelTrader.Sim.episode_safe` — it holds after every sequence of actions.
-/

namespace KeelTrader.Sim

open Checked

/-! ## The invariant -/

/-- Position fields of an agent that holds nothing. -/
structure FlatFields (positionSym : ℤ) (positionQty entryPrice : ℚ) (holdHours : ℤ) : Prop where
  sym : positionSym = -1
  qty : positionQty = 0
  entry : entryPrice = 0
  hold : holdHours = 0

/-- Position fields of an agent that holds a long or short position. -/
structure HeldFields (md : MarketData) (positionSym : ℤ) (positionQty entryPrice : ℚ) : Prop where
  nonneg : 0 ≤ positionSym
  lt : positionSym < 2 * md.numSymbols
  qty : 0 < positionQty
  entry : 0 < entryPrice

/-- The agent holds nothing. -/
abbrev AgentState.Flat (ag : AgentState) : Prop :=
  FlatFields ag.positionSym ag.positionQty ag.entryPrice ag.holdHours

/-- The agent holds a position. -/
abbrev AgentState.Held (md : MarketData) (ag : AgentState) : Prop :=
  HeldFields md ag.positionSym ag.positionQty ag.entryPrice

/-- The invariant of the agent between two steps. -/
structure AgentState.Ok (md : MarketData) (ag : AgentState) : Prop where
  position : ag.Flat ∨ ag.Held md
  winning_nonneg : 0 ≤ ag.winningTrades
  winning_le : ag.winningTrades ≤ ag.numTrades
  retCount : ag.retCount = ag.step
  step : 0 ≤ ag.step
  offset : 0 ≤ ag.dataOffset
  initial : ag.initialEquity = initialCash
  peak : initialCash ≤ ag.peakEquity
  drawdown : 0 ≤ ag.maxDrawdown

variable {lm : Libm} {md : MarketData} {p : Params} {t : ℤ} {ag : AgentState}

/-- An agent that is not flat is held. -/
lemma AgentState.Ok.held (h : ag.Ok md) (hpos : 0 ≤ ag.positionSym) : ag.Held md := by
  rcases h.position with hf | hh
  · exact absurd hf.sym (by omega)
  · exact hh

/-- An agent without a position index is flat. -/
lemma AgentState.Ok.flat (h : ag.Ok md) (hneg : ag.positionSym < 0) : ag.Flat := by
  rcases h.position with hf | hh
  · exact hf
  · exact absurd hh.nonneg (by omega)

/-- The bar a step trades at is a row of the data. -/
lemma AgentState.Ok.tradeRow (h : ag.Ok md) (hT : 0 < md.numTimesteps) :
    0 ≤ tradeRow md ag ∧ tradeRow md ag < md.numTimesteps :=
  clampRow_range md hT (by have := h.step; have := h.offset; omega)

/-- Ticking the hold clock of a held position keeps the invariant. -/
lemma AgentState.Ok.hold (h : ag.Ok md) (hpos : 0 ≤ ag.positionSym) : ag.hold.Ok md := by
  have hh := h.held hpos
  exact { h with position := .inr ⟨hh.nonneg, hh.lt, hh.qty, hh.entry⟩ }

/-- Closing a position keeps the invariant and leaves the agent flat. -/
lemma AgentState.Ok.closedAt (h : ag.Ok md) (isShort : Bool) (price : ℚ) :
    (ag.closedAt p isShort price).Ok md := by
  have hw := h.winning_nonneg
  have hle := h.winning_le
  refine { h with
    position := .inl ⟨rfl, rfl, rfl, rfl⟩
    winning_nonneg := ?_
    winning_le := ?_ }
  all_goals
    dsimp only [AgentState.closedAt]
    split <;> omega

/-! ## Valuation does not fault -/

lemma ppy_pos : 0 < p.ppy := by
  unfold Params.ppy
  split <;> linarith

/-- The borrow fee reads the held symbol: a positive quantity means a held position. -/
lemma borrowFee_returns (hS : 0 < md.numSymbols) (ht : 0 ≤ t ∧ t < md.numTimesteps)
    (h : ag.Flat ∨ ag.Held md) : Returns (borrowFee md p t ag) fun _ => True := by
  unfold borrowFee
  refine Returns.ite (fun _ => Returns.pure trivial) fun hqty => ?_
  have hpos : 0 ≤ ag.positionSym := by
    rcases h with hf | hh
    · exact absurd (Or.inr hf.qty.le) hqty
    · exact hh.nonneg
  have hppy : p.ppy ≠ 0 := ppy_pos.ne'
  refine (cmod_returns hpos hS).bind fun sym hsym => ?_
  rw [bind_of_eq_ok (getPrice_of_lt ht ⟨hsym.1, hsym.2.1⟩ _)]
  refine Returns.ite (fun _ => Returns.pure trivial) fun _ => ?_
  refine Returns.ite (fun _ => ⟨_, fdiv_of_ne hppy, trivial⟩) fun _ => ?_
  refine Returns.ite (fun hlev => ?_) fun _ => Returns.pure trivial
  rw [bind_of_eq_ok (fdiv_of_ne (by linarith))]
  exact Returns.ite (fun _ => Returns.pure trivial) fun _ => ⟨_, fdiv_of_ne hppy, trivial⟩

/-- The observed row is a row of the data. -/
lemma obsRow_range (p : Params) (ag : AgentState) (hT : 0 < md.numTimesteps) :
    0 ≤ obsRow md p ag ∧ obsRow md p ag < md.numTimesteps := by
  have hlag : 1 ≤ if p.decisionLag ≥ 1 then p.decisionLag else 1 := by split <;> omega
  have ht : 0 ≤ if ag.dataOffset + ag.step < 0 then 0 else ag.dataOffset + ag.step := by
    split <;> omega
  have hlagged : ∀ r lag : ℤ, 0 ≤ r ∧ r < md.numTimesteps → 1 ≤ lag →
      0 ≤ (if r - lag < 0 then 0 else r - lag) ∧
        (if r - lag < 0 then 0 else r - lag) < md.numTimesteps := by
    intro r lag hr hl
    split <;> omega
  exact hlagged _ _ (clampRow_range md hT ht) hlag

lemma fillObservations_returns (h : ag.Priced md) (hT : 0 < md.numTimesteps) :
    Returns (fillObservations md p ag) fun _ => True := by
  have hrow := obsRow_range p ag hT
  have hdenom : ((if p.maxSteps > 0 then p.maxSteps else 1 : ℤ) : ℚ) ≠ 0 := by
    have : (if p.maxSteps > 0 then p.maxSteps else 1) ≠ 0 := by split <;> omega
    exact_mod_cast this
  unfold fillObservations
  refine (featureRow_returns hrow).bind fun feats _ => ?_
  refine (positionValue_returns hrow h).bind fun value _ => ?_
  simp only [fdiv_of_ne hdenom]
  exact Returns.pure trivial

/-! ## Trading keeps the invariant -/

/-- A booked order keeps the invariant: the rule only sizes fills at a positive price. -/
lemma AgentState.Ok.booked (h : ag.Ok md) {pos : ℤ} {f q cash : ℚ} (hpos : 0 ≤ pos)
    (hlt : pos < 2 * md.numSymbols) (hf : 0 < f) (hq : 0 < q) :
    ({ ag with
        cash := cash
        positionSym := pos
        positionQty := q
        entryPrice := f
        holdHours := 0 } : AgentState).Ok md :=
  { h with position := .inr ⟨hpos, hlt, hq, hf⟩ }

/-- With a nonnegative fee, the price of a sized order is positive. -/
lemma sizedFill_price_pos (hfee : 0 ≤ p.feeRate) {sym : ℤ} {alloc level cash f q : ℚ}
    {isBuy : Bool} (h : sizedFill md p t sym alloc level isBuy cash = .ok (some (f, q))) :
    0 < f := by
  obtain ⟨-, -, hdenom, -⟩ := sizedFill_spec h
  exact pos_of_mul_pos_left hdenom (by linarith)

/-- **Trading invariant.** The operations on a position keep the fields consistent. -/
theorem okInvariant (hfee : 0 ≤ p.feeRate) : TradeInvariant md p (AgentState.Ok md) where
  hold _ hpos h := h.hold hpos
  closed t ag ag' hclose h := by
    obtain ⟨-, sym, price, -, -, rfl⟩ := closedAt_of_close hclose
    exact h.closedAt _ _
  opened t isShort sym alloc level ag ag' _ hsym hopen h := by
    rcases openTarget_cases hopen with rfl | ⟨f, q, hfq, rfl⟩
    · exact h
    · obtain ⟨hpos, hlt⟩ := targetPosId_range isShort hsym
      exact h.booked hpos hlt (sizedFill_price_pos hfee hfq) (sizedFill_spec hfq).2.1

/-! ## The parts of a step -/

theorem executeBar_ok (hS : 0 < md.numSymbols) (hT : 0 < md.numTimesteps)
    (hfee : 0 ≤ p.feeRate) (rng : UInt64) (action : ℤ) (h : ag.Ok md) :
    Returns (executeBar md p ag rng action) fun x => x.agent.Ok md :=
  (executeBar_returns (h.tradeRow hT) (AgentState.priced_of_pos hS) rng action).of_values
    ((okInvariant hfee).executeBar rng action h)

lemma stepReturn_returns (equityBefore equityAfter : ℚ) :
    Returns (stepReturn equityBefore equityAfter) fun _ => True := by
  unfold stepReturn
  refine Returns.ite (fun hpos => ?_) fun _ => Returns.pure trivial
  exact ⟨_, fdiv_of_ne (by linarith), trivial⟩

/-- A tick of the clock, with a fee charged and a return counted, keeps the invariant. -/
lemma AgentState.Ok.advance (h : ag.Ok md) (bfee ret : ℚ) :
    ((ag.tick.charge bfee).trackReturn ret).Ok md := by
  have hs := h.step
  have hr := h.retCount
  exact { h with
    retCount := by
      dsimp only [AgentState.trackReturn, AgentState.charge, AgentState.tick]
      omega
    step := by
      dsimp only [AgentState.trackReturn, AgentState.charge, AgentState.tick]
      omega }

/-- The peak never falls. -/
lemma AgentState.Ok.trackPeak (h : ag.Ok md) (equityAfter : ℚ) :
    (ag.trackPeak equityAfter).Ok md := by
  refine { h with peak := ?_ }
  have hp := h.peak
  dsimp only [AgentState.trackPeak]
  split <;> linarith

lemma trackDrawdown_returns (equityAfter : ℚ) :
    Returns (trackDrawdown equityAfter ag) fun _ => True := by
  unfold trackDrawdown
  refine Returns.ite (fun hpos => ?_) fun _ => Returns.pure trivial
  rw [bind_of_eq_ok (fdiv_of_ne hpos.ne')]
  exact Returns.pure trivial

lemma trackDrawdown_ok (h : ag.Ok md) (equityAfter : ℚ) :
    Returns (trackDrawdown equityAfter ag) fun r => r.1.Ok md := by
  refine (trackDrawdown_returns equityAfter).of_values fun r hr => ?_
  obtain ⟨dd, hagent, hdd⟩ := trackDrawdown_eq_ok hr
  rw [hagent]
  exact { h with drawdown := h.drawdown.trans hdd }

/-- Marking does not fault when the borrow fee does not. -/
lemma markToMarket_returns {x : Executed}
    (ht : 0 ≤ tradeRow md x.agent.tick ∧ tradeRow md x.agent.tick < md.numTimesteps)
    (h : x.agent.Priced md)
    (hborrow : Returns (borrowFee md p (tradeRow md x.agent.tick) x.agent.tick) fun _ => True) :
    Returns (markToMarket md p x) fun _ => True := by
  unfold markToMarket
  have hpriced : x.agent.tick.Priced md := h
  refine (computeEquity_returns ht hpriced).bind fun equity _ => ?_
  refine hborrow.bind fun bfee _ => ?_
  refine (stepReturn_returns _ _).bind fun ret _ => ?_
  exact (trackDrawdown_returns _).bind fun r _ => Returns.pure trivial

/-- The bar after a step keeps the invariant. -/
theorem markToMarket_ok (hS : 0 < md.numSymbols) (hT : 0 < md.numTimesteps) {x : Executed}
    (h : x.agent.Ok md) :
    Returns (markToMarket md p x) fun m =>
      m.agent.Ok md ∧ 0 ≤ m.tNew ∧ m.tNew < md.numTimesteps := by
  have hclock : 0 ≤ x.agent.tick.dataOffset + x.agent.tick.step := by
    have hs := h.step
    have ho := h.offset
    dsimp only [AgentState.tick]
    omega
  have ht := clampRow_range md hT hclock
  unfold markToMarket
  refine (computeEquity_returns ht (AgentState.priced_of_pos hS)).bind fun equity _ => ?_
  refine (borrowFee_returns hS ht h.position).bind fun bfee _ => ?_
  refine (stepReturn_returns _ _).bind fun ret _ => ?_
  exact (trackDrawdown_ok ((h.advance bfee ret).trackPeak _) _).bind fun r hr =>
    Returns.pure ⟨hr, ht⟩

lemma smoothDownside_returns (ret reward : ℚ) :
    Returns (smoothDownside lm p ret reward) fun _ => True := by
  have htemp : (if p.smoothDownsideTemperature ≤ 1 / 1000000 then (1 / 1000000 : ℚ)
      else p.smoothDownsideTemperature) ≠ 0 := by
    split <;> linarith
  unfold smoothDownside
  refine Returns.ite (fun _ => ?_) fun _ => Returns.pure trivial
  simp only [smoothNeg, fdiv_of_ne htemp]
  exact Returns.pure trivial

lemma shapedReward_returns (x : Executed) (m : Marked) :
    Returns (shapedReward lm p x m) fun _ => True :=
  (smoothDownside_returns _ _).bind fun _ _ => Returns.pure trivial

lemma shouldDrawdownProfitEarlyExit_returns (equityAfter : ℚ) :
    Returns (shouldDrawdownProfitEarlyExit p ag equityAfter) fun _ => True := by
  unfold shouldDrawdownProfitEarlyExit
  refine Returns.ite (fun _ => Returns.pure trivial) fun _ => ?_
  refine Returns.ite (fun _ => Returns.pure trivial) fun hsteps => ?_
  refine Returns.ite (fun _ => Returns.pure trivial) fun _ => ?_
  refine Returns.ite (fun _ => Returns.pure trivial) fun hinit => ?_
  have hne : ((p.maxSteps : ℤ) : ℚ) ≠ 0 := by exact_mod_cast (by omega : p.maxSteps ≠ 0)
  rw [bind_of_eq_ok (fdiv_of_ne hne)]
  refine Returns.ite (fun _ => Returns.pure trivial) fun _ => ?_
  rw [bind_of_eq_ok (fdiv_of_ne (by linarith))]
  exact Returns.pure trivial

/-! ## Reset and the end of an episode -/

lemma startOffset_nonneg (md : MarketData) (p : Params) (rng : UInt64) :
    0 ≤ (startOffset md p rng).1 := by
  unfold startOffset
  dsimp only
  split
  · dsimp only
    split <;> omega
  · split
    · exact le_rfl
    · exact fastRandInt_nonneg _ _

/-- A fresh agent satisfies the invariant. -/
lemma resetAgentState_ok (md : MarketData) (p : Params) (rng : UInt64) :
    (resetAgentState md p rng).1.Ok md where
  position := .inl ⟨rfl, rfl, rfl, rfl⟩
  winning_nonneg := le_rfl
  winning_le := le_rfl
  retCount := rfl
  step := le_rfl
  offset := startOffset_nonneg md p rng
  initial := rfl
  peak := le_rfl
  drawdown := le_rfl

lemma perTrade_returns (x k : ℤ) : Returns (perTrade x k) fun _ => True := by
  unfold perTrade
  refine Returns.ite (fun hk => ?_) fun _ => Returns.pure trivial
  have hne : ((k : ℤ) : ℚ) ≠ 0 := by exact_mod_cast (by omega : k ≠ 0)
  exact ⟨_, fdiv_of_ne hne, trivial⟩

lemma sortinoRatio_returns : Returns (sortinoRatio lm p ag) fun _ => True := by
  unfold sortinoRatio
  refine Returns.ite (fun hc => ?_) fun _ => Returns.pure trivial
  have hne : ((ag.retCount : ℤ) : ℚ) ≠ 0 := by
    exact_mod_cast (by omega : ag.retCount ≠ 0)
  rw [bind_of_eq_ok (fdiv_of_ne hne), bind_of_eq_ok (fdiv_of_ne hne)]
  refine Returns.ite (fun hdev => ?_) fun _ => Returns.pure trivial
  rw [bind_of_eq_ok (fdiv_of_ne (by linarith))]
  exact Returns.pure trivial

lemma logEpisode_returns (hne : ag.initialEquity ≠ 0) (finalEquity : ℚ) (log : Log) :
    Returns (logEpisode lm p ag finalEquity log) fun _ => True := by
  unfold logEpisode
  rw [bind_of_eq_ok (fdiv_of_ne hne)]
  refine sortinoRatio_returns.bind fun _ _ => ?_
  refine (perTrade_returns _ _).bind fun _ _ => ?_
  exact (perTrade_returns _ _).bind fun _ _ => Returns.pure trivial

/-- The terminal branch does not fault and leaves a fresh agent. -/
theorem finishEpisode_returns (hT : 0 < md.numTimesteps) (ht : 0 ≤ t ∧ t < md.numTimesteps)
    (h : ag.Priced md) (hinit : ag.initialEquity ≠ 0) (rng : UInt64) (log : Log) (reward : ℚ) :
    Returns (finishEpisode lm md p t ag rng log reward) fun env =>
      env.agent = (resetAgentState md p rng).1 := by
  unfold finishEpisode
  refine ((finalClose_returns ht h).of_values finalClose_record).bind fun r hr => ?_
  have hinit' : r.1.initialEquity ≠ 0 := by
    rw [hr.initial]
    exact hinit
  refine (logEpisode_returns hinit' r.2 log).bind fun _ _ => ?_
  have hpriced : (resetAgentState md p rng).1.Priced md :=
    AgentState.priced_of_flat (by simp [resetAgentState, AgentState.initial])
  exact (fillObservations_returns hpriced hT).bind fun _ _ => Returns.pure rfl

/-! ## Runs -/

/-- A reset does not fault. -/
theorem cReset_returns (hT : 0 < md.numTimesteps) (env : EnvState) :
    Returns (cReset md p env) fun env' => env'.agent = (resetAgentState md p env.rng).1 := by
  have hpriced : (resetAgentState md p env.rng).1.Priced md :=
    AgentState.priced_of_flat (by simp [resetAgentState, AgentState.initial])
  exact (fillObservations_returns hpriced hT).bind fun _ _ => Returns.pure rfl

/-- A step does not fault on data with a row, unless the borrow fee does. -/
theorem cStep_returns (lm : Libm) (hT : 0 < md.numTimesteps) {env : EnvState} {action : ℤ}
    (hclock : 0 ≤ env.agent.dataOffset + env.agent.step) (h : env.agent.Priced md)
    (hinit : env.agent.initialEquity ≠ 0)
    (hborrow : ∀ x, executeBar md p env.agent env.rng action = .ok x →
      Returns (borrowFee md p (tradeRow md x.agent.tick) x.agent.tick) fun _ => True) :
    Returns (cStep lm md p env action) fun _ => True := by
  unfold cStep
  refine ((executeBar_returns (clampRow_range md hT hclock) h env.rng action).of_values
    Ensures.self).bind fun x hx => ?_
  have hpriced := pricedInvariant.executeBar env.rng action h x hx
  have hsame := executeBar_record env.rng action x hx
  have hclock' : 0 ≤ x.agent.tick.dataOffset + x.agent.tick.step := by
    show 0 ≤ x.agent.dataOffset + (x.agent.step + 1)
    rw [hsame.offset, hsame.step]
    omega
  have ht := clampRow_range md hT hclock'
  refine ((markToMarket_returns ht hpriced (hborrow x hx)).of_values Ensures.self).bind
    fun m hm => ?_
  have hrecord := markToMarket_record x m hm
  have hpriced' : ({ m.agent with prevRet := m.ret } : AgentState).Priced md := by
    show 0 ≤ m.agent.positionSym → 0 < md.numSymbols
    rw [(markToMarket_position x m hm).1]
    exact hpriced
  refine (shapedReward_returns x m).bind fun reward _ => ?_
  refine (shouldDrawdownProfitEarlyExit_returns m.equityAfter).bind fun earlyExit _ => ?_
  refine Returns.ite (fun _ => ?_) fun _ => ?_
  · have hinit' : ({ m.agent with prevRet := m.ret } : AgentState).initialEquity ≠ 0 := by
      show m.agent.initialEquity ≠ 0
      rw [hrecord.initial, hsame.initial]
      exact hinit
    rw [(markToMarket_position x m hm).2]
    exact (finishEpisode_returns hT ht hpriced' hinit' _ _ _).mono fun _ _ => trivial
  · exact (fillObservations_returns hpriced' hT).bind fun _ _ => Returns.pure trivial

/-- `c_reset` establishes the invariant. -/
theorem cReset_ok (hT : 0 < md.numTimesteps) (env : EnvState) :
    Returns (cReset md p env) fun env' => env'.agent.Ok md :=
  (cReset_returns hT env).mono fun env' h => by
    rw [h]
    exact resetAgentState_ok md p env.rng

/-- **Step.** `c_step` does not fault and preserves the invariant. -/
theorem cStep_ok (lm : Libm) (hS : 0 < md.numSymbols) (hT : 0 < md.numTimesteps)
    (hfee : 0 ≤ p.feeRate) (env : EnvState) (action : ℤ) (h : env.agent.Ok md) :
    Returns (cStep lm md p env action) fun env' => env'.agent.Ok md := by
  have hx := (executeBar_ok hS hT hfee env.rng action h).ensures
  have hclock : 0 ≤ env.agent.dataOffset + env.agent.step := Int.add_nonneg h.offset h.step
  have hinit : env.agent.initialEquity ≠ 0 := by
    rw [h.initial]
    norm_num [initialCash]
  have hborrow : ∀ x, executeBar md p env.agent env.rng action = .ok x →
      Returns (borrowFee md p (tradeRow md x.agent.tick) x.agent.tick) fun _ => True := by
    intro x hrun
    have hok := hx x hrun
    have hs : 0 ≤ x.agent.dataOffset + (x.agent.step + 1) := by
      have := hok.offset
      have := hok.step
      omega
    exact borrowFee_returns hS (clampRow_range md hT hs) hok.position
  refine (cStep_returns lm hT hclock (AgentState.priced_of_pos hS) hinit hborrow).of_values
    fun env' henv' => ?_
  obtain ⟨x, m, hrun, hm, ⟨-, hagent, -⟩ | ⟨-, hagent, -⟩⟩ := cStep_cases henv'
  · rw [hagent]
    exact resetAgentState_ok md p x.rng
  · have hok := ((markToMarket_ok hS hT (hx x hrun)).ensures m hm).1
    rw [hagent]
    exact { hok with }

/-- **Safety.** On a data set with a symbol and a row, a reset followed by any actions never
leaves the data and never divides by zero, and the agent's fields are consistent. -/
theorem episode_safe (lm : Libm) (md : MarketData) (p : Params) (hS : 1 ≤ md.numSymbols)
    (hT : 1 ≤ md.numTimesteps) (hfee : 0 ≤ p.feeRate)
    (env : EnvState) (actions : List ℤ) :
    ∃ env', episode lm md p env actions = .ok env' ∧
      (env'.agent.positionSym = -1 ∨
        0 ≤ env'.agent.positionSym ∧ env'.agent.positionSym < 2 * md.numSymbols) ∧
      (env'.agent.positionSym = -1 ↔ env'.agent.positionQty = 0) ∧
      (env'.agent.positionSym = -1 → env'.agent.entryPrice = 0 ∧ env'.agent.holdHours = 0) ∧
      (env'.agent.positionSym ≠ -1 → 0 < env'.agent.positionQty ∧ 0 < env'.agent.entryPrice) ∧
      0 ≤ env'.agent.winningTrades ∧ env'.agent.winningTrades ≤ env'.agent.numTrades ∧
      env'.agent.retCount = env'.agent.step ∧ 0 ≤ env'.agent.dataOffset ∧
      initialCash ≤ env'.agent.peakEquity ∧ 0 ≤ env'.agent.maxDrawdown := by
  obtain ⟨env', hrun, h⟩ := episode_induction (I := fun env => env.agent.Ok md)
    (cReset_ok hT) (cStep_ok lm hS hT hfee) env actions
  refine ⟨env', hrun, ?_, ?_, ?_, ?_, h.winning_nonneg, h.winning_le, h.retCount, h.offset,
    h.peak, h.drawdown⟩
  all_goals
    rcases h.position with hf | hh
  · exact .inl hf.sym
  · exact .inr ⟨hh.nonneg, hh.lt⟩
  · exact iff_of_true hf.sym hf.qty
  · exact iff_of_false (by have := hh.nonneg; omega) hh.qty.ne'
  · exact fun _ => ⟨hf.entry, hf.hold⟩
  · exact fun hflat => absurd hflat (by have := hh.nonneg; omega)
  · exact fun hheld => absurd hf.sym hheld
  · exact fun _ => ⟨hh.qty, hh.entry⟩

/-- A buy, a hold, a switch to a short and two actions outside the action space. -/
theorem episode_safe_five_actions :
    ∃ env', episode .firstOrder (rowMarket 9 fun t => 100 + t) keelEnvCreate (.zero 7)
        [1, 1, 2, -3, 12] = .ok env' ∧
      (env'.agent.positionSym = -1 ∨
        0 ≤ env'.agent.positionSym ∧ env'.agent.positionSym < 2 * (1 : ℕ)) ∧
      (env'.agent.positionSym = -1 ↔ env'.agent.positionQty = 0) ∧
      (env'.agent.positionSym = -1 → env'.agent.entryPrice = 0 ∧ env'.agent.holdHours = 0) ∧
      (env'.agent.positionSym ≠ -1 → 0 < env'.agent.positionQty ∧ 0 < env'.agent.entryPrice) ∧
      0 ≤ env'.agent.winningTrades ∧ env'.agent.winningTrades ≤ env'.agent.numTrades ∧
      env'.agent.retCount = env'.agent.step ∧ 0 ≤ env'.agent.dataOffset ∧
      initialCash ≤ env'.agent.peakEquity ∧ 0 ≤ env'.agent.maxDrawdown :=
  episode_safe .firstOrder (rowMarket 9 fun t => 100 + t) keelEnvCreate (by decide) (by decide)
    (by decide +kernel) (.zero 7) [1, 1, 2, -3, 12]

end KeelTrader.Sim
