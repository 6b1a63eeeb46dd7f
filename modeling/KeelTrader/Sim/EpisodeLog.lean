import KeelTrader.Sim.Safety

set_option relaxedAutoImplicit false
set_option autoImplicit false

/-!
# The log over many episodes

`c_step` resets the environment when an episode ends and adds a record of it to the log, so that
one environment logs any number of episodes. The log holds sums: what it shows is bounded by how
many episodes have ended and by how many steps they took. The bound on the trades rests on the
positions opened so far, one for each trade and one for the position that is still held: a bar
opens at most one.

## Main definitions

* `KeelTrader.Sim.AgentState.opened` — the positions an agent has opened in its episode.
* `KeelTrader.Sim.terminals` — how many steps of a run ended an episode.
* `KeelTrader.Sim.LogBounds` — the bounds on the log.

## Main results

* `KeelTrader.Sim.executeBar_opened` — a bar opens at most one position.
* `KeelTrader.Sim.cStep_logBounds` — one step.
* `KeelTrader.Sim.episode_logBounds` — whole runs.
-/

namespace KeelTrader.Sim

open Checked

/-! ## Opened positions -/

/-- The positions opened in the episode: those that were closed, and the one that is held. -/
def AgentState.opened (ag : AgentState) : ℤ :=
  ag.numTrades + if 0 ≤ ag.positionSym then 1 else 0

section Opened

variable {md : MarketData} {p : Params} {t : ℤ} {ag : AgentState}

lemma AgentState.numTrades_le_opened (ag : AgentState) : ag.numTrades ≤ ag.opened := by
  unfold AgentState.opened
  split <;> omega

/-- An exit opens nothing, and is flat if it went through. -/
lemma closePosition_opened : Ensures (closePosition md p t ag) fun r =>
    r.1.opened = ag.opened ∧ (r.2 = true → r.1.positionSym < 0) := by
  intro r hr
  rcases closePosition_cases hr with ⟨-, rfl⟩ | ⟨hpos, sym, price, -, -, ⟨-, rfl⟩ | ⟨-, rfl⟩⟩
  · exact ⟨rfl, by simp⟩
  · exact ⟨rfl, by simp⟩
  · refine ⟨?_, fun _ => by simp [AgentState.closedAt]⟩
    simp [AgentState.opened, AgentState.closedAt, hpos]

lemma forceClose_opened : Ensures (forceClose md p t ag) fun r => r.1.opened = ag.opened := by
  unfold forceClose
  refine Ensures.ite (fun _ => ?_) fun _ => Ensures.pure rfl
  refine Ensures.self.bind fun sym _ => Ensures.self.bind fun isOpen _ => ?_
  refine Ensures.ite (fun _ => ?_) fun _ => Ensures.pure rfl
  exact closePosition_opened.bind fun r hr => Ensures.pure hr.1

lemma goFlat_opened (tradable : Bool) :
    Ensures (goFlat md p t tradable ag) fun r => r.1.opened = ag.opened := by
  unfold goFlat
  refine Ensures.ite (fun _ => ?_) fun _ => Ensures.pure rfl
  refine Ensures.ite (fun _ => ?_) fun _ => Ensures.pure rfl
  exact closePosition_opened.bind fun r hr => Ensures.pure hr.1

/-- An entry of a flat agent opens at most one position. -/
lemma enterTarget_opened (hflat : ag.positionSym < 0) (isShort : Bool) (sym : ℤ) (alloc level : ℚ)
    (rng : UInt64) (events : ℤ) :
    Ensures (enterTarget md p t isShort sym alloc level ag rng events) fun r =>
      r.1.opened ≤ ag.opened + 1 := by
  unfold enterTarget
  dsimp only
  refine Ensures.ite (fun _ => ?_) fun _ => Ensures.pure (by simp)
  refine Ensures.self.bind fun ag' hag' => Ensures.pure ?_
  rcases openTarget_cases hag' with rfl | ⟨f, q, -, rfl⟩
  · simp
  · have hle : (if 0 ≤ targetPosId md.numSymbols isShort sym then (1 : ℤ) else 0) ≤ 1 := by
      split <;> omega
    simp only [AgentState.opened, AgentState.entered, if_neg (not_le.mpr hflat)]
    omega

/-- A target opens at most one position: a switch closes the old one first. -/
lemma goTarget_opened (tradable isShort : Bool) (sym allocIdx levelIdx : ℤ) (rng : UInt64) :
    Ensures (goTarget md p t tradable isShort sym allocIdx levelIdx ag rng) fun r =>
      r.1.opened ≤ ag.opened + 1 := by
  have hhold : ag.hold.opened ≤ ag.opened + 1 := by
    show ag.opened ≤ ag.opened + 1
    omega
  unfold goTarget
  refine Ensures.self.bind fun alloc _ => Ensures.self.bind fun level _ => ?_
  refine Ensures.self.bind fun targetTradable _ => ?_
  refine Ensures.ite (fun _ => Ensures.pure hhold) fun _ => ?_
  refine Ensures.ite (fun _ => Ensures.pure ?_) fun _ => ?_
  · show AgentState.opened (if ag.positionSym ≥ 0 then ag.hold else ag) ≤ ag.opened + 1
    split
    · exact hhold
    · omega
  refine Ensures.ite (fun _ => Ensures.pure hhold) fun _ => ?_
  refine Ensures.ite (fun _ => ?_) fun hflat => enterTarget_opened (not_le.mp hflat) _ _ _ _ _ _
  refine closePosition_opened.bind fun r hr => ?_
  rw [← hr.1]
  refine Ensures.ite (fun hclosed => enterTarget_opened (hr.2 hclosed) _ _ _ _ _ _) fun _ => ?_
  exact Ensures.pure (by simp)

/-- **Trading.** A bar opens at most one position. -/
theorem executeBar_opened (rng : UInt64) (action : ℤ) :
    Ensures (executeBar md p ag rng action) fun x => x.agent.opened ≤ ag.opened + 1 := by
  unfold executeBar applyAction
  refine forceClose_opened.bind fun r hr => ?_
  refine Ensures.self.bind fun tradable _ => Ensures.self.bind fun anyTradable _ => ?_
  refine Ensures.self.bind fun equity _ => ?_
  rw [← hr]
  refine Ensures.bind (P := fun r' : AgentState × UInt64 × ℤ => r'.1.opened ≤ r.1.opened + 1) ?_
    fun r' hr' => Ensures.pure hr'
  refine Ensures.self.bind fun d _ => ?_
  cases d with
  | flat => exact (goFlat_opened tradable).bind fun r' hr' => Ensures.pure (by simp [hr'])
  | target isShort sym allocIdx levelIdx => exact goTarget_opened tradable isShort _ _ _ rng
  | invalid => exact Ensures.pure (by simp)

/-- The final close opens nothing. -/
lemma finalClose_opened : Ensures (finalClose md p t ag) fun r => r.1.opened = ag.opened := by
  unfold finalClose
  refine Ensures.ite (fun _ => ?_) fun _ => Ensures.pure rfl
  refine closePosition_opened.bind fun r hr => ?_
  refine Ensures.ite (fun _ => Ensures.pure hr.1) fun _ => ?_
  exact Ensures.self.bind fun equity _ => Ensures.pure hr.1

/-- Marking opens nothing. -/
lemma markToMarket_opened (x : Executed) :
    Ensures (markToMarket md p x) fun m => m.agent.opened = x.agent.opened := by
  unfold markToMarket
  refine Ensures.self.bind fun equity _ => Ensures.self.bind fun bfee _ => ?_
  refine Ensures.self.bind fun ret _ => Ensures.self.bind fun r hr => Ensures.pure ?_
  obtain ⟨dd, hagent, -⟩ := trackDrawdown_eq_ok hr
  rw [hagent]
  rfl

end Opened

/-! ## The record of an episode -/

section Record

variable {lm : Libm} {p : Params} {ag : AgentState}

/-- A quotient of a part of the trades is a fraction. -/
lemma perTrade_winRate {w n : ℤ} (hw : 0 ≤ w) (hle : w ≤ n) :
    Ensures (perTrade w n) fun q => 0 ≤ q ∧ q ≤ 1 := by
  unfold perTrade
  refine Ensures.ite (fun hn => ?_) fun _ => Ensures.pure ⟨le_rfl, zero_le_one⟩
  intro q hq
  obtain ⟨-, rfl⟩ := fdiv_eq_ok hq
  have hn' : (0 : ℚ) < (n : ℤ) := by exact_mod_cast hn
  refine ⟨div_nonneg (by exact_mod_cast hw) hn'.le, ?_⟩
  rw [div_le_one hn']
  exact_mod_cast hle

/-- The steps for each trade are not more than all of them. -/
lemma perTrade_steps {s n : ℤ} (hs : 0 ≤ s) :
    Ensures (perTrade s n) fun q => 0 ≤ q ∧ q ≤ s := by
  have hs' : (0 : ℚ) ≤ (s : ℤ) := by exact_mod_cast hs
  unfold perTrade
  refine Ensures.ite (fun hn => ?_) fun _ => Ensures.pure ⟨le_rfl, hs'⟩
  intro q hq
  obtain ⟨-, rfl⟩ := fdiv_eq_ok hq
  have hn' : (1 : ℚ) ≤ (n : ℤ) := by exact_mod_cast hn
  exact ⟨div_nonneg hs' (by linarith), div_le_self hs' hn'⟩

/-- What an ended episode adds to the log. -/
structure RecordBounds (ag : AgentState) (log log' : Log) : Prop where
  n : log'.n = log.n + 1
  numTrades : log'.numTrades = log.numTrades + ag.numTrades
  maxDrawdown : log'.maxDrawdown = log.maxDrawdown + ag.maxDrawdown
  winRate : log.winRate ≤ log'.winRate ∧ log'.winRate ≤ log.winRate + 1
  avgHoldHours : log.avgHoldHours ≤ log'.avgHoldHours ∧
    log'.avgHoldHours ≤ log.avgHoldHours + ag.step

lemma logEpisode_bounds (hw : 0 ≤ ag.winningTrades) (hle : ag.winningTrades ≤ ag.numTrades)
    (hs : 0 ≤ ag.step) (finalEquity : ℚ) (log : Log) :
    Ensures (logEpisode lm p ag finalEquity log) fun log' => RecordBounds ag log log' := by
  unfold logEpisode
  refine Ensures.self.bind fun totalReturn _ => Ensures.self.bind fun sortino _ => ?_
  refine (perTrade_winRate hw hle).bind fun winRate hwin => ?_
  refine (perTrade_steps hs).bind fun hours hhours => Ensures.pure ?_
  exact ⟨rfl, rfl, rfl, ⟨by simp [hwin.1], by simp [hwin.2]⟩, by simp [hhours.1],
    by simp [hhours.2]⟩

end Record

/-! ## Runs -/

/-- How many of the steps of a list of actions end an episode. -/
def terminals (lm : Libm) (md : MarketData) (p : Params) : EnvState → List ℤ → Checked ℕ
  | _, [] => pure 0
  | env, a :: as => do
    let env' ← cStep lm md p env a
    let k ← terminals lm md p env' as
    pure (if env'.terminal then k + 1 else k)

/-- The bounds on the log of an environment after `steps` steps, of which `ended` have ended an
episode. -/
structure LogBounds (steps ended : ℤ) (e : EnvState) : Prop where
  n : e.log.n = ended
  trades_nonneg : 0 ≤ e.log.numTrades
  trades_le : e.log.numTrades + e.agent.opened ≤ steps
  opened_le : e.agent.opened ≤ e.agent.step
  winRate_nonneg : 0 ≤ e.log.winRate
  winRate_le : e.log.winRate ≤ ended
  drawdown : 0 ≤ e.log.maxDrawdown
  hours_nonneg : 0 ≤ e.log.avgHoldHours
  hours_le : e.log.avgHoldHours + e.agent.step ≤ steps

section Runs

variable {lm : Libm} {md : MarketData} {p : Params} {e : EnvState} {steps ended : ℤ}

/-- The end of an episode. -/
lemma LogBounds.finished (h : LogBounds steps ended e) (ag : AgentState) {ag' : AgentState}
    {log' : Log} (hopened : ag.opened ≤ e.agent.opened + 1) (hstep : ag.step = e.agent.step + 1)
    (hdrawdown : 0 ≤ ag.maxDrawdown) (htrades : 0 ≤ ag.numTrades)
    (hrecord : RecordBounds ag e.log log') (hfresh : ag'.opened = 0 ∧ ag'.step = 0)
    (rng : UInt64) (obs : List ℚ) (reward : ℚ) :
    LogBounds (steps + 1) (ended + 1) ⟨ag', rng, log', obs, reward, true⟩ := by
  have hle : ((ag.numTrades : ℤ) : ℚ) ≤ (ag.opened : ℤ) := by
    exact_mod_cast ag.numTrades_le_opened
  have hopened' : ((ag.opened : ℤ) : ℚ) ≤ (e.agent.opened : ℤ) + 1 := by exact_mod_cast hopened
  have hstep' : ((ag.step : ℤ) : ℚ) = (e.agent.step : ℤ) + 1 := by exact_mod_cast hstep
  have htrades' : (0 : ℚ) ≤ (ag.numTrades : ℤ) := by exact_mod_cast htrades
  have hn := hrecord.n
  have hwin := hrecord.winRate
  have hhours := hrecord.avgHoldHours
  refine {
    n := by push_cast; rw [hn, h.n]
    trades_nonneg := by rw [hrecord.numTrades]; exact add_nonneg h.trades_nonneg htrades'
    trades_le := ?_
    opened_le := by rw [hfresh.1, hfresh.2]
    winRate_nonneg := h.winRate_nonneg.trans hwin.1
    winRate_le := ?_
    drawdown := by rw [hrecord.maxDrawdown]; exact add_nonneg h.drawdown hdrawdown
    hours_nonneg := h.hours_nonneg.trans hhours.1
    hours_le := ?_ }
  · have hbound := h.trades_le
    rw [hrecord.numTrades, hfresh.1]
    push_cast
    linarith
  · have hbound := h.winRate_le
    push_cast
    linarith [hwin.2]
  · have hbound := h.hours_le
    rw [hfresh.2]
    push_cast
    linarith [hhours.2]

/-- **Step.** A step keeps the bounds, and counts itself and the episode it ends. -/
theorem cStep_logBounds (hS : 0 < md.numSymbols) (hT : 0 < md.numTimesteps)
    (hfee : 0 ≤ p.feeRate) (action : ℤ) (hok : e.agent.Ok md) (h : LogBounds steps ended e) :
    Ensures (cStep lm md p e action) fun e' =>
      LogBounds (steps + 1) (if e'.terminal then ended + 1 else ended) e' := by
  unfold cStep
  refine Ensures.self.bind fun x hx => Ensures.self.bind fun m hm => ?_
  refine Ensures.self.bind fun reward _ => Ensures.self.bind fun earlyExit _ => ?_
  have hxok := (executeBar_ok hS hT hfee e.rng action hok).ensures x hx
  have hmok := ((markToMarket_ok hS hT hxok).ensures m hm).1
  have hopened : m.agent.opened ≤ e.agent.opened + 1 := by
    rw [markToMarket_opened x m hm]
    exact executeBar_opened e.rng action x hx
  have hstep : m.agent.step = e.agent.step + 1 := by
    rw [(markToMarket_record x m hm).step, (executeBar_record e.rng action x hx).step]
  refine Ensures.ite (fun _ => ?_) fun _ => ?_
  · unfold finishEpisode
    refine Ensures.self.bind fun r hr => ?_
    have hmok' : ({ m.agent with prevRet := m.ret } : AgentState).Ok md := { hmok with }
    have hrok := (okInvariant hfee).finalClose hmok' r hr
    refine (logEpisode_bounds hrok.winning_nonneg hrok.winning_le hrok.step r.2 e.log).bind
      fun log' hlog => Ensures.self.bind fun obs _ => Ensures.pure ?_
    refine h.finished r.1 ?_ ?_ hrok.drawdown
      (hrok.winning_nonneg.trans hrok.winning_le) hlog ⟨rfl, rfl⟩ _ _ _
    · rw [finalClose_opened r hr]
      exact hopened
    · rw [(finalClose_record r hr).step]
      exact hstep
  · refine Ensures.self.bind fun obs _ => Ensures.pure ?_
    have hopened' : ((m.agent.opened : ℤ) : ℚ) ≤ (e.agent.opened : ℤ) + 1 := by
      exact_mod_cast hopened
    have hstep' : ((m.agent.step : ℤ) : ℚ) = (e.agent.step : ℤ) + 1 := by exact_mod_cast hstep
    have htrades := h.trades_le
    have hhours := h.hours_le
    have hle := h.opened_le
    refine { h with trades_le := ?_, opened_le := ?_, hours_le := ?_ }
    · show e.log.numTrades + (m.agent.opened : ℤ) ≤ _
      push_cast
      linarith
    · show m.agent.opened ≤ m.agent.step
      omega
    · show e.log.avgHoldHours + (m.agent.step : ℤ) ≤ _
      push_cast
      linarith

/-- A run keeps the bounds. -/
lemma runFrom_logBounds (lm : Libm) (hS : 0 < md.numSymbols) (hT : 0 < md.numTimesteps)
    (hfee : 0 ≤ p.feeRate) (actions : List ℤ) : ∀ {e : EnvState} {steps ended : ℤ},
    e.agent.Ok md → LogBounds steps ended e →
    Returns (runFrom lm md p e actions) fun e' => ∃ k, terminals lm md p e actions = .ok k ∧
      LogBounds (steps + actions.length) (ended + k) e' := by
  induction actions with
  | nil => exact fun _ h => Returns.pure ⟨0, rfl, by simpa using h⟩
  | cons a actions ih =>
    intro e steps ended hok h
    obtain ⟨e', he', hok'⟩ := cStep_ok lm hS hT hfee e a hok
    have hbounds := cStep_logBounds hS hT hfee a hok h e' he'
    obtain ⟨e'', hrun, k, hk, hend⟩ := ih hok' hbounds
    refine ⟨e'', by rw [runFrom, bind_of_eq_ok he', hrun], if e'.terminal then k + 1 else k, ?_, ?_⟩
    · rw [terminals, bind_of_eq_ok he', bind_of_eq_ok hk]
      rfl
    · convert hend using 1
      · push_cast [List.length_cons]
        ring
      · split <;> push_cast <;> ring

/-- **The log.** From a fresh environment, after any number of steps over any number of episodes:
the log counts the episodes that ended; the trades it counts and the positions opened in the
running episode are not more than the steps; the win rates sum up to at most one for each
episode; the drawdowns to at least nothing; and the hours per trade to at most the steps of the
episodes that ended. -/
theorem episode_logBounds (lm : Libm) (md : MarketData) (p : Params) (hS : 1 ≤ md.numSymbols)
    (hT : 1 ≤ md.numTimesteps) (hfee : 0 ≤ p.feeRate) (rng : UInt64) (actions : List ℤ) :
    ∃ e₀ e k, cReset md p (.zero rng) = .ok e₀ ∧ episode lm md p (.zero rng) actions = .ok e ∧
      terminals lm md p e₀ actions = .ok k ∧ LogBounds actions.length k e := by
  obtain ⟨e₀, he₀, hok⟩ := cReset_ok (p := p) hT (.zero rng)
  have hstart : LogBounds 0 0 e₀ := by
    obtain ⟨obs, -, h⟩ := bind_eq_ok.mp he₀
    rw [← pure_eq_ok.mp h]
    exact ⟨by simp [EnvState.zero], le_rfl,
      by simp [EnvState.zero, AgentState.initial, AgentState.opened],
      by simp [AgentState.initial, AgentState.opened], le_rfl, by simp [EnvState.zero], le_rfl,
      le_rfl, by simp [EnvState.zero, AgentState.initial]⟩
  obtain ⟨e, hrun, k, hk, hbounds⟩ := runFrom_logBounds lm hS hT hfee actions hok hstart
  refine ⟨e₀, e, k, he₀, by rw [episode, bind_of_eq_ok he₀, hrun], hk, ?_⟩
  simpa using hbounds

/-- Two episodes of three steps, each with a round trip. -/
theorem episode_logBounds_two :
    ∃ e₀ e k, cReset (rowMarket 9 fun t => 100 + t) { keelEnvCreate with maxSteps := 3 }
        (.zero 7) = .ok e₀ ∧
      episode .firstOrder (rowMarket 9 fun t => 100 + t) { keelEnvCreate with maxSteps := 3 }
        (.zero 7) [1, 0, 0, 2, 0, 0] = .ok e ∧
      terminals .firstOrder (rowMarket 9 fun t => 100 + t) { keelEnvCreate with maxSteps := 3 } e₀
        [1, 0, 0, 2, 0, 0] = .ok k ∧ LogBounds 6 k e :=
  episode_logBounds .firstOrder (rowMarket 9 fun t => 100 + t)
    { keelEnvCreate with maxSteps := 3 } (by decide) (by decide) (by decide +kernel) 7
    [1, 0, 0, 2, 0, 0]

end Runs

end KeelTrader.Sim
