import KeelTrader.Sim.Safety

set_option relaxedAutoImplicit false
set_option autoImplicit false

/-!
# Clamped parameters

Two parameter sets describe the same environment when every run under the one shows its caller
what the run under the other shows. The clamps of `my_init` in `sim/src/binding.c` mostly change
a parameter set into one that describes the same environment: most of the functions that read a
parameter treat the values below its bound as they treat the bound. The exceptions are
`fill_buffer_bps`, which moves the fills, `fill_probability`, which moves the fill gate, and the
switch and the `progress_fraction` of the early exit.

## Main definitions

* `KeelTrader.Sim.EnvState.view` — what the caller of an environment reads from it.
* `KeelTrader.Sim.SameRuns` — two parameter sets show the same in every run.
* `KeelTrader.Sim.Params.clamped` — the clamps, with a new value for the early-exit switch.
* `KeelTrader.Sim.Params.Armed` — the early exit can be reached.
* `KeelTrader.Sim.ends` — whether a marked step ends its episode.

## Main results

* `KeelTrader.Sim.runFrom_congr` — steps that agree where an invariant holds make the same runs.
* `KeelTrader.Sim.executeBar_clamped` — the clamps leave the trading of a bar alone, when the two
  fill parameters are not negative.
* `KeelTrader.Sim.cStep_clamped` — a step then differs in the early exit only.
* `KeelTrader.Sim.sameRuns_clamped` — and not at all when the clamps keep the early exit.
-/

namespace KeelTrader.Sim

open Checked

/-! ## What a caller sees -/

/-- What the caller of an environment reads from it: the observations, the reward, the terminal
flag and the log. -/
def EnvState.view (env : EnvState) : List ℚ × ℚ × Bool × Log :=
  (env.observations, env.reward, env.terminal, env.log)

/-- On every data set, from every state of the generator and after every list of actions, a new
environment shows the same under both parameter sets. -/
def SameRuns (p q : Params) : Prop :=
  ∀ (lm : Libm) (md : MarketData) (rng : UInt64) (actions : List ℤ),
    EnvState.view <$> episode lm md p (.zero rng) actions =
      EnvState.view <$> episode lm md q (.zero rng) actions

/-- **Same runs.** Steps that agree on the states of an invariant, which the steps of one side
keep, make the same runs. -/
theorem runFrom_congr {lm : Libm} {md : MarketData} {p q : Params} {I : EnvState → Prop}
    (hsame : ∀ env a, I env → cStep lm md q env a = cStep lm md p env a)
    (hstep : ∀ env a, I env → Ensures (cStep lm md p env a) I) (actions : List ℤ) :
    ∀ env, I env → runFrom lm md q env actions = runFrom lm md p env actions := by
  induction actions with
  | nil => exact fun _ _ => rfl
  | cons a actions ih =>
    intro env hI
    simp only [runFrom, hsame env a hI]
    exact bind_congr_ok fun env' henv' => ih env' (hstep env a hI env' henv')

/-! ## The clamps -/

section Clamps

variable {α : Type} [LinearOrder α]

/-- `if (x < lo) x = lo;` -/
def atLeast (lo x : α) : α := if x < lo then lo else x

/-- `if (x > hi) x = hi;` -/
def atMost (hi x : α) : α := if x > hi then hi else x

lemma atLeast_of_le {lo x : α} (h : lo ≤ x) : atLeast lo x = x := if_neg (not_lt.mpr h)

lemma atLeast_of_lt {lo x : α} (h : x < lo) : atLeast lo x = lo := if_pos h

lemma atMost_of_le {hi x : α} (h : x ≤ hi) : atMost hi x = x := if_neg (not_lt.mpr h)

lemma atMost_of_lt {hi x : α} (h : hi < x) : atMost hi x = hi := if_pos h

lemma le_atLeast (lo x : α) : lo ≤ atLeast lo x := by
  rcases lt_or_ge x lo with h | h
  · rw [atLeast_of_lt h]
  · rw [atLeast_of_le h]
    exact h

lemma atMost_le (hi x : α) : atMost hi x ≤ hi := by
  rcases le_or_gt x hi with h | h
  · rw [atMost_of_le h]
    exact h
  · rw [atMost_of_lt h]

end Clamps

/-- The clamps of `my_init` that `keel_env_finalize` does not make, with `enable` for the switch
of the early exit. -/
def Params.clamped (enable : ℤ) (p : Params) : Params :=
  { p with
    actionMaxOffsetBps := atLeast 0 p.actionMaxOffsetBps
    fillBufferBps := atLeast 0 p.fillBufferBps
    fillProbability := atMost 1 (atLeast 0 p.fillProbability)
    deathSpiralStaleAfterBars := atLeast 0 p.deathSpiralStaleAfterBars
    forcedOffset := atLeast (-1) p.forcedOffset
    enableDrawdownProfitEarlyExit := enable
    drawdownProfitEarlyExitMinSteps := atLeast 0 p.drawdownProfitEarlyExitMinSteps
    drawdownProfitEarlyExitProgressFraction :=
      atMost 1 (atLeast 0 p.drawdownProfitEarlyExitProgressFraction) }

variable {lm : Libm} {md : MarketData} {p : Params} {enable t : ℤ} {ag : AgentState}

lemma fillProbability_clamped_nonneg : 0 ≤ (p.clamped enable).fillProbability := by
  change 0 ≤ atMost 1 (atLeast 0 p.fillProbability)
  unfold atMost
  split_ifs
  · exact zero_le_one
  · exact le_atLeast 0 _

lemma progressFraction_clamped_le :
    (p.clamped enable).drawdownProfitEarlyExitProgressFraction ≤ 1 := atMost_le _ _

/-! ## Clamps without an effect -/

/-- The guard reads a negative `stale_after_bars` as `0`. -/
lemma deathSpiralRefused_clamped :
    deathSpiralRefused (p.clamped enable) = deathSpiralRefused p := by
  rcases lt_or_ge p.deathSpiralStaleAfterBars 0 with h | h
  · have hclamped : (p.clamped enable).deathSpiralStaleAfterBars = 0 := atLeast_of_lt h
    funext sellPrice entryPrice holdHours isShort
    simp only [deathSpiralRefused, hclamped, h, lt_irrefl, if_false, if_true]
    rfl
  · have hclamped : (p.clamped enable).deathSpiralStaleAfterBars = p.deathSpiralStaleAfterBars :=
      atLeast_of_le h
    funext sellPrice entryPrice holdHours isShort
    simp only [deathSpiralRefused, hclamped]
    rfl

/-- A negative `max_offset_bps` prices every level at the reference. -/
lemma actionLevelOffsetBps_clamped (levelIdx : ℤ) :
    actionLevelOffsetBps (p.clamped enable) levelIdx = actionLevelOffsetBps p levelIdx := by
  rcases lt_or_ge p.actionMaxOffsetBps 0 with h | h
  · have hclamped : (p.clamped enable).actionMaxOffsetBps ≤ 0 := (atLeast_of_lt h).le
    simp only [actionLevelOffsetBps, hclamped, h.le, or_true, if_true]
  · have hclamped : (p.clamped enable).actionMaxOffsetBps = p.actionMaxOffsetBps := atLeast_of_le h
    simp only [actionLevelOffsetBps, hclamped]
    rfl

/-- Every negative `forced_offset` asks for a drawn one. -/
lemma startOffset_clamped (rng : UInt64) :
    startOffset md (p.clamped enable) rng = startOffset md p rng := by
  rcases lt_or_ge p.forcedOffset (-1) with h | h
  · have hclamped : (p.clamped enable).forcedOffset = -1 := atLeast_of_lt h
    have hneg : ¬p.forcedOffset ≥ 0 := by omega
    simp only [startOffset, hclamped, hneg]
    rfl
  · have hclamped : (p.clamped enable).forcedOffset = p.forcedOffset := atLeast_of_le h
    simp only [startOffset, hclamped]
    rfl

lemma resetAgentState_clamped (rng : UInt64) :
    resetAgentState md (p.clamped enable) rng = resetAgentState md p rng := by
  simp only [resetAgentState, startOffset_clamped]

lemma cReset_clamped (env : EnvState) : cReset md (p.clamped enable) env = cReset md p env := by
  simp only [cReset, resetAgentState_clamped]
  rfl

lemma closePosition_clamped (t : ℤ) (ag : AgentState) :
    closePosition md (p.clamped enable) t ag = closePosition md p t ag := by
  simp only [closePosition, deathSpiralRefused_clamped]
  rfl

lemma finalClose_clamped (t : ℤ) (ag : AgentState) :
    finalClose md (p.clamped enable) t ag = finalClose md p t ag := by
  simp only [finalClose, closePosition_clamped]

lemma finishEpisode_clamped (t : ℤ) (ag : AgentState) (rng : UInt64) (log : Log) (reward : ℚ) :
    finishEpisode lm md (p.clamped enable) t ag rng log reward =
      finishEpisode lm md p t ag rng log reward := by
  simp only [finishEpisode, finalClose_clamped, resetAgentState_clamped]
  rfl

/-- The gate draws its word in the same cases. -/
lemma fillGate_clamped_snd (rng : UInt64) :
    (fillGate (p.clamped enable) rng).2 = (fillGate p rng).2 := by
  have hiff : (p.clamped enable).fillProbability < 1 ↔ p.fillProbability < 1 := by
    change atMost 1 (atLeast 0 p.fillProbability) < 1 ↔ _
    unfold atMost atLeast
    split_ifs <;> constructor <;> intro <;> linarith
  unfold fillGate
  split_ifs <;> first | rfl | tauto

/-- A probability above `1` fills every order, as `1` does. -/
lemma fillGate_clamped (h : 0 ≤ p.fillProbability) (rng : UInt64) :
    fillGate (p.clamped enable) rng = fillGate p rng := by
  have hclamped : (p.clamped enable).fillProbability = atMost 1 p.fillProbability := by
    change atMost 1 (atLeast 0 p.fillProbability) = _
    rw [atLeast_of_le h]
  rcases le_or_gt p.fillProbability 1 with h1 | h1
  · simp only [fillGate, hclamped, atMost_of_le h1]
  · simp only [fillGate, hclamped, atMost_of_lt h1, lt_irrefl, not_lt.mpr h1.le, if_false]

/-! ## Trading -/

lemma sizedFill_clamped (h : 0 ≤ p.fillBufferBps) (sym : ℤ) (alloc level : ℚ) (isBuy : Bool)
    (cash : ℚ) : sizedFill md (p.clamped enable) t sym alloc level isBuy cash =
      sizedFill md p t sym alloc level isBuy cash := by
  have hclamped : (p.clamped enable).fillBufferBps = p.fillBufferBps := atLeast_of_le h
  simp only [sizedFill, resolveLimitFillPrice, hclamped]
  rfl

lemma openTarget_clamped (h : 0 ≤ p.fillBufferBps) (isShort : Bool) (sym : ℤ)
    (alloc level : ℚ) (ag : AgentState) :
    openTarget md (p.clamped enable) t isShort sym alloc level ag =
      openTarget md p t isShort sym alloc level ag := by
  simp only [openTarget, openLong, openShort, sizedFill_clamped h]
  rfl

lemma enterTarget_clamped (hb : 0 ≤ p.fillBufferBps) (hp : 0 ≤ p.fillProbability)
    (isShort : Bool) (sym : ℤ) (alloc level : ℚ) (ag : AgentState) (rng : UInt64) (events : ℤ) :
    enterTarget md (p.clamped enable) t isShort sym alloc level ag rng events =
      enterTarget md p t isShort sym alloc level ag rng events := by
  simp only [enterTarget, fillGate_clamped hp, openTarget_clamped hb]

lemma goFlat_clamped (tradable : Bool) (ag : AgentState) :
    goFlat md (p.clamped enable) t tradable ag = goFlat md p t tradable ag := by
  simp only [goFlat, closePosition_clamped]

lemma forceClose_clamped (ag : AgentState) :
    forceClose md (p.clamped enable) t ag = forceClose md p t ag := by
  simp only [forceClose, closePosition_clamped]
  rfl

lemma goTarget_clamped (hb : 0 ≤ p.fillBufferBps) (hp : 0 ≤ p.fillProbability)
    (tradable isShort : Bool) (sym allocIdx levelIdx : ℤ) (ag : AgentState) (rng : UInt64) :
    goTarget md (p.clamped enable) t tradable isShort sym allocIdx levelIdx ag rng =
      goTarget md p t tradable isShort sym allocIdx levelIdx ag rng := by
  simp only [goTarget, actionLevelOffsetBps_clamped, closePosition_clamped,
    enterTarget_clamped hb hp]
  rfl

/-- **Trading.** The clamps leave the trading of a bar alone, when the two parameters of the fill
rule and the fill gate are not negative. -/
theorem executeBar_clamped (hb : 0 ≤ p.fillBufferBps) (hp : 0 ≤ p.fillProbability)
    (ag : AgentState) (rng : UInt64) (action : ℤ) :
    executeBar md (p.clamped enable) ag rng action = executeBar md p ag rng action := by
  simp only [executeBar, forceClose_clamped, applyAction, goFlat_clamped, goTarget_clamped hb hp]
  rfl

/-! ## The end of a step -/

/-- Whether a marked step ends its episode. -/
def ends (md : MarketData) (p : Params) (m : Marked) : Checked Bool := do
  let earlyExit ← shouldDrawdownProfitEarlyExit p m.agent m.equityAfter
  pure (isDone md p m earlyExit)

/-- A step asks once whether it ends the episode. -/
lemma cStep_eq (env : EnvState) (action : ℤ) : cStep lm md p env action = (do
    let x ← executeBar md p env.agent env.rng action
    let m ← markToMarket md p x
    let reward ← shapedReward lm p x m
    let done ← ends md p m
    let ag := { m.agent with prevRet := m.ret }
    if done then finishEpisode lm md p m.tNew ag x.rng env.log reward
    else do
      let obs ← fillObservations md p ag
      pure ⟨ag, x.rng, env.log, obs, reward, false⟩) := by
  simp only [cStep, ends, bind_assoc, pure_bind]

section Step

variable {env env' : EnvState} {action : ℤ} {x : Executed} {m : Marked}

/-- A step asks the marked agent whether the episode ends. -/
lemma cStep_ends (hx : executeBar md p env.agent env.rng action = .ok x)
    (hm : markToMarket md p x = .ok m)
    (h : cStep lm md p env action = .ok env') : ends md p m = .ok env'.terminal := by
  rw [cStep_eq, bind_of_eq_ok hx, bind_of_eq_ok hm] at h
  obtain ⟨reward, -, h⟩ := bind_eq_ok.mp h
  obtain ⟨done, hdone, h⟩ := bind_eq_ok.mp h
  rw [hdone]
  dsimp only at h
  split at h
  · next hyes =>
    obtain ⟨r, -, h⟩ := bind_eq_ok.mp h
    obtain ⟨log, -, h⟩ := bind_eq_ok.mp h
    obtain ⟨obs, -, h⟩ := bind_eq_ok.mp h
    rw [← pure_eq_ok.mp h, hyes]
  · next hno =>
    obtain ⟨obs, -, h⟩ := bind_eq_ok.mp h
    rw [← pure_eq_ok.mp h, Bool.not_eq_true _ |>.mp hno]

/-- A step that does not end the episode logs nothing. -/
lemma cStep_log (h : cStep lm md p env action = .ok env') (hlive : env'.terminal = false) :
    env'.log = env.log := by
  rw [cStep_eq] at h
  obtain ⟨x, -, h⟩ := bind_eq_ok.mp h
  obtain ⟨m, -, h⟩ := bind_eq_ok.mp h
  obtain ⟨reward, -, h⟩ := bind_eq_ok.mp h
  obtain ⟨done, -, h⟩ := bind_eq_ok.mp h
  dsimp only at h
  split at h
  · obtain ⟨r, -, h⟩ := bind_eq_ok.mp h
    obtain ⟨log, -, h⟩ := bind_eq_ok.mp h
    obtain ⟨obs, -, h⟩ := bind_eq_ok.mp h
    rw [← pure_eq_ok.mp h] at hlive
    cases hlive
  · obtain ⟨obs, -, h⟩ := bind_eq_ok.mp h
    rw [← pure_eq_ok.mp h]

/-- A step that ends the episode closes out the marked agent and logs it. -/
lemma cStep_done (hx : executeBar md p env.agent env.rng action = .ok x)
    (hm : markToMarket md p x = .ok m) (hends : ends md p m = .ok true)
    (h : cStep lm md p env action = .ok env') :
    env'.terminal = true ∧ ∃ r, finalClose md p m.tNew { m.agent with prevRet := m.ret } = .ok r ∧
      logEpisode lm p r.1 r.2 env.log = .ok env'.log := by
  rw [cStep_eq, bind_of_eq_ok hx, bind_of_eq_ok hm] at h
  obtain ⟨reward, -, h⟩ := bind_eq_ok.mp h
  rw [bind_of_eq_ok hends] at h
  dsimp only at h
  rw [if_pos rfl] at h
  obtain ⟨r, hr, h⟩ := bind_eq_ok.mp h
  obtain ⟨log, hlog, h⟩ := bind_eq_ok.mp h
  obtain ⟨obs, -, h⟩ := bind_eq_ok.mp h
  rw [← pure_eq_ok.mp h]
  exact ⟨rfl, r, hr, hlog⟩

/-- A step that does not end the episode goes on with the marked agent. -/
lemma cStep_live (hS : 0 < md.numSymbols) (hT : 0 < md.numTimesteps)
    (hx : executeBar md p env.agent env.rng action = .ok x)
    (hm : markToMarket md p x = .ok m) (hends : ends md p m = .ok false) :
    Returns (cStep lm md p env action) fun env' => env'.terminal = false ∧
      env'.agent = { m.agent with prevRet := m.ret } ∧ env'.rng = x.rng := by
  rw [cStep_eq, bind_of_eq_ok hx, bind_of_eq_ok hm]
  refine (shapedReward_returns x m).bind fun reward _ => ?_
  rw [bind_of_eq_ok hends]
  dsimp only
  rw [if_neg Bool.false_ne_true]
  exact (fillObservations_returns (AgentState.priced_of_pos hS) hT).bind fun obs _ =>
    Returns.pure ⟨rfl, rfl, rfl⟩

end Step

/-- **Step.** A step under the clamped parameters is the step under the parameters themselves,
when the trading of its bar and its end are. -/
theorem cStep_clamped {env : EnvState} {action : ℤ}
    (htrade : executeBar md (p.clamped enable) env.agent env.rng action =
      executeBar md p env.agent env.rng action)
    (hends : ∀ x m, executeBar md p env.agent env.rng action = .ok x →
      markToMarket md p x = .ok m → ends md (p.clamped enable) m = ends md p m) :
    cStep lm md (p.clamped enable) env action = cStep lm md p env action := by
  rw [cStep_eq, cStep_eq, htrade]
  refine bind_congr_ok fun x hx => bind_congr_ok (x := markToMarket md p x) fun m hm => ?_
  dsimp only
  rw [hends x m hx hm]
  simp only [finishEpisode_clamped]
  rfl

/-! ## The early exit -/

/-- The early exit is within the reach of an episode. -/
def Params.Armed (p : Params) : Prop :=
  2 ≤ p.maxSteps ∧ p.drawdownProfitEarlyExitMinSteps ≤ p.maxSteps

/-- The early exit of a parameter set that is not armed is never taken. -/
lemma earlyExit_of_not_armed (h : ¬p.Armed) (ag : AgentState) (equityAfter : ℚ) :
    shouldDrawdownProfitEarlyExit p ag equityAfter = pure false := by
  unfold shouldDrawdownProfitEarlyExit
  split_ifs with _ hlt hmin
  · rfl
  · rfl
  · rfl
  · rfl
  · exact absurd ⟨not_lt.mp hlt, not_lt.mp hmin⟩ h

/-- The part of the episode that is over after the next step, at most the whole of it. -/
def progress (p : Params) (ag : AgentState) : ℚ := atMost 1 ((ag.step + 1 : ℤ) / (p.maxSteps : ℚ))

lemma progress_nonneg (hsteps : 0 ≤ p.maxSteps) (hstep : 0 ≤ ag.step) : 0 ≤ progress p ag := by
  have hratio : 0 ≤ ((ag.step + 1 : ℤ) : ℚ) / (p.maxSteps : ℚ) :=
    div_nonneg (by exact_mod_cast (by omega : 0 ≤ ag.step + 1)) (by exact_mod_cast hsteps)
  unfold progress atMost
  split_ifs
  · exact zero_le_one
  · exact hratio

/-- An early exit that is armed and switched on compares the progress with the fraction, and the
drawdown with the return. -/
lemma earlyExit_of_armed (h : p.Armed) (hon : p.enableDrawdownProfitEarlyExit ≠ 0)
    (hinit : 0 < ag.initialEquity) (equityAfter : ℚ) :
    shouldDrawdownProfitEarlyExit p ag equityAfter =
      pure (decide (p.drawdownProfitEarlyExitProgressFraction ≤ progress p ag) &&
        decide (ag.maxDrawdown > (equityAfter - ag.initialEquity) / ag.initialEquity)) := by
  obtain ⟨hsteps, hmin⟩ := h
  have hne : ((p.maxSteps : ℤ) : ℚ) ≠ 0 := by exact_mod_cast (by omega : p.maxSteps ≠ 0)
  unfold shouldDrawdownProfitEarlyExit
  rw [if_neg hon, if_neg (not_lt.mpr hsteps), if_neg (not_lt.mpr hmin),
    if_neg (not_le.mpr hinit), bind_of_eq_ok (fdiv_of_ne hne)]
  dsimp only
  change (if progress p ag < _ then _ else _) = _
  split_ifs with hlt
  · rw [decide_eq_false (not_le.mpr hlt), Bool.false_and]
  · rw [bind_of_eq_ok (fdiv_of_ne hinit.ne'), decide_eq_true (not_lt.mp hlt), Bool.true_and]

/-- A negative `min_steps` arms the early exit as `0` does. -/
lemma armed_clamped : (p.clamped enable).Armed ↔ p.Armed := by
  change 2 ≤ p.maxSteps ∧ atLeast 0 p.drawdownProfitEarlyExitMinSteps ≤ p.maxSteps ↔
    2 ≤ p.maxSteps ∧ p.drawdownProfitEarlyExitMinSteps ≤ p.maxSteps
  unfold atLeast
  split_ifs <;> omega

/-- The clamps keep the early exit: it is not armed, or both sides switch it off, or both switch
it on for a fraction that they share. -/
def Params.KeepsExit (enable : ℤ) (p : Params) : Prop :=
  ¬p.Armed ∨ (enable = 0 ∧ p.enableDrawdownProfitEarlyExit = 0) ∨
    (enable ≠ 0 ∧ p.enableDrawdownProfitEarlyExit ≠ 0 ∧
      p.drawdownProfitEarlyExitProgressFraction ≤ 1)

/-- The progress of an episode is not negative, so a negative `progress_fraction` asks for
none. -/
lemma shouldDrawdownProfitEarlyExit_clamped (h : p.KeepsExit enable) (hstep : 0 ≤ ag.step)
    (hinit : 0 < ag.initialEquity) (equityAfter : ℚ) :
    shouldDrawdownProfitEarlyExit (p.clamped enable) ag equityAfter =
      shouldDrawdownProfitEarlyExit p ag equityAfter := by
  by_cases harmed : p.Armed
  swap
  · rw [earlyExit_of_not_armed harmed, earlyExit_of_not_armed (mt armed_clamped.mp harmed)]
  rcases h with hnot | ⟨henable, hoff⟩ | ⟨henable, hon, hfraction⟩
  · exact absurd harmed hnot
  · have hclamped : (p.clamped enable).enableDrawdownProfitEarlyExit = 0 := henable
    simp only [shouldDrawdownProfitEarlyExit, hclamped, hoff, if_true]
  · rw [earlyExit_of_armed harmed hon hinit,
      earlyExit_of_armed (armed_clamped.mpr harmed) henable hinit]
    have hprogress : 0 ≤ progress p ag :=
      progress_nonneg (by have := harmed.1; omega) hstep
    have hiff : atMost 1 (atLeast 0 p.drawdownProfitEarlyExitProgressFraction) ≤ progress p ag ↔
        p.drawdownProfitEarlyExitProgressFraction ≤ progress p ag := by
      rcases lt_or_ge p.drawdownProfitEarlyExitProgressFraction 0 with hneg | hpos
      · rw [atLeast_of_lt hneg, atMost_of_le zero_le_one]
        exact iff_of_true hprogress (hneg.le.trans hprogress)
      · rw [atLeast_of_le hpos, atMost_of_le hfraction]
    exact congrArg (fun b => pure (b && decide (ag.maxDrawdown >
      (equityAfter - ag.initialEquity) / ag.initialEquity))) (decide_eq_decide.mpr hiff)

/-! ## The clock of an episode -/

/-- The agents are at the same point of the same episode. -/
structure SameClock (a b : AgentState) : Prop where
  step : b.step = a.step
  initial : b.initialEquity = a.initialEquity

/-- Trading leaves the clock alone. -/
theorem executeBar_clock (rng : UInt64) (action : ℤ) :
    Ensures (executeBar md p ag rng action) fun x => SameClock ag x.agent :=
  (executeBar_record rng action).mono fun _ h => ⟨h.step, h.initial⟩

/-- Marking advances the clock by one step. -/
theorem markToMarket_clock (x : Executed) : Ensures (markToMarket md p x) fun m =>
    m.agent.step = x.agent.step + 1 ∧ m.agent.initialEquity = x.agent.initialEquity :=
  (markToMarket_record x).mono fun _ h => ⟨h.step, h.initial⟩

/-- The clock of an episode that has been started. -/
structure AgentState.Started (ag : AgentState) : Prop where
  step : 0 ≤ ag.step
  initial : 0 < ag.initialEquity

lemma AgentState.started_initial (dataOffset : ℤ) : (AgentState.initial dataOffset).Started :=
  ⟨le_rfl, by norm_num [AgentState.initial, initialCash]⟩

/-- A step of a started episode marks a started agent. -/
lemma AgentState.Started.marked (h : ag.Started) {rng : UInt64} {action : ℤ} {x : Executed}
    {m : Marked} (hx : executeBar md p ag rng action = .ok x)
    (hm : markToMarket md p x = .ok m) : m.agent.Started := by
  have hclock := executeBar_clock rng action x hx
  obtain ⟨hstep, hinit⟩ := markToMarket_clock x m hm
  refine ⟨?_, ?_⟩
  · rw [hstep, hclock.step]
    exact Int.add_nonneg h.step zero_le_one
  · rw [hinit, hclock.initial]
    exact h.initial

/-- A step of a started episode goes on with it or starts the next one. -/
lemma cStep_started {env : EnvState} (h : env.agent.Started) (action : ℤ) :
    Ensures (cStep lm md p env action) fun env' => env'.agent.Started := by
  intro env' henv'
  obtain ⟨x, m, hx, hm, ⟨-, hagent, -⟩ | ⟨-, hagent, -⟩⟩ := cStep_cases henv'
  · rw [hagent]
    exact AgentState.started_initial _
  · rw [hagent]
    exact ⟨(h.marked hx hm).step, (h.marked hx hm).initial⟩

lemma cReset_started (env : EnvState) :
    Ensures (cReset md p env) fun env' => env'.agent.Started :=
  Ensures.self.bind fun _ _ => Ensures.pure (AgentState.started_initial _)

/-! ## Runs -/

/-- Runs whose steps agree where an invariant holds, which every reset establishes, show the
same. -/
theorem sameRuns_of_invariant {I : MarketData → EnvState → Prop}
    (hreset : ∀ md env, Ensures (cReset md p env) (I md))
    (hsame : ∀ lm md env a, I md env → cStep lm md (p.clamped enable) env a = cStep lm md p env a)
    (hstep : ∀ lm md env a, I md env → Ensures (cStep lm md p env a) (I md)) :
    SameRuns p (p.clamped enable) := by
  intro lm md rng actions
  have hrun : episode lm md (p.clamped enable) (.zero rng) actions =
      episode lm md p (.zero rng) actions := by
    unfold episode
    rw [cReset_clamped]
    exact bind_congr_ok fun env' henv' =>
      runFrom_congr (hsame lm md) (hstep lm md) actions env' (hreset md _ env' henv')
  rw [hrun]

/-- **Clamped parameters.** The clamps that keep the early exit, on parameters whose fills they
leave alone, do not change what any run shows. -/
theorem sameRuns_clamped (hb : 0 ≤ p.fillBufferBps) (hp : 0 ≤ p.fillProbability)
    (hexit : p.KeepsExit enable) : SameRuns p (p.clamped enable) := by
  refine sameRuns_of_invariant (I := fun _ env => env.agent.Started)
    (fun _ env => cReset_started env) (fun lm md env a h => ?_)
    fun lm md env a h => cStep_started h a
  refine cStep_clamped (executeBar_clamped hb hp _ _ _) fun x m hx hm => ?_
  have hmarked := h.marked hx hm
  unfold ends
  rw [shouldDrawdownProfitEarlyExit_clamped hexit hmarked.step hmarked.initial]
  rfl

end KeelTrader.Sim
