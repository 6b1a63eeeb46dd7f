import KeelTrader.Research.Gate
import KeelTrader.Sim.Bindings
import KeelTrader.Sim.Drawdown
import KeelTrader.Sim.NoLookahead

set_option relaxedAutoImplicit false
set_option autoImplicit false

/-!
# The window of the gate

`run_window` of `research/eval.py`: one environment, one reset, and a loop of steps that is left at
the first terminal. The environment ends the episode after `window_steps` steps at the latest, and
the loop allows for `window_steps + decision_lag + 2` of them. The lag is the one that the caller
asked for, not the one that `keel_env_finalize` clamps it to, so a negative lag makes the loop
shorter, down to one that is over before the episode.

## Main definitions

* `KeelTrader.Research.WindowArgs`, `windowParams` — the keyword arguments and the parameters of
  the environment.
* `KeelTrader.Research.windowLoop`, `runWindow` — the loop and the window.
* `KeelTrader.Research.WindowLive` — an episode that goes on, `k` steps after its start.
* `KeelTrader.Research.OneEpisode` — the run of a window is one full episode.

## Main results

* `KeelTrader.Research.keelBuild_window` — the C interface builds these parameters.
* `KeelTrader.Research.cStep_window` — what a step of the window does.
* `KeelTrader.Research.windowLoop_ends`, `windowLoop_waits` — a loop that is long enough ends the
  episode, and a short one need not.
* `KeelTrader.Research.gateWindows_iff` — every window of the gate is one full episode exactly when
  the lag is at least `-2`.

## Implementation notes

A policy chooses an action from the observations so far, so that every function of the gate's
policies is one. The loop returns the actions as well, which only its specification reads.
-/

namespace KeelTrader.Research

open Sim Checked

/-! ## Parameters -/

/-- The keyword arguments of `run_window`, with their defaults. -/
structure WindowArgs where
  slippageBps : ℚ
  decisionLag : ℤ := 2
  feeRate : ℚ := 26 / 10000
  fillBufferBps : ℚ := 5
  fillProbability : ℚ := 1
  maxHoldHours : ℤ := 6
  deriving DecidableEq, Repr

/-- What `run_window` passes to `TradingEnv`. -/
def windowKeywords (args : WindowArgs) (windowSteps : ℕ) (offset : ℤ) : Keywords
  | .maxSteps => some (.int windowSteps)
  | .forcedOffset => some (.int offset)
  | .decisionLag => some (.int args.decisionLag)
  | .feeRate => some (.float args.feeRate)
  | .fillSlippageBps => some (.float args.slippageBps)
  | .fillBufferBps => some (.float args.fillBufferBps)
  | .fillProbability => some (.float args.fillProbability)
  | .maxHoldHours => some (.int args.maxHoldHours)
  | _ => none

/-- The order in which it is passed. -/
def windowOrder : List EnvParam :=
  [.maxSteps, .forcedOffset, .decisionLag, .feeRate, .fillSlippageBps, .fillBufferBps,
    .fillProbability, .maxHoldHours]

/-- The parameters of the environment of a window. -/
def windowParams (args : WindowArgs) (windowSteps : ℕ) (offset : ℤ) : Params :=
  { keelEnvCreate with
    maxSteps := windowSteps
    forcedOffset := offset
    decisionLag := atLeast 1 args.decisionLag
    feeRate := args.feeRate
    fillSlippageBps := args.slippageBps
    fillBufferBps := args.fillBufferBps
    fillProbability := args.fillProbability
    maxHoldHours := args.maxHoldHours }

/-! ## The window -/

/-- `range(window_steps + decision_lag + 2)`. -/
def windowBound (args : WindowArgs) (windowSteps : ℕ) : ℕ :=
  ((windowSteps : ℤ) + args.decisionLag + 2).toNat

/-- The loop of `run_window`: at most `n` more steps, and none after a terminal. -/
def windowLoop (lm : Libm) (md : MarketData) (p : Params) (policy : Policy) :
    ℕ → List (List ℚ) → EnvState → Checked (EnvState × List ℤ)
  | 0, _, env => pure (env, [])
  | n + 1, seen, env => do
    let action := policy seen
    let env' ← cStep lm md p env action
    if env'.terminal then pure (env', [action])
    else do
      let (final, actions) ← windowLoop lm md p policy n (seen ++ [env'.observations]) env'
      pure (final, action :: actions)

/-- `BARS_PER_MONTH`. -/
def barsPerMonth : ℚ := 730

/-- `run_window`, from the state `seed` of the generator. -/
def runWindow (lm : Libm) (md : MarketData) (args : WindowArgs) (windowSteps : ℕ) (offset : ℤ)
    (seed : UInt64) (policy : Policy) : Checked WindowResult := do
  let p := windowParams args windowSteps offset
  let env ← cReset md p (.zero seed)
  let (env, _) ← windowLoop lm md p policy (windowBound args windowSteps) [env.observations] env
  let months ← fdiv barsPerMonth windowSteps
  pure ⟨offset, env.log.totalReturn, env.log.totalReturn * months, |env.log.maxDrawdown|,
    env.log.numTrades⟩

/-! ## Full episodes -/

/-- The episode of a window goes on, `k` steps after it started at `offset`. -/
structure WindowLive (md : MarketData) (windowSteps : ℕ) (offset : ℤ) (k : ℕ) (env : EnvState) :
    Prop where
  live : env.terminal = false
  offset : env.agent.dataOffset = offset
  step : env.agent.step = k
  short : k < windowSteps
  log : env.log = (EnvState.zero 0).log
  priced : env.agent.Priced md
  initial : env.agent.initialEquity = initialCash
  drawdown : 0 ≤ env.agent.maxDrawdown

/-- The step of `action` from `last` to `final` ends the `steps`-th step of an episode: it is the
last step of the window, or its equity is below a hundredth of the initial cash; and the log holds
the figures of this one episode. -/
structure EndsWindow (lm : Libm) (md : MarketData) (p : Params) (windowSteps steps : ℕ)
    (last : EnvState) (action : ℤ) (final : EnvState) (m : Marked) (closed : AgentState × ℚ) :
    Prop where
  step : cStep lm md p last action = .ok final
  marks : markedStep md p last action = .ok m
  terminal : final.terminal = true
  full : steps = windowSteps ∨ steps < windowSteps ∧ m.equityAfter < initialCash * (1 / 100)
  closes : finalClose md p m.tNew { m.agent with prevRet := m.ret } = .ok closed
  n : final.log.n = 1
  totalReturn : final.log.totalReturn = (closed.2 - initialCash) / initialCash
  maxDrawdown : |final.log.maxDrawdown| = closed.1.maxDrawdown
  numTrades : final.log.numTrades = closed.1.numTrades

/-- The window is one full episode: it starts at `offset`, goes on for `init`, ends with `action`,
and the result has the figures of this episode. -/
structure OneEpisode (lm : Libm) (md : MarketData) (args : WindowArgs) (windowSteps : ℕ)
    (offset : ℤ) (seed : UInt64) (policy : Policy) (start : EnvState) (init : List ℤ)
    (action : ℤ) (last final : EnvState) : Prop where
  reset : cReset md (windowParams args windowSteps offset) (.zero seed) = .ok start
  started : start.agent.dataOffset = offset
  loop : windowLoop lm md (windowParams args windowSteps offset) policy
    (windowBound args windowSteps) [start.observations] start = .ok (final, init ++ [action])
  live : ∀ before, before <+: init → Returns
    (runFrom lm md (windowParams args windowSteps offset) start before)
      (WindowLive md windowSteps offset before.length)
  reaches : runFrom lm md (windowParams args windowSteps offset) start init = .ok last
  ends : ∃ m closed, EndsWindow lm md (windowParams args windowSteps offset) windowSteps
    (init.length + 1) last action final m closed
  result : runWindow lm md args windowSteps offset seed policy = .ok
    ⟨offset, final.log.totalReturn, final.log.totalReturn * (barsPerMonth / windowSteps),
      |final.log.maxDrawdown|, final.log.numTrades⟩

/-- The window is one full episode. -/
def WindowIsEpisode (lm : Libm) (md : MarketData) (args : WindowArgs) (windowSteps : ℕ)
    (offset : ℤ) (seed : UInt64) (policy : Policy) : Prop :=
  ∃ start init action last final,
    OneEpisode lm md args windowSteps offset seed policy start init action last final

variable {lm : Libm} {md : MarketData} {args : WindowArgs} {W k n : ℕ} {o : ℤ} {seed : UInt64}
  {policy : Policy} {env env' : EnvState} {action : ℤ}

/-! ## The environment of a window -/

lemma truncate_intCast (z : ℤ) : truncate z = z := by
  simp [truncate]

/-- **Parameters.** What the C interface builds from the keyword arguments of a window. -/
theorem keelBuild_window {fields : Fields}
    (h : keelBuild (windowKeywords args W o) windowOrder = some fields) :
    fields.toParams = windowParams args W o := by
  have horder : ∀ key, key ∈ windowOrder ↔ (windowKeywords args W o key).isSome := by
    intro key
    cases key <;> simp [windowOrder, windowKeywords]
  obtain ⟨-, rfl⟩ := (keelBuild_eq_some horder).mp h
  have hsteps : truncate W = W := by simpa using truncate_intCast W
  simp [hsteps, Fields.toParams, keelEnvFinalize, Keywords.value, windowKeywords, Kind.value,
    PyNum.toRat, truncate_intCast, windowParams, keelEnvCreateFields, keelEnvCreate, atLeast]

/-- The offset is used as it is given. -/
lemma startOffset_window (hstart : 0 ≤ o) (hend : o + W < md.numTimesteps) (rng : UInt64) :
    startOffset md (windowParams args W o) rng = (o, rng) := by
  have hoffset : (windowParams args W o).forcedOffset = o := rfl
  have hsteps : (windowParams args W o).maxSteps = W := rfl
  have hfits : ¬(o > (md.numTimesteps : ℤ) - W - 1 ∧ (md.numTimesteps : ℤ) - W - 1 ≥ 0) := by omega
  unfold startOffset
  dsimp only
  rw [hoffset, hsteps, if_pos hstart, if_neg hfits]

/-- A window starts a live episode. -/
lemma cReset_window (hstart : 0 ≤ o) (hend : o + W < md.numTimesteps) (hW : 1 ≤ W) :
    Returns (cReset md (windowParams args W o) (.zero seed)) fun start =>
      WindowLive md W o 0 start ∧ start.agent = .initial o := by
  have hT : 0 < md.numTimesteps := by omega
  have hagent : (resetAgentState md (windowParams args W o) seed).1 = .initial o := by
    rw [resetAgentState, startOffset_window hstart hend]
  refine (cReset_returns hT _).of_values fun start h => ?_
  obtain ⟨obs, -, h⟩ := bind_eq_ok.mp h
  have hstart' : start.agent = .initial o := by
    rw [← pure_eq_ok.mp h]
    exact hagent
  refine ⟨⟨?_, by rw [hstart']; rfl, by rw [hstart']; rfl, hW, ?_, ?_, by rw [hstart']; rfl,
    by rw [hstart']; rfl⟩, hstart'⟩
  · rw [← pure_eq_ok.mp h]
  · rw [← pure_eq_ok.mp h]
    rfl
  · rw [hstart']
    exact AgentState.priced_of_flat (by simp [AgentState.initial])

/-- What the step after `k` steps of a live window marks. -/
structure WindowMarked (md : MarketData) (start : ℤ) (k : ℕ) (m : Marked) : Prop where
  step : m.agent.step = (k : ℤ) + 1
  offset : m.agent.dataOffset = start
  row : m.tNew = clampRow md (start + ((k : ℤ) + 1))
  priced : m.agent.Priced md
  initial : m.agent.initialEquity = initialCash
  drawdown : 0 ≤ m.agent.maxDrawdown

lemma WindowLive.marked (h : WindowLive md W o k env) {x : Executed} {m : Marked}
    (hx : executeBar md (windowParams args W o) env.agent env.rng action = .ok x)
    (hm : markToMarket md (windowParams args W o) x = .ok m) : WindowMarked md o k m := by
  have hsame := executeBar_record env.rng action x hx
  have hrecord := markToMarket_record x m hm
  obtain ⟨hsym, hrow⟩ := markToMarket_position x m hm
  constructor
  · rw [hrecord.step, hsame.step, h.step]
  · rw [hrecord.offset, hsame.offset, h.offset]
  · show m.tNew = _
    rw [hrow]
    show clampRow md (x.agent.dataOffset + (x.agent.step + 1)) = _
    rw [hsame.offset, hsame.step, h.offset, h.step]
  · unfold AgentState.Priced
    rw [hsym]
    exact pricedInvariant.executeBar env.rng action h.priced x hx
  · rw [hrecord.initial, hsame.initial, h.initial]
  · rw [hrecord.drawdown, hsame.drawdown]
    split
    · exact h.drawdown.trans (le_max_left _ _)
    · exact h.drawdown

/-- The three conditions of `c_step` come down to two: the data lasts for the whole window, and the
early exit is off. -/
lemma isDone_window {m : Marked} (hend : o + W < md.numTimesteps) (hk : k < W)
    (h : WindowMarked md o k m) : isDone md (windowParams args W o) m false = true ↔
      k + 1 = W ∨ m.equityAfter < initialCash * (1 / 100) := by
  have hsteps : (windowParams args W o).maxSteps = W := rfl
  have hrow : clampRow md (o + ((k : ℤ) + 1)) = o + ((k : ℤ) + 1) := if_neg (by omega)
  simp only [isDone, Bool.or_false, Bool.or_eq_true, decide_eq_true_eq, h.step, h.row, hrow, hsteps]
  constructor
  · rintro ((hlast | hdata) | hbroke)
    · exact .inl (by omega)
    · exact .inl (by omega)
    · exact .inr hbroke
  · rintro (hlast | hbroke)
    · exact .inl (.inl (by omega))
    · exact .inr hbroke

/-- The end of a window logs the figures of its one episode. -/
lemma WindowLive.ends (hend : o + W < md.numTimesteps) (h : WindowLive md W o k env) {x : Executed}
    {m : Marked} (hx : executeBar md (windowParams args W o) env.agent env.rng action = .ok x)
    (hm : markToMarket md (windowParams args W o) x = .ok m)
    (hdone : isDone md (windowParams args W o) m false = true)
    (hends : Sim.ends md (windowParams args W o) m = .ok true)
    (hstep : cStep lm md (windowParams args W o) env action = .ok env') :
    ∃ closed, EndsWindow lm md (windowParams args W o) W (k + 1) env action env' m closed := by
  have hmarked := h.marked hx hm
  obtain ⟨hterminal, closed, hclosed, hlog⟩ := cStep_done hx hm hends hstep
  have hsame := finalClose_record closed hclosed
  have hlogged := logEpisode_eq_ok hlog
  have hinitial : closed.1.initialEquity = initialCash := hsame.initial.trans hmarked.initial
  have hdrawdown : 0 ≤ closed.1.maxDrawdown := by
    rw [hsame.drawdown]
    exact hmarked.drawdown
  refine ⟨closed, hstep, ?_, hterminal, ?_, hclosed, ?_, ?_, ?_, ?_⟩
  · unfold markedStep
    rw [bind_of_eq_ok hx, hm]
  · have hshort := h.short
    rcases (isDone_window hend h.short hmarked).mp hdone with hlast | hbroke
    · exact .inl hlast
    · rcases Nat.lt_or_ge (k + 1) W with hlt | hge
      · exact .inr ⟨hlt, hbroke⟩
      · exact .inl (by omega)
  · rw [hlogged.n, h.log]
    exact zero_add 1
  · rw [hlogged.totalReturn, hinitial, h.log]
    exact zero_add _
  · rw [hlogged.maxDrawdown, h.log]
    show |0 + closed.1.maxDrawdown| = closed.1.maxDrawdown
    rw [zero_add, abs_of_nonneg hdrawdown]
  · rw [hlogged.numTrades, h.log]
    exact zero_add _

/-- **Steps of a window.** A step of a live episode does not fault. The episode goes on, or it ends:
with its last step, or with an equity below a hundredth of the initial cash. -/
theorem cStep_window (hstart : 0 ≤ o) (hend : o + W < md.numTimesteps)
    (h : WindowLive md W o k env) (action : ℤ) :
    Returns (cStep lm md (windowParams args W o) env action) fun env' =>
      WindowLive md W o (k + 1) env' ∨
        ∃ m closed,
          EndsWindow lm md (windowParams args W o) W (k + 1) env action env' m closed := by
  have hT : 0 < md.numTimesteps := by omega
  have hinit : env.agent.initialEquity ≠ 0 := by
    rw [h.initial]
    norm_num [initialCash]
  have hclock : 0 ≤ env.agent.dataOffset + env.agent.step := by
    rw [h.offset, h.step]
    omega
  refine (cStep_returns lm hT hclock h.priced hinit fun x _ => ?_).of_values fun env' henv' => ?_
  · rw [borrowFee_of_apr _ _ _ rfl]
    exact Returns.pure trivial
  obtain ⟨x, m, hx, hm, hcases⟩ := cStep_cases henv'
  have hmarked := h.marked hx hm
  have hends := cStep_ends hx hm henv'
  have hoff : shouldDrawdownProfitEarlyExit (windowParams args W o) m.agent m.equityAfter =
      .ok false := if_pos rfl
  have hterminal : isDone md (windowParams args W o) m false = env'.terminal := by
    have hdone := hends
    rw [Sim.ends, bind_of_eq_ok hoff] at hdone
    exact pure_eq_ok.mp hdone
  rcases hcases with ⟨hdone, -⟩ | ⟨hlive, hagent, -⟩
  · rw [hdone] at hterminal hends
    exact .inr ⟨m, h.ends hend hx hm hterminal hends henv'⟩
  · left
    have hshort : k + 1 < W := by
      have hnot : ¬(k + 1 = W ∨ m.equityAfter < initialCash * (1 / 100)) := by
        rw [← isDone_window hend h.short hmarked, hterminal, hlive]
        decide
      have hk := h.short
      omega
    constructor
    · exact hlive
    · rw [hagent]
      exact hmarked.offset
    · rw [hagent]
      push_cast
      exact hmarked.step
    · exact hshort
    · rw [cStep_log henv' hlive, h.log]
    · rw [hagent]
      exact hmarked.priced
    · rw [hagent]
      exact hmarked.initial
    · rw [hagent]
      exact hmarked.drawdown

/-! ## The loop -/

/-- **A loop that is long enough** ends the episode.

**Proof sketch.** Induction on the steps that are left. Each of them ends the episode or brings it
one step closer to its end, which is at most `W` steps after its start. -/
theorem windowLoop_ends (hstart : 0 ≤ o) (hend : o + W < md.numTimesteps) (n : ℕ)
    {seen : List (List ℚ)} (h : WindowLive md W o k env) (hlong : W ≤ k + n) :
    Returns (windowLoop lm md (windowParams args W o) policy n seen env) fun r =>
      ∃ init action last, r.2 = init ++ [action] ∧
        (∀ before, before <+: init → Returns (runFrom lm md (windowParams args W o) env before)
          (WindowLive md W o (k + before.length))) ∧
        runFrom lm md (windowParams args W o) env init = .ok last ∧
        ∃ m closed, EndsWindow lm md (windowParams args W o) W (k + init.length + 1) last action
          r.1 m closed := by
  induction n generalizing k env seen with
  | zero => exact absurd h.short (by omega)
  | succ n ih =>
    have hstep : Returns (cStep lm md (windowParams args W o) env (policy seen)) _ :=
      cStep_window hstart hend h (policy seen)
    obtain ⟨env', henv', hlive | ⟨m, closed, hends⟩⟩ := hstep
    · unfold windowLoop
      dsimp only
      rw [bind_of_eq_ok henv', if_neg (by rw [hlive.live]; decide)]
      refine (ih hlive (by omega)).bind fun r hr => Returns.pure ?_
      obtain ⟨init, action, last, hactions, hprefix, hlast, m, closed, hends⟩ := hr
      have hrun : ∀ actions, runFrom lm md (windowParams args W o) env (policy seen :: actions) =
          runFrom lm md (windowParams args W o) env' actions := by
        intro actions
        rw [runFrom, bind_of_eq_ok henv']
      refine ⟨policy seen :: init, action, last, by simp [hactions], ?_, by rw [hrun, hlast], m,
        closed, ?_⟩
      · intro before hbefore
        rcases List.prefix_cons_iff.mp hbefore with rfl | ⟨rest, rfl, hrest⟩
        · exact Returns.pure h
        · rw [hrun, List.length_cons, Nat.add_comm rest.length, ← Nat.add_assoc]
          exact hprefix rest hrest
      · have hlength : k + (policy seen :: init).length + 1 = k + 1 + init.length + 1 := by
          simp only [List.length_cons]
          omega
        rw [hlength]
        exact hends
    · unfold windowLoop
      dsimp only
      rw [bind_of_eq_ok henv', if_pos hends.terminal]
      refine Returns.pure ⟨[], policy seen, env, rfl, ?_, rfl, m, closed, hends⟩
      intro before hbefore
      rw [List.prefix_nil.mp hbefore]
      exact Returns.pure h

/-- An agent that goes flat without a position is marked at its cash. -/
lemma markedStep_waited {p : Params} (hagent : env.agent = .waited o n) {m : Marked}
    (hm : markedStep md p env 0 = .ok m) :
    m.agent = .waited o (n + 1) ∧ m.equityAfter = initialCash ∧ m.ret = 0 := by
  obtain ⟨x, hx, hm⟩ := bind_eq_ok.mp hm
  rw [hagent, executeBar_waited] at hx
  obtain ⟨anyTradable, -, hx⟩ := bind_eq_ok.mp hx
  have haction : applyAction md p (tradeRow md (.waited o n)) true 0 (.waited o n) env.rng =
      .ok (.waited o n, env.rng, 0) := rfl
  rw [bind_of_eq_ok haction] at hx
  cases pure_eq_ok.mp hx
  rw [markToMarket_waited rfl rfl] at hm
  cases hm
  exact ⟨rfl, rfl, rfl⟩

/-- A step that goes flat waits on, until the last step of the window. -/
lemma cStep_window_waits (hstart : 0 ≤ o) (hend : o + W < md.numTimesteps)
    (h : WindowLive md W o k env) (hagent : env.agent = .waited o k) (hk : k + 1 < W) :
    Returns (cStep lm md (windowParams args W o) env 0) fun env' =>
      WindowLive md W o (k + 1) env' ∧ env'.agent = .waited o ((k + 1 : ℕ) : ℤ) := by
  obtain ⟨env', henv', hcases⟩ := (cStep_window hstart hend h 0 :
    Returns (cStep lm md (windowParams args W o) env 0) _)
  refine ⟨env', henv', ?_⟩
  rcases hcases with hlive | ⟨m, closed, hends⟩
  · refine ⟨hlive, ?_⟩
    obtain ⟨x, m, hx, hm, ⟨hdone, -⟩ | ⟨-, hnext, -⟩⟩ := cStep_cases henv'
    · rw [hlive.live] at hdone
      cases hdone
    · have hmarked : markedStep md (windowParams args W o) env 0 = .ok m := by
        unfold markedStep
        rw [bind_of_eq_ok hx, hm]
      obtain ⟨hm', -, hret⟩ := markedStep_waited hagent hmarked
      rw [hnext, hm', hret]
      push_cast
      rfl
  · obtain ⟨-, hequity, -⟩ := markedStep_waited hagent hends.marks
    rcases hends.full with hlast | ⟨-, hbroke⟩
    · omega
    · rw [hequity] at hbroke
      norm_num [initialCash] at hbroke

/-- **A loop that is too short** leaves a policy that always goes flat in the middle of its
episode. -/
theorem windowLoop_waits (hstart : 0 ≤ o) (hend : o + W < md.numTimesteps) (n : ℕ)
    {seen : List (List ℚ)} (h : WindowLive md W o k env) (hagent : env.agent = .waited o k)
    (hshort : k + n < W) :
    Returns (windowLoop lm md (windowParams args W o) (fun _ => 0) n seen env) fun r =>
      r.1.terminal = false := by
  induction n generalizing k env seen with
  | zero => exact Returns.pure h.live
  | succ n ih =>
    have hstep : Returns (cStep lm md (windowParams args W o) env 0) _ :=
      cStep_window_waits hstart hend h hagent (by omega)
    obtain ⟨env', henv', hlive, hnext⟩ := hstep
    unfold windowLoop
    dsimp only
    rw [bind_of_eq_ok henv', if_neg (by rw [hlive.live]; decide)]
    exact (ih hlive hnext (by omega)).bind fun r hr => Returns.pure hr

/-! ## The windows of the gate -/

/-- **A window with a loop that is long enough** is one full episode. -/
theorem windowIsEpisode_of_lag (hstart : 0 ≤ o) (hend : o + W < md.numTimesteps) (hW : 1 ≤ W)
    (hlag : -2 ≤ args.decisionLag) (policy : Policy) :
    WindowIsEpisode lm md args W o seed policy := by
  obtain ⟨start, hreset, hlive, -⟩ := (cReset_window hstart hend hW :
    Returns (cReset md (windowParams args W o) (.zero seed)) _)
  have hlong : W ≤ 0 + windowBound args W := by
    unfold windowBound
    omega
  have hloop : Returns (windowLoop lm md (windowParams args W o) policy (windowBound args W)
    [start.observations] start) _ := windowLoop_ends hstart hend _ hlive hlong
  obtain ⟨⟨final, actions⟩, hrun, init, action, last, rfl, hprefix, hlast, m, closed, hends⟩ :=
    hloop
  have hne : ((W : ℕ) : ℚ) ≠ 0 := by
    exact_mod_cast (by omega : W ≠ 0)
  refine ⟨start, init, action, last, final, hreset, hlive.offset, hrun, fun before hbefore => ?_,
    hlast, ⟨m, closed, ?_⟩, ?_⟩
  · simpa using hprefix before hbefore
  · simpa using hends
  · unfold runWindow
    dsimp only
    rw [bind_of_eq_ok hreset, bind_of_eq_ok hrun, bind_of_eq_ok (fdiv_of_ne hne)]
    rfl

/-- **A window with a loop that is too short** is not, for a policy that always goes flat. -/
theorem not_windowIsEpisode_of_lag (hstart : 0 ≤ o) (hend : o + W < md.numTimesteps) (hW : 1 ≤ W)
    (hlag : args.decisionLag < -2) : ¬WindowIsEpisode lm md args W o seed fun _ => 0 := by
  rintro ⟨start, init, action, last, final, h⟩
  obtain ⟨start', hreset, hlive, hagent⟩ := (cReset_window hstart hend hW :
    Returns (cReset md (windowParams args W o) (.zero seed)) _)
  rw [h.reset] at hreset
  cases hreset
  have hshort : 0 + windowBound args W < W := by
    unfold windowBound
    omega
  have hloop : Returns (windowLoop lm md (windowParams args W o) (fun _ => 0)
    (windowBound args W) [start.observations] start) _ :=
      windowLoop_waits hstart hend _ hlive hagent hshort
  have hterminal := hloop.ensures _ h.loop
  obtain ⟨m, closed, hends⟩ := h.ends
  rw [hends.terminal] at hterminal
  cases hterminal

/-- **The windows of the gate.** On every file that is long enough, every seed and every range of
fractions give windows inside the file; and the run of each of them is one full episode for every
policy exactly when the decision lag is at least `-2`. -/
theorem gateWindows_iff (lm : Libm) (md : MarketData) (args : WindowArgs) (rng : Rng)
    (nWindows windowSteps : ℕ) (seed : ℤ) (loFrac hiFrac : ℚ) (hW : 1 ≤ windowSteps)
    (hlong : 0 < maxOffset md.numTimesteps windowSteps) :
    ∃ offsets, generateOffsets rng md.numTimesteps nWindows windowSteps seed loFrac hiFrac =
        .ok offsets ∧ offsets.length = nWindows ∧
      ∀ offset ∈ offsets, 0 ≤ offset ∧ offset ≤ maxOffset md.numTimesteps windowSteps ∧
        ∀ state : UInt64, (∀ policy, WindowIsEpisode lm md args windowSteps offset state policy) ↔
          -2 ≤ args.decisionLag := by
  obtain ⟨offsets, hoffsets⟩ : ∃ offsets, generateOffsets rng md.numTimesteps nWindows windowSteps
      seed loFrac hiFrac = .ok offsets := ⟨_, generateOffsets_of_pos hlong⟩
  obtain ⟨hlength, hinside⟩ := generateOffsets_ok hoffsets
  have hmax : maxOffset md.numTimesteps windowSteps =
      (md.numTimesteps : ℤ) - windowSteps - 1 := rfl
  refine ⟨offsets, hoffsets, hlength, fun offset hmem => ?_⟩
  obtain ⟨hstart, hend⟩ := hinside offset hmem
  refine ⟨hstart, by omega, fun state => ?_⟩
  constructor
  · intro hall
    by_contra hlag
    exact not_windowIsEpisode_of_lag hstart hend hW (not_le.mp hlag) (hall _)
  · exact fun hlag policy => windowIsEpisode_of_lag hstart hend hW hlag policy

/-- Three windows of four steps in a file of nine rows, at the default lag. -/
theorem gateWindows_nine_rows :
    let md := wideMarket 9 fun _ => 100
    ∃ offsets, generateOffsets (Rng.towards 2) md.numTimesteps 3 4 0 0 1 = .ok offsets ∧
      offsets.length = 3 ∧ ∀ offset ∈ offsets, 0 ≤ offset ∧ offset ≤ maxOffset md.numTimesteps 4 ∧
        ∀ state : UInt64,
          (∀ policy, WindowIsEpisode .firstOrder md { slippageBps := 10 } 4 offset state policy) ↔
            -2 ≤ (2 : ℤ) :=
  gateWindows_iff .firstOrder (wideMarket 9 fun _ => 100) { slippageBps := 10 } (Rng.towards 2) 3 4
    0 0 1 (by decide) (by decide)

/-- At the lag `-3`, a window of four steps in a file of nine rows is left after three steps of a
policy that always goes flat, in the middle of its episode. -/
theorem not_windowIsEpisode_short :
    let md := wideMarket 9 fun _ => 100
    generateOffsets (Rng.towards 2) md.numTimesteps 1 4 0 0 1 = .ok [2] ∧
      ¬WindowIsEpisode .firstOrder md { slippageBps := 10, decisionLag := -3 } 4 2 7 fun _ => 0 :=
  ⟨by decide +kernel, not_windowIsEpisode_of_lag (by decide) (by decide) (by decide) (by decide)⟩

end KeelTrader.Research
