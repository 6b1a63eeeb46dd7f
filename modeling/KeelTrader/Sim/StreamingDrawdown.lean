import KeelTrader.Lib.PeakDrawdown
import KeelTrader.Sim.Drawdown

set_option relaxedAutoImplicit false
set_option autoImplicit false

/-!
# The streaming drawdown

`c_step` keeps a peak and a running maximum of the drawdown from it, in fields that the auto-reset
sets back inside the step that logs them. What it logs when an episode ends is the maximum drawdown
of the equity curve of that episode, and of nothing else.

## Main definitions

* `KeelTrader.Sim.curveStep`, `curveEpisode` — runs with the equities of the episode they are in.
* `KeelTrader.Sim.StreamsDrawdown` — what a step keeps and logs, by the definition of the drawdown.

## Main results

* `KeelTrader.Sim.curveEpisode_of_episode` — every run has such equities.
* `KeelTrader.Sim.curveStep_streamed` — a step computes the drawdown of the longer curve.
* `KeelTrader.Sim.drawdown_streams` — the drawdown of every run is that of its definition.
-/

namespace KeelTrader.Sim

open Checked

/-- `c_step`, with the values of `equity_after` in the episode so far. A step that ends the episode
begins a new one. -/
def curveStep (lm : Libm) (md : MarketData) (p : Params) (s : EnvState × List ℚ) (action : ℤ) :
    Checked (EnvState × List ℚ) := do
  let m ← markedStep md p s.1 action
  let env' ← cStep lm md p s.1 action
  pure (env', if env'.terminal then [] else s.2 ++ [m.equityAfter])

/-- A `c_reset` followed by the `c_step`s of a list of actions, with the equities of the episode
that it is in. -/
def curveEpisode (lm : Libm) (md : MarketData) (p : Params) (env : EnvState) (actions : List ℤ) :
    Checked (EnvState × List ℚ) := do
  let env' ← cReset md p env
  actions.foldlM (curveStep lm md p) (env', [])

/-- The step of `action` in an episode with the equities `curve` so far. Its running maximum is the
maximum drawdown of the initial cash and these equities. If it ends the episode, it logs the maximum
drawdown of the whole episode; if not, it logs nothing and the running maximum does not decrease. -/
structure StreamsDrawdown (md : MarketData) (p : Params) (curve : List ℚ) (env : EnvState)
    (action : ℤ) (env' : EnvState) : Prop where
  found : IsMaxDrawdown (initialCash :: curve) env.agent.maxDrawdown
  ended : env'.terminal = true → ∃ m, markedStep md p env action = .ok m ∧
    IsMaxDrawdown (initialCash :: (curve ++ [m.equityAfter]))
      (env'.log.maxDrawdown - env.log.maxDrawdown)
  running : env'.terminal = false →
    env'.log = env.log ∧ env.agent.maxDrawdown ≤ env'.agent.maxDrawdown

/-- A step of some run ends an episode with the equities `path`, and adds `d` to the drawdowns in
the log. -/
def LogsDrawdown (lm : Libm) (md : MarketData) (p : Params) (path : List ℚ) (d : ℚ) : Prop :=
  ∃ env before action e e' curve m, curveEpisode lm md p env before = .ok (e, curve) ∧
    cStep lm md p e action = .ok e' ∧ markedStep md p e action = .ok m ∧ e'.terminal = true ∧
    path = curve ++ [m.equityAfter] ∧ d = e'.log.maxDrawdown - e.log.maxDrawdown

variable {lm : Libm} {md : MarketData} {p : Params} {env env' : EnvState} {action : ℤ}
  {actions : List ℤ} {curve : List ℚ}

/-! ## Equities of a run -/

/-- One action more is one step more. -/
lemma curveEpisode_concat (env : EnvState) (actions : List ℤ) (a : ℤ) :
    curveEpisode lm md p env (actions ++ [a]) =
      curveEpisode lm md p env actions >>= fun s => curveStep lm md p s a := by
  simp only [curveEpisode, List.foldlM_append, bind_assoc, List.foldlM_cons, List.foldlM_nil,
    bind_pure]

/-- **Recording.** Every run has the equities of the episode that it is in. -/
theorem curveEpisode_of_episode (actions : List ℤ) {e : EnvState}
    (h : episode lm md p env actions = .ok e) :
    ∃ curve, curveEpisode lm md p env actions = .ok (e, curve) := by
  induction actions using List.reverseRecOn generalizing e with
  | nil =>
    obtain ⟨e₀, hreset, h⟩ := bind_eq_ok.mp h
    cases pure_eq_ok.mp h
    refine ⟨[], ?_⟩
    unfold curveEpisode
    rw [bind_of_eq_ok hreset]
    rfl
  | append_singleton before a ih =>
    rw [episode_concat] at h
    obtain ⟨e₀, hbefore, hstep⟩ := bind_eq_ok.mp h
    obtain ⟨curve, hcurve⟩ := ih hbefore
    obtain ⟨m, hm, -⟩ := cStep_marked hstep
    refine ⟨if e.terminal then [] else curve ++ [m.equityAfter], ?_⟩
    rw [curveEpisode_concat, bind_of_eq_ok hcurve]
    unfold curveStep
    rw [bind_of_eq_ok hm, bind_of_eq_ok hstep]
    rfl

/-! ## One pass -/

/-- The peak and the running maximum of the agent are those of its equities. -/
abbrev Streamed (s : EnvState × List ℚ) : Prop :=
  StreamedDrawdown (initialCash :: s.2) s.1.agent.peakEquity s.1.agent.maxDrawdown

/-- A fresh agent has the equities of an empty episode. -/
lemma streamed_initial (dataOffset : ℤ) :
    StreamedDrawdown [initialCash] (AgentState.initial dataOffset).peakEquity
      (AgentState.initial dataOffset).maxDrawdown := .singleton initialCash

/-- **The mark** moves the peak and the running maximum on by one equity. -/
theorem markedStep_streamed {m : Marked} (h : Streamed (env, curve))
    (hm : markedStep md p env action = .ok m) :
    StreamedDrawdown (initialCash :: (curve ++ [m.equityAfter])) m.agent.peakEquity
      m.agent.maxDrawdown := by
  obtain ⟨booked, hbooked, -, hagent⟩ := markedStep_books hm
  obtain ⟨-, hpeak, hdrawdown⟩ := bookedStep_record _ hbooked
  have hbase : initialCash ≤ env.agent.peakEquity := h.peak.2 List.mem_cons_self
  have hcash : 0 < initialCash := by norm_num [initialCash]
  have hpos : 0 < max env.agent.peakEquity m.equityAfter :=
    hcash.trans_le (hbase.trans (le_max_left _ _))
  rw [hagent]
  dsimp only
  rw [hpeak, hdrawdown, if_pos hpos]
  exact h.concat m.equityAfter

/-- **Steps.** A step of an episode computes and logs the drawdown of its equities. -/
theorem curveStep_streams (h : Streamed (env, curve))
    (hstep : cStep lm md p env action = .ok env') :
    StreamsDrawdown md p curve env action env' := by
  obtain ⟨m, hm, hnext⟩ := cStep_marked hstep
  have hstreamed := markedStep_streamed h hm
  refine ⟨h.largest, fun hdone => ⟨m, hm, ?_⟩, fun hlive => ⟨cStep_log hstep hlive, ?_⟩⟩
  · obtain ⟨r, hr, hlogged⟩ := cStep_logs hm hstep hdone
    rw [hlogged.maxDrawdown, (finalClose_record r hr).drawdown, add_sub_cancel_left]
    exact hstreamed.largest
  · rcases hnext with ⟨hdone, -⟩ | ⟨-, hagent⟩
    · rw [hlive] at hdone
      cases hdone
    · rw [hagent]
      exact h.largest.le_concat h.peak hstreamed.largest

/-- A step keeps the agent in step with the equities. -/
lemma curveStep_streamed (h : Streamed (env, curve)) (action : ℤ) :
    Ensures (curveStep lm md p (env, curve) action) Streamed := by
  intro s hs
  obtain ⟨m, hm, hs⟩ := bind_eq_ok.mp hs
  obtain ⟨env', hstep, hs⟩ := bind_eq_ok.mp hs
  cases pure_eq_ok.mp hs
  obtain ⟨m', hm', ⟨hdone, o, hagent⟩ | ⟨hlive, hagent⟩⟩ := cStep_marked hstep
  · rw [hdone, Streamed, if_pos rfl, hagent]
    exact streamed_initial o
  · rw [hm] at hm'
    cases hm'
    rw [hlive, Streamed, if_neg Bool.false_ne_true, hagent]
    exact markedStep_streamed h hm

/-- The agent is in step with the equities after every run. -/
lemma curveEpisode_streamed (env : EnvState) (actions : List ℤ) :
    Ensures (curveEpisode lm md p env actions) Streamed := by
  induction actions using List.reverseRecOn with
  | nil =>
    refine Ensures.bind (P := fun e => ∃ o, e.agent = .initial o) ?_ fun e he => ?_
    · exact Ensures.self.bind fun _ _ => Ensures.pure ⟨_, rfl⟩
    · obtain ⟨o, ho⟩ := he
      refine Ensures.pure ?_
      rw [Streamed, ho]
      exact streamed_initial o
  | append_singleton before a ih =>
    rw [curveEpisode_concat]
    exact ih.bind fun s hs => curveStep_streamed hs a

/-- What is logged is the maximum drawdown of the equities of the episode that ends. -/
lemma LogsDrawdown.isMaxDrawdown {path : List ℚ} {d : ℚ} (h : LogsDrawdown lm md p path d) :
    IsMaxDrawdown (initialCash :: path) d := by
  obtain ⟨env, before, action, e, e', curve, m, hcurve, hstep, hm, hdone, rfl, rfl⟩ := h
  have hstreams := curveStep_streams (curveEpisode_streamed env before _ hcurve) hstep
  obtain ⟨m', hm', hlargest⟩ := hstreams.ended hdone
  rw [hm] at hm'
  cases hm'
  exact hlargest

/-- **The streaming drawdown of a run.** Every step of every run, after any number of auto-resets,
keeps and logs the maximum drawdown of the equities of its own episode. Two episodes with the same
equities log the same drawdown, whatever came before them. -/
theorem drawdown_streams (lm : Libm) (md : MarketData) (p : Params) :
    (∀ env before action e e', episode lm md p env before = .ok e →
      cStep lm md p e action = .ok e' →
        ∃ curve, curveEpisode lm md p env before = .ok (e, curve) ∧
          StreamsDrawdown md p curve e action e') ∧
    ∀ path d d', LogsDrawdown lm md p path d → LogsDrawdown lm md p path d' → d = d' := by
  constructor
  · intro env before action e e' hrun hstep
    obtain ⟨curve, hcurve⟩ := curveEpisode_of_episode before hrun
    exact ⟨curve, hcurve, curveStep_streams (curveEpisode_streamed env before _ hcurve) hstep⟩
  · intro path d d' hd hd'
    exact hd.isMaxDrawdown.unique hd'.isMaxDrawdown

/-- A long through a fall and a partial recovery, to the end of its second episode. -/
theorem drawdown_streams_second_episode :
    let md := wideMarket 4 fun t => if t = 1 then 50 else 100
    let p := { keelEnvCreate with feeRate := 0, forcedOffset := 0 }
    ∃ e e' curve, episode .firstOrder md p (.zero 7) [0, 0, 0, 1, 1] = .ok e ∧
      cStep .firstOrder md p e 1 = .ok e' ∧ e'.terminal = true ∧
      e'.log.maxDrawdown - e.log.maxDrawdown = 1 / 2 ∧
      curveEpisode .firstOrder md p (.zero 7) [0, 0, 0, 1, 1] = .ok (e, curve) ∧
      StreamsDrawdown md p curve e 1 e' := by
  intro md p
  obtain ⟨e, hrun, he⟩ := exists_of_toOption
    (x := episode .firstOrder md p (.zero 7) [0, 0, 0, 1, 1])
    (P := fun e => ((cStep .firstOrder md p e 1).toOption.map fun e' =>
      e'.terminal && decide (e'.log.maxDrawdown - e.log.maxDrawdown = 1 / 2)) = some true)
    (by decide +kernel)
  obtain ⟨e', hstep, he'⟩ := exists_of_toOption (of_decide_eq_true he)
  rw [Bool.and_eq_true, decide_eq_true_eq] at he'
  obtain ⟨curve, hcurve, hstreams⟩ :=
    (drawdown_streams .firstOrder md p).1 (.zero 7) [0, 0, 0, 1, 1] 1 e e' hrun hstep
  exact ⟨e, e', curve, hrun, hstep, he'.1, he'.2, hcurve, hstreams⟩

end KeelTrader.Sim
