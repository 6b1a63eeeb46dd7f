import KeelTrader.Sim.FirstEntry
import KeelTrader.Sim.NoLookahead

set_option relaxedAutoImplicit false
set_option autoImplicit false

/-!
# What the borrow fee reveals

An observation values the position at lagged closes, but it shows the cash as it is, and the borrow
fee is taken from the cash at the close of the bar that the clock has just reached. So the cash that
is shown before bar `τ` is traded depends on the close of row `τ`.

## Main definitions

* `KeelTrader.Sim.Underway` — an episode that is still running after a list of actions.
* `KeelTrader.Sim.cashShown` — the cash component of an observation.
* `KeelTrader.Sim.SameCharge` — two closes that are charged alike.

## Main results

* `KeelTrader.Sim.underway_rel` — on data that agree below the clock, everything but the last
  borrow fee is the same.
* `KeelTrader.Sim.cashShown_eq_iff` — for a short or a leveraged long, the cash shown at clock `τ`
  is the same on such data exactly when the closes of row `τ` are charged alike.
-/

namespace KeelTrader.Sim

open Checked

/-! ## Running episodes -/

/-- The episode that a reset of `env` begins is still running after the actions, in the given
state. -/
inductive Underway (lm : Libm) (md : MarketData) (p : Params) (env : EnvState) :
    List ℤ → EnvState → Prop
  /-- The reset. -/
  | reset {e : EnvState} (h : cReset md p env = .ok e) : Underway lm md p env [] e
  /-- One more step, which does not end the episode. -/
  | step {actions : List ℤ} {a : ℤ} {e e' : EnvState} (h : Underway lm md p env actions e)
      (hstep : cStep lm md p e a = .ok e') (hlive : e'.terminal = false) :
      Underway lm md p env (actions ++ [a]) e'

/-- The clock that an observation is emitted at. -/
def EnvState.clock (env : EnvState) : ℤ := env.agent.dataOffset + env.agent.step

/-- The cash component of the observation: `observations[S * F]`. -/
def cashShown (md : MarketData) (env : EnvState) : Option ℚ :=
  env.observations[md.numSymbols * md.featuresPerSym]?

/-- The closes are equal, or neither of them is positive. -/
def SameCharge (c c' : ℚ) : Prop := c = c' ∨ c ≤ 0 ∧ c' ≤ 0

instance (c c' : ℚ) : Decidable (SameCharge c c') :=
  inferInstanceAs (Decidable (_ ∨ _))

variable {lm : Libm} {md md₁ md₂ : MarketData} {p : Params} {env env₁ env₂ : EnvState}
  {actions : List ℤ} {e e' e₁ e₂ : EnvState} {o n t : ℤ}

namespace Underway

/-- A run without a step is a reset. -/
lemma of_nil (h : Underway lm md p env [] e) : cReset md p env = .ok e := by
  generalize hl : ([] : List ℤ) = l at h
  cases h with
  | reset h => exact h
  | step => simp at hl

/-- A longer run is a step after a shorter one. -/
lemma of_concat {a : ℤ} (h : Underway lm md p env (actions ++ [a]) e') :
    ∃ e, Underway lm md p env actions e ∧ cStep lm md p e a = .ok e' ∧ e'.terminal = false := by
  generalize hl : actions ++ [a] = l at h
  cases h with
  | reset => simp at hl
  | step h hstep hlive =>
    obtain ⟨rfl, hlast⟩ := List.append_inj' hl rfl
    cases hlast
    exact ⟨_, h, hstep, hlive⟩

/-- A run that is underway has rows, and holds nothing or a positive quantity. -/
lemma sized (h : Underway lm md p env actions e) : 0 < md.numTimesteps ∧ e.agent.Sized := by
  induction h with
  | reset h =>
    obtain ⟨hT, o, n, -, -, hagent⟩ := waitingEnv_reset _ _ h
    rw [hagent]
    exact ⟨hT, .inl (not_le.mp waited_flat)⟩
  | step _ hstep hlive ih =>
    refine ⟨ih.1, ?_⟩
    obtain ⟨x, m, obs, hx, hm, -, hagent, -⟩ := cStep_eq_ok hstep hlive
    have hmarked := ((executeBar_trace _ _ _ hx).trans (markToMarket_trace _ _ hm)).sized ih.2
    rw [hagent]
    exact hmarked

end Underway

/-! ## The books of two runs -/

/-- A clock that was not clamped to the last row. -/
lemma clampRow_of_lt (h : clampRow md t < md.numTimesteps - 1) :
    clampRow md t = t ∧ t < md.numTimesteps := by
  unfold clampRow at h ⊢
  by_cases hpast : t ≥ md.numTimesteps
  · rw [if_pos hpast] at h
    exact absurd h (lt_irrefl _)
  · rw [if_neg hpast]
    exact ⟨rfl, not_le.mp hpast⟩

/-- A step that goes on has marked the agent at the row the clock has reached, which is not the
last one. -/
lemma tNew_of_live {x : Executed} {m : Marked} {a : ℤ}
    (hx : executeBar md p e.agent e.rng a = .ok x) (hm : markToMarket md p x = .ok m)
    (h : cStep lm md p e a = .ok e') (hlive : e'.terminal = false) :
    tradeRow md x.agent.tick = x.agent.dataOffset + x.agent.step + 1 ∧
      x.agent.dataOffset + x.agent.step + 1 < md.numTimesteps := by
  have hends := cStep_ends hx hm h
  rw [hlive] at hends
  obtain ⟨earlyExit, -, hends⟩ := bind_eq_ok.mp hends
  have hdone : isDone md p m earlyExit = false := pure_eq_ok.mp hends
  simp only [isDone, Bool.or_eq_false_iff, decide_eq_false_iff_not, not_le] at hdone
  obtain ⟨-, -, -, -, hrow, -⟩ := markToMarket_eq_ok hm
  rw [add_assoc]
  have hlt := hdone.1.1.2
  rw [hrow] at hlt
  exact clampRow_of_lt hlt

/-- **Runs.** On data that agree up to the clock, two runs of the same actions have the same
book and the same generator. -/
theorem underway_rel (hrng : env₁.rng = env₂.rng) {featTo priceTo : ℤ}
    (hA : Agree md₁ md₂ featTo priceTo) (h₁ : Underway lm md₁ p env₁ actions e₁)
    (h₂ : Underway lm md₂ p env₂ actions e₂)
    (hrow : (startOffset md₁ p env₁.rng).1 + actions.length ≤ priceTo) :
    SameBook (startOffset md₁ p env₁.rng).1 actions.length e₁.agent e₂.agent ∧
      e₁.rng = e₂.rng := by
  have hoff := startOffset_nonneg md₁ p env₁.rng
  induction h₁ generalizing e₂ with
  | reset h₁ =>
    have hstart : startOffset md₂ p env₂.rng = startOffset md₁ p env₁.rng := by
      simp only [startOffset, hA.timesteps, hrng]
    have h₂ := h₂.of_nil
    simp only [cReset, resetAgentState, hstart] at h₁ h₂
    obtain ⟨obs, -, h₁⟩ := bind_eq_ok.mp h₁
    obtain ⟨obs', -, h₂⟩ := bind_eq_ok.mp h₂
    rw [← pure_eq_ok.mp h₁, ← pure_eq_ok.mp h₂]
    exact ⟨⟨rfl, rfl, rfl, rfl, rfl, rfl, rfl, rfl, rfl⟩, rfl⟩
  | @step actions a e e' hrun hstep hlive ih =>
    obtain ⟨f, hrun₂, hstep₂, hlive₂⟩ := h₂.of_concat
    rw [List.length_append, List.length_singleton] at hrow ⊢
    push_cast at hrow ⊢
    obtain ⟨hbook, hrng'⟩ := ih hrun₂ (by omega)
    obtain ⟨x, m, -, hx, hm, -, hagent, hxrng, -⟩ := cStep_eq_ok hstep hlive
    obtain ⟨y, m', -, hy, hm', -, hagent₂, hyrng, -⟩ := cStep_eq_ok hstep₂ hlive₂
    rw [← hrng'] at hy
    obtain ⟨hxy, hrng''⟩ := executeBar_rel hA hrun.sized.1 (by omega) (by omega) e.rng a hbook
      x y hx hy
    have hrows : tradeRow md₂ y.agent.tick = tradeRow md₁ x.agent.tick := by
      simp only [tradeRow, clampRow, AgentState.tick, hA.timesteps, hxy.offset_left,
        hxy.offset_right, hxy.step_left, hxy.step_right]
    have hticked : SameBook _ _ x.agent.tick y.agent.tick :=
      { hxy with
        step_left := congrArg (· + 1) hxy.step_left
        step_right := congrArg (· + 1) hxy.step_right }
    have hreached : tradeRow md₁ x.agent.tick ≤ priceTo := by
      rw [(tNew_of_live hx hm hstep hlive).1, hxy.offset_left, hxy.step_left]
      omega
    have hfee : Rel Eq (borrowFee md₁ p (tradeRow md₁ x.agent.tick) x.agent.tick)
        (borrowFee md₂ p (tradeRow md₂ y.agent.tick) y.agent.tick) := by
      rw [hrows]
      exact borrowFee_rel hA hreached hticked
    have hmarked := markToMarket_rel hxy hfee m m' hm hm'
    rw [hagent, hagent₂, hxrng, hyrng]
    exact ⟨{ hmarked with }, hrng''⟩

/-- The clock of a run that is underway counts its actions. -/
lemma Underway.clock_eq (h : Underway lm md p env actions e) :
    e.clock = (startOffset md p env.rng).1 + actions.length := by
  have hself := (underway_rel rfl (Agree.refl md 0 _) h h le_rfl).1
  rw [EnvState.clock, hself.offset_left, hself.step_left]

/-! ## The cash that is shown -/

/-- The cash after the borrow fee of a position that is charged at `rate` of its value at the
close. -/
def AgentState.chargedCash (ag : AgentState) (rate close : ℚ) : ℚ :=
  ag.cash - if close ≤ 0 then 0 else ag.positionQty * close * rate

/-- What is left of the cash tells the closes apart, unless they are charged alike. -/
lemma chargedCash_eq_iff {ag : AgentState} {rate c c' : ℚ} (hqty : 0 < ag.positionQty)
    (hrate : 0 < rate) : ag.chargedCash rate c = ag.chargedCash rate c' ↔ SameCharge c c' := by
  have hfee : ∀ close, 0 < close → 0 < ag.positionQty * close * rate :=
    fun close hclose => mul_pos (mul_pos hqty hclose) hrate
  unfold AgentState.chargedCash SameCharge
  rw [sub_right_inj]
  rcases le_or_gt c 0 with hc | hc <;> rcases le_or_gt c' 0 with hc' | hc'
  · rw [if_pos hc, if_pos hc']
    exact iff_of_true rfl (.inr ⟨hc, hc'⟩)
  · rw [if_pos hc, if_neg (not_le.mpr hc')]
    exact iff_of_false (hfee c' hc').ne fun h => h.elim (fun h => by linarith) fun h => by linarith
  · rw [if_neg (not_le.mpr hc), if_pos hc']
    exact iff_of_false (hfee c hc).ne' fun h => h.elim (fun h => by linarith) fun h => by linarith
  · rw [if_neg (not_le.mpr hc), if_neg (not_le.mpr hc'), mul_left_inj' hrate.ne',
      mul_right_inj' hqty.ne']
    exact ⟨.inl, fun h => h.resolve_right fun h => by linarith⟩

/-- A short pays the fee, and so does a long that borrows. -/
lemma borrowRate_pos {isShort : Bool} (hapr : 0 < p.shortBorrowApr)
    (hborrows : isShort = true ∨ 1 < p.maxLeverage) : 0 < p.borrowRate isShort := by
  have hppy := ppy_pos (p := p)
  unfold Params.borrowRate
  rw [if_neg (not_le.mpr hapr)]
  split_ifs with hside hlev
  · exact div_pos hapr hppy
  · have hinverse : 1 / p.maxLeverage < 1 := (div_lt_one (by linarith)).mpr hlev
    exact div_pos (mul_pos (by linarith) hapr) hppy
  · exact absurd (hborrows.resolve_left hside) hlev

/-- An observation shows the cash of its agent. -/
lemma cash_of_fillObservations {ag : AgentState} {obs : List ℚ}
    (h : fillObservations md p ag = .ok obs) :
    obs[md.numSymbols * md.featuresPerSym]? = some (ag.cash / initialCash) := by
  obtain ⟨feats, hfeats, h⟩ := bind_eq_ok.mp h
  obtain ⟨value, -, h⟩ := bind_eq_ok.mp h
  obtain ⟨hours, -, h⟩ := bind_eq_ok.mp h
  obtain ⟨progress, -, h⟩ := bind_eq_ok.mp h
  obtain ⟨row, -, hfeats⟩ := bind_eq_ok.mp hfeats
  have hlength : feats.length = md.numSymbols * md.featuresPerSym := by
    rw [← pure_eq_ok.mp hfeats]
    simp [List.length_flatMap]
  rw [← pure_eq_ok.mp h, List.append_assoc, ← hlength, List.getElem?_append_right le_rfl,
    Nat.sub_self]
  rfl

/-- **The last fee.** A step that goes on with a position shows the cash of the agent that has
traded, less the borrow fee at the close of the row that the clock has reached. -/
lemma Underway.cashShown_of_step {a : ℤ} {isShort : Bool} {sym : ℤ} {x : Executed}
    (h : Underway lm md p env actions e) (hx : executeBar md p e.agent e.rng a = .ok x)
    (hstep : cStep lm md p e a = .ok e') (hlive : e'.terminal = false)
    (hclock : 0 ≤ x.agent.dataOffset + x.agent.step) (hsym : 0 ≤ sym ∧ sym < md.numSymbols)
    (hpos : e'.agent.positionSym = targetPosId md.numSymbols isShort sym) :
    0 < x.agent.positionQty ∧ cashShown md e' = some (x.agent.chargedCash (p.borrowRate isShort)
      (md.prices (x.agent.dataOffset + x.agent.step + 1).toNat sym.toNat .pClose) /
        initialCash) := by
  obtain ⟨x', m, obs, hx', hm, hobs, hagent, -, hobs'⟩ := cStep_eq_ok hstep hlive
  rw [hx] at hx'
  cases hx'
  obtain ⟨hrow, hlt⟩ := tNew_of_live hx hm hstep hlive
  obtain ⟨equity, fee, -, hfee, -, -, -, hsame⟩ := markToMarket_eq_ok hm
  have hheld : x.agent.tick.positionSym = targetPosId md.numSymbols isShort sym := by
    rw [hagent] at hpos
    exact hsame.sym.symm.trans hpos
  have hqty : 0 < x.agent.positionQty := by
    have hnonneg := positionSym_nonneg hsym hheld
    exact ((executeBar_trace _ _ _ hx).sized h.sized.2).resolve_left (not_lt.mpr hnonneg)
  refine ⟨hqty, ?_⟩
  rw [hrow] at hfee
  have hpaid := borrowFee_nonneg hsym hheld ⟨by omega, hlt⟩ hqty hfee
  rw [borrowFee_held hsym hheld ⟨by omega, hlt⟩ hqty] at hfee
  have hcash : m.agent.cash = x.agent.chargedCash (p.borrowRate isShort)
      (md.prices (x.agent.dataOffset + x.agent.step + 1).toNat sym.toNat .pClose) := by
    have hcharged : (x.agent.tick.charge fee).cash = x.agent.tick.cash - fee :=
      charged_of_nonneg hpaid _
    rw [hsame.cash, hcharged, ← Except.ok.inj hfee]
    rfl
  rw [cashShown, hobs', cash_of_fillObservations hobs, ← hcash]

/-- **Borrow fees.** Two runs of the same actions, on data sets that agree on every row below the
clock `τ` of the last observation, with both episodes still running and a short or a leveraged long
in `sym` held: the last observations show the same cash exactly when the closes of `sym` at row `τ`
are equal, or neither is positive.

**Proof sketch.** Before the last fee the runs have the same book (`underway_rel`,
`executeBar_rel`). The last fee is a positive multiple of the close at row `τ`
(`Underway.cashShown_of_step`), or zero when that close is not positive. -/
theorem cashShown_eq_iff (lm : Libm) (md₁ md₂ : MarketData) (p : Params)
    (hapr : 0 < p.shortBorrowApr) (env₁ env₂ : EnvState) (hrng : env₁.rng = env₂.rng)
    (actions : List ℤ) (e₁ e₂ : EnvState) (h₁ : Underway lm md₁ p env₁ actions e₁)
    (h₂ : Underway lm md₂ p env₂ actions e₂)
    (hA : Agree md₁ md₂ (e₁.clock - 1) (e₁.clock - 1)) (isShort : Bool) (sym : ℤ)
    (hsym : 0 ≤ sym ∧ sym < md₁.numSymbols)
    (hheld : e₁.agent.positionSym = targetPosId md₁.numSymbols isShort sym)
    (hborrows : isShort = true ∨ 1 < p.maxLeverage) :
    cashShown md₁ e₁ = cashShown md₂ e₂ ↔
      SameCharge (md₁.prices e₁.clock.toNat sym.toNat .pClose)
        (md₂.prices e₁.clock.toNat sym.toNat .pClose) := by
  have hoff := startOffset_nonneg md₁ p env₁.rng
  have hclock := h₁.clock_eq
  cases h₁ with
  | reset h =>
    obtain ⟨-, o, n, -, -, hagent⟩ := waitingEnv_reset _ _ h
    have hpos := positionSym_nonneg hsym hheld
    rw [hagent] at hpos
    exact absurd hpos waited_flat
  | @step actions a e e' hrun hstep hlive =>
    obtain ⟨f, hrun₂, hstep₂, hlive₂⟩ := h₂.of_concat
    rw [List.length_append, List.length_singleton] at hclock
    push_cast at hclock
    obtain ⟨hbook, hrng'⟩ := underway_rel hrng hA hrun hrun₂ (by omega)
    obtain ⟨x, m, -, hx, hm, -, hagent, -⟩ := cStep_eq_ok hstep hlive
    obtain ⟨y, m', -, hy, hm', -, hagent₂, -⟩ := cStep_eq_ok hstep₂ hlive₂
    have hy' := hy
    rw [← hrng'] at hy'
    obtain ⟨hxy, -⟩ := executeBar_rel hA hrun.sized.1 (by omega) (by omega) e.rng a hbook
      x y hx hy'
    have hheld₂ : e₂.agent.positionSym = targetPosId md₂.numSymbols isShort sym := by
      have hkept := (markToMarket_position x m hm).1
      have hkept₂ := (markToMarket_position y m' hm').1
      rw [← hA.symbols, ← hheld, hagent, hagent₂]
      exact hkept₂.trans (hxy.sym.symm.trans hkept.symm)
    obtain ⟨hqty, hshown⟩ := hrun.cashShown_of_step hx hstep hlive
      (by rw [hxy.offset_left, hxy.step_left]; omega) hsym hheld
    obtain ⟨-, hshown₂⟩ := hrun₂.cashShown_of_step hy hstep₂ hlive₂
      (by rw [hxy.offset_right, hxy.step_right]; omega) (hA.symbols ▸ hsym) hheld₂
    have hreached : x.agent.dataOffset + x.agent.step + 1 = e₁.clock := by
      rw [hxy.offset_left, hxy.step_left]
      omega
    have hcharged : ∀ close, y.agent.chargedCash (p.borrowRate isShort) close =
        x.agent.chargedCash (p.borrowRate isShort) close := by
      intro close
      simp only [AgentState.chargedCash, hxy.cash, hxy.qty]
    rw [hxy.offset_left, hxy.step_left] at hreached
    rw [hshown, hshown₂, hcharged, hxy.offset_left, hxy.step_left, hxy.offset_right,
      hxy.step_right, hreached, Option.some_inj, div_left_inj' (by norm_num [initialCash]),
      chargedCash_eq_iff hqty (borrowRate_pos hapr hborrows)]

/-! ## A short with a borrow rate -/

/-- A run of one action that goes on, and passes a test. -/
lemma Underway.exists_single {a : ℤ} {P : EnvState → Bool}
    (h : (episode lm md p env [a]).toOption.map (fun e => !e.terminal && P e) = some true) :
    ∃ e, Underway lm md p env [a] e ∧ P e = true := by
  obtain ⟨e, he, htest⟩ := exists_of_toOption h
  rw [Bool.and_eq_true, Bool.not_eq_true'] at htest
  obtain ⟨e₀, hreset, hrun⟩ := bind_eq_ok.mp he
  obtain ⟨e', hstep, hrun⟩ := bind_eq_ok.mp hrun
  rw [pure_eq_ok.mp hrun] at hstep
  exact ⟨e, (Underway.reset hreset).step hstep htest.1, htest.2⟩

/-- The markets agree below a row at which their prices part. -/
lemma agree_rowMarket {numTimesteps : ℕ} {price price' : ℕ → ℚ} (row : ℕ)
    (h : ∀ t < row, price t = price' t) :
    Agree (rowMarket numTimesteps price) (rowMarket numTimesteps price') (row - 1) (row - 1) := by
  refine ⟨rfl, rfl, rfl, fun t s f ht _ _ => ?_, fun t s k ht _ => ?_, fun _ _ _ _ => rfl⟩
  · exact h t (by omega)
  · exact h t (by omega)

/-- A borrow rate of a tenth, and episodes that start at row `0`. -/
def borrowTenth : Params := { keelEnvCreate with forcedOffset := 0, shortBorrowApr := 1 / 10 }

/-- The environment at clock `1`, after a short was entered at row `0` of a market whose prices are
`price`. -/
def ShortHeld (price : ℕ → ℚ) (e : EnvState) : Prop :=
  Underway .firstOrder (rowMarket 9 price) borrowTenth (.zero 7) [2] e ∧ e.clock = 1 ∧
    e.agent.positionSym = 1

/-- The cash that such an environment shows, when there is one. -/
lemma exists_shortHeld (price : ℕ → ℚ) (cash : ℚ)
    (h : (episode .firstOrder (rowMarket 9 price) borrowTenth (.zero 7) [2]).toOption.map (fun e =>
      !e.terminal && decide (e.clock = 1 ∧ e.agent.positionSym = 1 ∧
        cashShown (rowMarket 9 price) e = some cash)) = some true) :
    ∃ e, ShortHeld price e ∧ cashShown (rowMarket 9 price) e = some cash := by
  obtain ⟨e, hrun, htest⟩ := Underway.exists_single h
  obtain ⟨hclock, hsym, hcash⟩ := of_decide_eq_true htest
  exact ⟨e, ⟨hrun, hclock, hsym⟩, hcash⟩

/-- At clock `1`, a crash at row `2` is not visible in the cash of a short. -/
theorem cashShown_eq_later :
    ∃ e₁ e₂, ShortHeld (fun _ => 100) e₁ ∧ ShortHeld (fun t => if t < 2 then 100 else 50) e₂ ∧
      cashShown (rowMarket 9 fun _ => 100) e₁ =
        cashShown (rowMarket 9 fun t => if t < 2 then 100 else 50) e₂ := by
  obtain ⟨e₁, h₁, -⟩ := exists_shortHeld (fun _ => 100) (875995 / 438438)
    (by decide +kernel)
  obtain ⟨e₂, h₂, -⟩ := exists_shortHeld (fun t => if t < 2 then 100 else 50)
    (875995 / 438438) (by decide +kernel)
  have hagree : Agree (rowMarket 9 fun _ => 100) (rowMarket 9 fun t => if t < 2 then 100 else 50)
      (e₁.clock - 1) (e₁.clock - 1) := by
    rw [h₁.2.1]
    exact (agree_rowMarket 2 fun t ht => by rw [if_pos ht]).mono (by norm_num) (by norm_num)
  refine ⟨e₁, e₂, h₁, h₂, ?_⟩
  refine (cashShown_eq_iff .firstOrder _ _ borrowTenth (by decide +kernel) (.zero 7) (.zero 7) rfl
    [2] e₁ e₂ h₁.1 h₂.1 hagree true 0 (by decide) h₁.2.2 (.inl rfl)).mpr (.inl ?_)
  rw [h₁.2.1]
  rfl

/-- At clock `1`, a crash at row `1` is visible in the cash of a short. -/
theorem not_cashShown_eq_crash :
    0 < borrowTenth.shortBorrowApr ∧ 0 < borrowTenth.periodsPerYear ∧
    ∃ e₁ e₂, ShortHeld (fun _ => 100) e₁ ∧ ShortHeld (fun t => if t < 1 then 100 else 50) e₂ ∧
      Agree (rowMarket 9 fun _ => 100) (rowMarket 9 fun t => if t < 1 then 100 else 50)
        (e₁.clock - 1) (e₁.clock - 1) ∧
      cashShown (rowMarket 9 fun _ => 100) e₁ ≠
        cashShown (rowMarket 9 fun t => if t < 1 then 100 else 50) e₂ := by
  obtain ⟨e₁, h₁, hcash₁⟩ := exists_shortHeld (fun _ => 100) (875995 / 438438)
    (by decide +kernel)
  obtain ⟨e₂, h₂, hcash₂⟩ := exists_shortHeld (fun t => if t < 1 then 100 else 50)
    (250285 / 125268) (by decide +kernel)
  refine ⟨by decide +kernel, by decide +kernel, e₁, e₂, h₁, h₂, ?_, ?_⟩
  · rw [h₁.2.1]
    exact agree_rowMarket 1 fun t ht => by rw [if_pos ht]
  · rw [hcash₁, hcash₂]
    norm_num

end KeelTrader.Sim
