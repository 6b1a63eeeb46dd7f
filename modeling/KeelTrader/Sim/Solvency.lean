import KeelTrader.Sim.Drawdown

set_option relaxedAutoImplicit false
set_option autoImplicit false

/-!
# Solvency of unlevered long-only accounts

An agent that only ever buys, with at most its own cash, owes nothing: its cash and its equity are
never negative, and no episode loses more than everything.

## Main definitions

* `KeelTrader.Sim.MarketData.NonnegPrices` — the market.
* `KeelTrader.Sim.NoShortAction` — an action that is no short.
* `KeelTrader.Sim.Unlevered` — the invariant: no debt and no short.
* `KeelTrader.Sim.Solvent` — the cash and the equity at every row are not negative.
* `KeelTrader.Sim.SolventStep` — a step that is solvent throughout.

## Main results

* `KeelTrader.Sim.unleveredInvariant` — the operations on a position keep the invariant.
* `KeelTrader.Sim.bookedStep_unlevered`, `cStep_unlevered` — so do the mark and the step.
* `KeelTrader.Sim.everyStep_solvent` — every step of every run is solvent throughout.
-/

namespace KeelTrader.Sim

open Checked

/-- No price of the data is negative. -/
def MarketData.NonnegPrices (md : MarketData) : Prop :=
  ∀ t s k, t < md.numTimesteps → s < md.numSymbols → k ≠ .pVol → 0 ≤ md.prices t s k

/-- The action is `0`, a long or no action of the action space at all. -/
def NoShortAction (p : Params) (numSymbols : ℕ) (action : ℤ) : Prop :=
  action ≤ p.sideBlock numSymbols ∨ 2 * p.sideBlock numSymbols < action

instance (p : Params) (numSymbols : ℕ) (action : ℤ) :
    Decidable (NoShortAction p numSymbols action) := inferInstanceAs (Decidable (_ ∨ _))

/-- The agent has no debt and no short. -/
structure Unlevered (md : MarketData) (ag : AgentState) : Prop where
  cash : 0 ≤ ag.cash
  qty : 0 ≤ ag.positionQty
  long : ag.positionSym < md.numSymbols

/-- The cash of the agent and its equity at every row are not negative. -/
structure Solvent (md : MarketData) (ag : AgentState) : Prop where
  cash : 0 ≤ ag.cash
  equity : ∀ t e, computeEquity md t ag = .ok e → 0 ≤ e

/-- The agent is solvent before the step, after the forced close, between the two legs of a switch,
after the trading of the bar, when it is marked, after the final close and after the step; the
valuations of the step are not negative, and an episode that ends loses at most everything. -/
structure SolventStep (md : MarketData) (p : Params) (env : EnvState) (action : ℤ)
    (env' : EnvState) : Prop where
  found : Solvent md env.agent
  forced : ∀ r, forceClose md p (tradeRow md env.agent) env.agent = .ok r → Solvent md r.1 ∧
    ∀ r', closePosition md p (tradeRow md env.agent) r.1 = .ok r' → Solvent md r'.1
  executed : ∀ x, executeBar md p env.agent env.rng action = .ok x →
    Solvent md x.agent ∧ 0 ≤ x.equityBefore
  marked : ∀ m, markedStep md p env action = .ok m → Solvent md m.agent ∧ 0 ≤ m.equityAfter
  settled : ∀ m, markedStep md p env action = .ok m →
    ∀ r, finalClose md p m.tNew { m.agent with prevRet := m.ret } = .ok r →
      Solvent md r.1 ∧ 0 ≤ r.2
  left : Solvent md env'.agent
  logged : env'.terminal = true → -1 ≤ env'.log.totalReturn - env.log.totalReturn

variable {lm : Libm} {md : MarketData} {p : Params} {t : ℤ} {ag : AgentState}
  {env env' : EnvState} {action : ℤ}

/-- A fresh agent has its initial cash. -/
lemma unlevered_initial (dataOffset : ℤ) : Unlevered md (.initial dataOffset) := by
  refine ⟨?_, le_rfl, ?_⟩
  · norm_num [AgentState.initial, initialCash]
  · simp only [AgentState.initial]
    omega

/-! ## Valuations -/

/-- A price that was read is not negative. -/
lemma MarketData.NonnegPrices.getPrice (hprices : md.NonnegPrices) {s : ℤ} {k : PriceFeat}
    (hk : k ≠ .pVol) {price : ℚ} (h : getPrice md t s k = .ok price) : 0 ≤ price := by
  obtain ⟨hrow, hsym, rfl⟩ := getPrice_eq_ok h
  exact hprices _ _ k hrow hsym hk

/-- Without debt and shorts, the equity is at least the cash. -/
lemma Unlevered.solvent (hprices : md.NonnegPrices) (h : Unlevered md ag) : Solvent md ag := by
  refine ⟨h.cash, fun t e he => ?_⟩
  unfold computeEquity at he
  split at he
  · obtain ⟨sym, -, he⟩ := bind_eq_ok.mp he
    obtain ⟨price, hprice, he⟩ := bind_eq_ok.mp he
    rw [if_neg (not_le.mpr h.long)] at he
    rw [← pure_eq_ok.mp he]
    have hvalue : 0 ≤ ag.positionQty * price :=
      mul_nonneg h.qty (hprices.getPrice (by decide) hprice)
    exact add_nonneg h.cash hvalue
  · rw [← pure_eq_ok.mp he]
    exact h.cash

/-- Nothing is borrowed, so nothing is charged for it. -/
lemma Unlevered.borrowFee_eq (hlev : p.maxLeverage ≤ 1) (h : Unlevered md ag) {fee : ℚ}
    (hfee : borrowFee md p t ag = .ok fee) : fee = 0 := by
  unfold borrowFee at hfee
  split at hfee
  · exact (pure_eq_ok.mp hfee).symm
  · obtain ⟨sym, -, hfee⟩ := bind_eq_ok.mp hfee
    obtain ⟨price, -, hfee⟩ := bind_eq_ok.mp hfee
    split at hfee
    · exact (pure_eq_ok.mp hfee).symm
    · rw [if_neg (not_le.mpr h.long), if_neg (not_lt.mpr hlev)] at hfee
      exact (pure_eq_ok.mp hfee).symm

/-! ## Trading -/

/-- An action that is no short asks for longs only. -/
lemma NoShortAction.onSide (h : NoShortAction p md.numSymbols action) :
    OnSide p md.numSymbols (· = false) action := by
  intro isShort sym allocIdx levelIdx hd
  unfold decodeAction at hd
  change (if action = 0 then _ else if action ≥ 1 ∧ action ≤ 2 * p.sideBlock md.numSymbols
    then _ else _) = _ at hd
  split at hd
  · cases hd
  · split at hd
    · next hside =>
      obtain ⟨_, -, hd⟩ := bind_eq_ok.mp hd
      obtain ⟨_, -, hd⟩ := bind_eq_ok.mp hd
      obtain ⟨_, -, hd⟩ := bind_eq_ok.mp hd
      obtain ⟨_, -, hd⟩ := bind_eq_ok.mp hd
      cases pure_eq_ok.mp hd
      show decide (action - 1 ≥ p.sideBlock md.numSymbols) = false
      have hle : action ≤ p.sideBlock md.numSymbols := by
        rcases h with hle | hgt
        · exact hle
        · exact absurd hside.2 (not_le.mpr hgt)
      simp only [ge_iff_le, decide_eq_false_iff_not, not_le]
      omega
    · cases hd

/-- The share of the cash that an unlevered order spends is at most the whole. -/
lemma budget_le_cash {cash alloc : ℚ} (hlev : p.maxLeverage ≤ 1) (hcash : 0 < cash)
    (halloc : 0 < alloc) : cash * p.maxLeverage * clampAllocation alloc ≤ cash := by
  have hclamp : 0 ≤ clampAllocation alloc ∧ clampAllocation alloc ≤ 1 := by
    unfold clampAllocation
    split
    · exact ⟨zero_le_one, le_rfl⟩
    · next hle => exact ⟨halloc.le, not_lt.mp hle⟩
  have hshare : p.maxLeverage * clampAllocation alloc ≤ 1 :=
    (mul_le_mul_of_nonneg_right hlev hclamp.1).trans (by linarith [hclamp.2])
  calc cash * p.maxLeverage * clampAllocation alloc
      = cash * (p.maxLeverage * clampAllocation alloc) := mul_assoc _ _ _
    _ ≤ cash * 1 := mul_le_mul_of_nonneg_left hshare hcash.le
    _ = cash := mul_one _

/-- **Operations.** Without leverage, buying and selling incurs no debt: an order costs at most the
cash, and an exit pays. -/
theorem unleveredInvariant (hlev : p.maxLeverage ≤ 1) (hcost : p.feeRate + p.slippage ≤ 1)
    (hprices : md.NonnegPrices) : SideInvariant md p (· = false) (Unlevered md) where
  hold _ _ h := ⟨h.cash, h.qty, h.long⟩
  closed t ag ag' hclose h := by
    obtain ⟨hpos, sym, price, -, hprice, rfl⟩ := closedAt_of_close hclose
    have hlong : decide (ag.positionSym ≥ md.numSymbols) = false :=
      decide_eq_false (not_le.mpr h.long)
    rw [hlong]
    refine ⟨?_, le_rfl, ?_⟩
    · show 0 ≤ ag.cash + ag.positionQty * price * (1 - (p.feeRate + p.slippage))
      have hvalue : 0 ≤ ag.positionQty * price :=
        mul_nonneg h.qty (hprices.getPrice (by decide) hprice)
      exact add_nonneg h.cash (mul_nonneg hvalue (sub_nonneg.mpr hcost))
    · show (-1 : ℤ) < md.numSymbols
      omega
  opened t isShort sym alloc level ag ag' hside _ hsym hopen h := by
    rcases openTarget_cases hopen with rfl | ⟨f, q, hsized, rfl⟩
    · exact h
    · obtain ⟨hcash, hqty, -, halloc, hbudget, -⟩ := sizedFill_spec hsized
      subst hside
      refine ⟨?_, hqty.le, hsym.2⟩
      show 0 ≤ ag.cash - q * (f * (1 + p.feeRate))
      rw [hbudget, sub_nonneg]
      exact budget_le_cash hlev hcash halloc

/-! ## Steps -/

/-- The mark leaves the initial equity alone. -/
lemma markedStep_initial {m : Marked} (hm : markedStep md p env action = .ok m) :
    m.agent.initialEquity = env.agent.initialEquity := by
  obtain ⟨booked, hbooked, -, hagent⟩ := markedStep_books hm
  rw [hagent]
  exact (bookedStep_record _ hbooked).1

section Steps

variable (hlev : p.maxLeverage ≤ 1) (hcost : p.feeRate + p.slippage ≤ 1)
  (hprices : md.NonnegPrices) (haction : NoShortAction p md.numSymbols action)

include hlev hcost hprices haction

/-- The trading of a bar and the borrow fee incur no debt. -/
lemma bookedStep_unlevered (h : Unlevered md env.agent) :
    Ensures (bookedStep md p env action) fun b => Unlevered md b.1 := by
  unfold bookedStep
  refine ((unleveredInvariant hlev hcost hprices).executeBar haction.onSide env.rng h).bind
    fun x hx => ?_
  have htick : Unlevered md x.agent.tick := ⟨hx.cash, hx.qty, hx.long⟩
  refine Ensures.self.bind fun fee hfee => Ensures.pure ?_
  rw [htick.borrowFee_eq hlev hfee]
  exact ⟨by simpa [AgentState.charge] using htick.cash, htick.qty, htick.long⟩

/-- Nor does the mark. -/
lemma markedStep_unlevered (h : Unlevered md env.agent) :
    Ensures (markedStep md p env action) fun m => Unlevered md m.agent := by
  intro m hm
  obtain ⟨booked, hbooked, -, hagent⟩ := markedStep_books hm
  have hunlevered := bookedStep_unlevered hlev hcost hprices haction h _ hbooked
  rw [hagent]
  exact ⟨hunlevered.cash, hunlevered.qty, hunlevered.long⟩

/-- **Steps.** A step that is no short incurs no debt. -/
theorem cStep_unlevered (h : Unlevered md env.agent) :
    Ensures (cStep lm md p env action) fun env' => Unlevered md env'.agent := by
  intro env' hstep
  obtain ⟨m, hm, ⟨-, o, hagent⟩ | ⟨-, hagent⟩⟩ := cStep_marked hstep
  · rw [hagent]
    exact unlevered_initial o
  · have hmarked := markedStep_unlevered hlev hcost hprices haction h m hm
    rw [hagent]
    exact ⟨hmarked.cash, hmarked.qty, hmarked.long⟩

/-- The trading of a bar is solvent, and marks an equity that is not negative before it opens. -/
lemma executeBar_solvent (h : Unlevered md env.agent) :
    Ensures (executeBar md p env.agent env.rng action) fun x =>
      Solvent md x.agent ∧ 0 ≤ x.equityBefore := by
  have hI := unleveredInvariant hlev hcost hprices
  intro x hx
  refine ⟨(hI.executeBar haction.onSide env.rng h x hx).solvent hprices, ?_⟩
  obtain ⟨r, hr, hx⟩ := bind_eq_ok.mp hx
  obtain ⟨_, -, hx⟩ := bind_eq_ok.mp hx
  obtain ⟨_, -, hx⟩ := bind_eq_ok.mp hx
  obtain ⟨equity, hequity, hx⟩ := bind_eq_ok.mp hx
  obtain ⟨r', -, hx⟩ := bind_eq_ok.mp hx
  rw [← pure_eq_ok.mp hx]
  exact ((hI.forceClose h r hr).solvent hprices).equity _ _ hequity

/-- So is the mark of a bar, with the equity that it computes. -/
lemma markedStep_solvent (h : Unlevered md env.agent) :
    Ensures (markedStep md p env action) fun m => Solvent md m.agent ∧ 0 ≤ m.equityAfter := by
  intro m hm
  refine ⟨(markedStep_unlevered hlev hcost hprices haction h m hm).solvent hprices, ?_⟩
  obtain ⟨x, hx, hm⟩ := bind_eq_ok.mp hm
  have htraded :=
    (unleveredInvariant hlev hcost hprices).executeBar haction.onSide env.rng h x hx
  have htick : Unlevered md x.agent.tick := ⟨htraded.cash, htraded.qty, htraded.long⟩
  obtain ⟨equity, hequity, hm⟩ := bind_eq_ok.mp hm
  obtain ⟨fee, hfee, hm⟩ := bind_eq_ok.mp hm
  obtain ⟨ret, -, hm⟩ := bind_eq_ok.mp hm
  obtain ⟨r, -, hm⟩ := bind_eq_ok.mp hm
  rw [← pure_eq_ok.mp hm, htick.borrowFee_eq hlev hfee]
  show 0 ≤ if (0 : ℚ) > 0 then equity - 0 else equity
  rw [if_neg (lt_irrefl _)]
  exact (htick.solvent hprices).equity _ _ hequity

omit haction in
/-- An episode settles at the cash, or at the equity when the guard refused the close. -/
lemma finalClose_solvent (h : Unlevered md ag) :
    Ensures (finalClose md p t ag) fun r => Solvent md r.1 ∧ 0 ≤ r.2 := by
  intro r hr
  have hclosed :=
    ((unleveredInvariant hlev hcost hprices).finalClose h r hr).solvent hprices
  refine ⟨hclosed, ?_⟩
  unfold finalClose at hr
  split at hr
  · obtain ⟨⟨ag', closed⟩, -, hr⟩ := bind_eq_ok.mp hr
    dsimp only at hr
    split at hr
    · cases pure_eq_ok.mp hr
      exact hclosed.cash
    · obtain ⟨e, he, hr⟩ := bind_eq_ok.mp hr
      cases pure_eq_ok.mp hr
      exact hclosed.equity _ _ he
  · cases pure_eq_ok.mp hr
    exact hclosed.cash

/-- **Solvent steps.** A step that is no short is solvent throughout. -/
theorem cStep_solvent (h : Unlevered md env.agent)
    (hinitial : env.agent.initialEquity = initialCash)
    (hstep : cStep lm md p env action = .ok env') : SolventStep md p env action env' := by
  have hI := unleveredInvariant hlev hcost hprices
  have hsettled : ∀ m, markedStep md p env action = .ok m →
      ∀ r, finalClose md p m.tNew { m.agent with prevRet := m.ret } = .ok r →
        Solvent md r.1 ∧ 0 ≤ r.2 := by
    intro m hm
    have hmarked := markedStep_unlevered hlev hcost hprices haction h m hm
    exact finalClose_solvent hlev hcost hprices ⟨hmarked.cash, hmarked.qty, hmarked.long⟩
  refine ⟨h.solvent hprices, fun r hr => ?_, executeBar_solvent hlev hcost hprices haction h,
    markedStep_solvent hlev hcost hprices haction h, hsettled,
    (cStep_unlevered hlev hcost hprices haction h env' hstep).solvent hprices, fun hdone => ?_⟩
  · have hforced := hI.forceClose h r hr
    exact ⟨hforced.solvent hprices,
      fun r' hr' => (hI.closePosition hforced r' hr').1.solvent hprices⟩
  · obtain ⟨m, hm, -⟩ := cStep_marked hstep
    obtain ⟨r, hr, hlogged⟩ := cStep_logs hm hstep hdone
    have hinit : r.1.initialEquity = initialCash :=
      (finalClose_record r hr).initial.trans ((markedStep_initial hm).trans hinitial)
    have hcash : 0 < initialCash := by norm_num [initialCash]
    rw [hlogged.totalReturn, hinit, add_sub_cancel_left, le_div_iff₀ hcash]
    linarith [(hsettled m hm r hr).2]

end Steps

/-- **Solvency of a run.** On prices that are not negative, without leverage and with exit costs of
at most everything, every step of every run without shorts is solvent throughout. -/
theorem everyStep_solvent (lm : Libm) (env : EnvState) (actions : List ℤ)
    (hlev : p.maxLeverage ≤ 1) (hcost : p.feeRate + p.slippage ≤ 1) (hprices : md.NonnegPrices)
    (hactions : ∀ a ∈ actions, NoShortAction p md.numSymbols a) :
    EveryStep lm md p env actions (SolventStep md p) := by
  refine everyStep_of_mem
    (I := fun e => Unlevered md e.agent ∧ e.agent.initialEquity = initialCash)
    (fun _ => ?_) (fun e a ha he => ?_) (fun e a ha e' he hstep => ?_) env
  · exact Ensures.self.bind fun _ _ => Ensures.pure ⟨unlevered_initial _, rfl⟩
  · intro e' hstep
    refine ⟨cStep_unlevered hlev hcost hprices (hactions a ha) he.1 e' hstep, ?_⟩
    obtain ⟨m, hm, ⟨-, o, hagent⟩ | ⟨-, hagent⟩⟩ := cStep_marked hstep
    · rw [hagent]
      rfl
    · rw [hagent]
      exact (markedStep_initial hm).trans he.2
  · exact cStep_solvent hlev hcost hprices (hactions a ha) he.1 he.2 hstep

/-- A long that is held through a crash to the end of its episode. -/
theorem everyStep_solvent_crash :
    let md := wideMarket 4 fun t => if t < 2 then 100 else 10
    let p := { keelEnvCreate with forcedOffset := 0 }
    (∃ env', episode .firstOrder md p (.zero 7) [1, 1, 1] = .ok env' ∧ env'.terminal = true ∧
      env'.log.totalReturn < -9 / 10) ∧
    EveryStep .firstOrder md p (.zero 7) [1, 1, 1] (SolventStep md p) := by
  intro md p
  have hprices : md.NonnegPrices := by
    intro t s k _ _ hk
    have hprice : (10 : ℚ) ≤ if t < 2 then 100 else 10 := by split <;> norm_num
    cases k with
    | pVol => exact absurd rfl hk
    | pHigh =>
      show (0 : ℚ) ≤ (if t < 2 then 100 else 10) + 10
      linarith
    | pLow =>
      show (0 : ℚ) ≤ (if t < 2 then 100 else 10) - 10
      linarith
    | pOpen | pClose => exact le_trans (by norm_num) hprice
  refine ⟨?_, everyStep_solvent .firstOrder (.zero 7) [1, 1, 1] (by decide +kernel)
    (by decide +kernel) hprices (by decide +kernel)⟩
  obtain ⟨env', hrun, hlost⟩ := exists_of_toOption
    (x := episode .firstOrder md p (.zero 7) [1, 1, 1])
    (P := fun env => env.terminal && decide (env.log.totalReturn < -9 / 10)) (by decide +kernel)
  rw [Bool.and_eq_true, decide_eq_true_eq] at hlost
  exact ⟨env', hrun, hlost⟩

end KeelTrader.Sim
