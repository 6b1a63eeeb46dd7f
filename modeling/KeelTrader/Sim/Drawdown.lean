import KeelTrader.Sim.BarBook
import KeelTrader.Sim.FirstEntry

set_option relaxedAutoImplicit false
set_option autoImplicit false

/-!
# The drawdown and the return of an episode

When the `max_drawdown` that an episode logs covers the loss that it logs. The drawdown follows
the equity at the closes, the last of them at the last row. The return is that of the final equity:
the cash after the last position was sold at the open of the last row, with the exit costs. This
sale is fed to no drawdown. Whether it matters is read off the agent before the last step, the
action, the word of the generator and the prices of the last two rows.

## Main definitions

* `KeelTrader.Sim.CoversLoss` — the drawdown added to the log covers the loss added to it.
* `KeelTrader.Sim.Tracked` — the invariant of the agent.
* `KeelTrader.Sim.AgentState.exitLoss` — what the last exit loses against the last close.
* `KeelTrader.Sim.HoldingCovered` — the condition on a position that is held over the last bar.
* `KeelTrader.Sim.EndsCovered` — the condition on the agent before the last step.
* `KeelTrader.Sim.bookedStep`, `markedStep` — a step up to its mark.

## Main results

* `KeelTrader.Sim.loss_le_drawdown_iff` — the drawdown of a mark against the loss of an exit.
* `KeelTrader.Sim.finalClose_settles` — the final equity.
* `KeelTrader.Sim.finalClose_covers_iff` — when an episode that ends with it is covered.
* `KeelTrader.Sim.coversLoss_iff` — when the episodes of a run are.
-/

namespace KeelTrader.Sim

open Checked

/-- The drawdown that was added to the log is at least the loss that was added to it. -/
def CoversLoss (log log' : Log) : Prop :=
  -(log'.totalReturn - log.totalReturn) ≤ log'.maxDrawdown - log.maxDrawdown

instance (log log' : Log) : Decidable (CoversLoss log log') := inferInstanceAs (Decidable (_ ≤ _))

/-- The agent holds nothing, or a positive quantity of a position. -/
def AgentState.Stocked (ag : AgentState) : Prop :=
  ag.positionSym < 0 ∧ ag.positionQty = 0 ∨ 0 ≤ ag.positionSym ∧ 0 < ag.positionQty

/-- An agent whose episode goes on: its equity never fell to zero. -/
structure Tracked (ag : AgentState) : Prop where
  stocked : ag.Stocked
  initial : ag.initialEquity = initialCash
  peak : initialCash ≤ ag.peakEquity
  drawdown : ag.maxDrawdown < 1

/-- The borrow fee of the position at the close of row `t`. -/
def AgentState.borrowAt (md : MarketData) (p : Params) (t : ℤ) (ag : AgentState) : ℚ :=
  if 0 ≤ ag.positionSym ∧ 0 < md.priceOf t .pClose ag then
    ag.positionQty * md.priceOf t .pClose ag *
      p.borrowRate (decide (ag.positionSym ≥ md.numSymbols))
  else 0

/-- The equity of the agent at the close of row `t`, after the borrow fee. -/
def AgentState.closingEquity (md : MarketData) (p : Params) (t : ℤ) (ag : AgentState) : ℚ :=
  ag.markedAt md t - ag.borrowAt md p t

/-- What the exit at the open of row `t` loses against the close of the row: a short is bought
back, a long is sold, and the exit costs the fee and the slippage. -/
def AgentState.exitLoss (md : MarketData) (p : Params) (t : ℤ) (ag : AgentState) : ℚ :=
  if ag.positionSym ≥ md.numSymbols then
    ag.positionQty *
      (md.priceOf t .pOpen ag * (1 + (p.feeRate + p.slippage)) - md.priceOf t .pClose ag)
  else
    ag.positionQty *
      (md.priceOf t .pClose ag - md.priceOf t .pOpen ag * (1 - (p.feeRate + p.slippage)))

/-- A position that is held over the bar to the last row `t`. Its exit there loses no more than
what an earlier drawdown allows, or than the same share that the equity is above the initial cash.
When the guard refuses the exit, the equity is not negative, or was never above the initial
cash. -/
def HoldingCovered (md : MarketData) (p : Params) (t : ℤ) (ag : AgentState) : Prop :=
  let equity := ag.closingEquity md p t
  let peak := max ag.peakEquity equity
  if RefusedAt md p t ag then 0 ≤ equity ∨ ag.peakEquity = initialCash
  else ag.exitLoss md p t ≤ equity - initialCash * (1 - ag.maxDrawdown) ∨
    ag.exitLoss md p t * peak ≤ equity * (peak - initialCash)

/-- The condition on the agent before its last step. A position that is carried over the bar, or
the one that an order opens, is covered at the last row; without one, the cash is not negative, or
the equity was never above the initial cash. -/
def EndsCovered (md : MarketData) (p : Params) (rng : UInt64) (action : ℤ) (ag : AgentState) :
    Prop :=
  let t := tradeRow md ag
  let tNew := tradeRow md ag.tick
  if KeepsPosition md p t action ag then HoldingCovered md p tNew (ag.carried md p t action)
  else match placedOrder md p t rng action (ag.flattened md p t).cash with
    | some (isShort, sym, price, qty) =>
      HoldingCovered md p tNew ((ag.flattened md p t).entered md p isShort sym price qty)
    | none => 0 ≤ (ag.flattened md p t).cash ∨ ag.peakEquity = initialCash

/-- The condition on the agent after its last bar was traded. -/
def SettlesCovered (md : MarketData) (p : Params) (t : ℤ) (ag : AgentState) : Prop :=
  if 0 ≤ ag.positionSym then HoldingCovered md p t ag
  else 0 ≤ ag.cash ∨ ag.peakEquity = initialCash

/-- The agent that a step is about to mark, and the row: its bar is traded and the borrow fee is
charged. Its peak and its drawdown are still those of the bars before. -/
def bookedStep (md : MarketData) (p : Params) (env : EnvState) (action : ℤ) :
    Checked (AgentState × ℤ) := do
  let x ← executeBar md p env.agent env.rng action
  let tNew := tradeRow md x.agent.tick
  let bfee ← borrowFee md p tNew x.agent.tick
  pure (x.agent.tick.charge bfee, tNew)

/-- The agent that a step marks, before the episode ends or goes on. -/
def markedStep (md : MarketData) (p : Params) (env : EnvState) (action : ℤ) : Checked Marked := do
  let x ← executeBar md p env.agent env.rng action
  markToMarket md p x

variable {lm : Libm} {md : MarketData} {p : Params} {t : ℤ} {ag : AgentState}
  {env env' : EnvState} {action : ℤ} {rng : UInt64}

/-! ## Drawdown and loss -/

/-- **Drawdown and loss.** The drawdown from the peak to an equity, or an earlier one, covers the
loss of a final equity against the base exactly when the final equity is what the earlier drawdown
leaves of the base, or the same share of the base that the equity is of the peak. -/
theorem loss_le_drawdown_iff {base peak equity final earlier : ℚ} (hbase : 0 < base)
    (hpeak : 0 < peak) :
    (base - final) / base ≤ max earlier ((peak - equity) / peak) ↔
      base * (1 - earlier) ≤ final ∨ base * equity ≤ final * peak := by
  have hloss : (base - final) / base = 1 - final / base := by
    rw [sub_div, div_self hbase.ne']
  have hdrawdown : (peak - equity) / peak = 1 - equity / peak := by
    rw [sub_div, div_self hpeak.ne']
  have hearlier : 1 - final / base ≤ earlier ↔ base * (1 - earlier) ≤ final := by
    rw [sub_le_comm, le_div_iff₀ hbase, mul_comm]
  have hmark : equity / peak ≤ final / base ↔ base * equity ≤ final * peak := by
    rw [div_le_div_iff₀ hpeak hbase, mul_comm equity base]
  rw [hloss, hdrawdown, le_max_iff, sub_le_sub_iff_left, hearlier, hmark]

/-- Without an exit the final equity is the mark: it is covered exactly when it is not negative, or
the peak before it is the base. An earlier drawdown of less than everything makes no difference. -/
lemma mark_covered_iff {base peak equity earlier : ℚ} (hbase : 0 < base) (hpeak : base ≤ peak)
    (hearlier : earlier < 1) :
    (base * (1 - earlier) ≤ equity ∨ base * equity ≤ equity * max peak equity) ↔
      0 ≤ equity ∨ peak = base := by
  constructor
  · intro h
    by_contra hnot
    rw [not_or, not_le] at hnot
    obtain ⟨hneg, hne⟩ := hnot
    have hlt : base < peak := lt_of_le_of_ne hpeak (Ne.symm hne)
    rcases h with h | h
    · have hleft : 0 < base * (1 - earlier) := mul_pos hbase (sub_pos.mpr hearlier)
      linarith
    · rw [max_eq_left (by linarith), mul_comm base] at h
      have hle : peak ≤ base := (mul_le_mul_left_of_neg hneg).mp h
      exact absurd hlt (not_lt.mpr hle)
  · rintro (hnonneg | rfl)
    · right
      rw [mul_comm base]
      exact mul_le_mul_of_nonneg_left (hpeak.trans (le_max_left _ _)) hnonneg
    · right
      rw [mul_comm peak]
      rcases le_total 0 equity with hnonneg | hneg
      · exact mul_le_mul_of_nonneg_left (le_max_left _ _) hnonneg
      · rw [max_eq_left (hneg.trans hbase.le)]

/-! ## The final close -/

/-- **The final equity** is the cash after the exit, or the mark without one. -/
theorem finalClose_settles {r : AgentState × ℚ} (h : finalClose md p t ag = .ok r) :
    r.2 = if 0 ≤ ag.positionSym ∧ ¬RefusedAt md p t ag
      then (ag.closedAt p (decide (ag.positionSym ≥ md.numSymbols)) (md.priceOf t .pOpen ag)).cash
      else ag.markedAt md t := by
  unfold finalClose at h
  split at h
  · next hpos =>
    obtain ⟨r', hclose, h⟩ := bind_eq_ok.mp h
    rcases closePosition_exits hpos r' hclose with ⟨href, rfl⟩ | ⟨hgo, rfl⟩
    · rw [if_neg fun hexit => hexit.2 href]
      obtain ⟨e, he, h⟩ := bind_eq_ok.mp h
      rw [← pure_eq_ok.mp h, computeEquity_eq_ok he]
      rfl
    · rw [if_pos ⟨hpos, hgo⟩, ← pure_eq_ok.mp h]
  · next hflat =>
    rw [if_neg fun hexit => hflat hexit.1, ← pure_eq_ok.mp h]
    exact (if_pos (not_le.mp hflat)).symm

/-- The exit leaves the mark less what it loses. -/
lemma closedAt_cash (hpos : 0 ≤ ag.positionSym) :
    (ag.closedAt p (decide (ag.positionSym ≥ md.numSymbols)) (md.priceOf t .pOpen ag)).cash =
      ag.markedAt md t - ag.exitLoss md p t := by
  unfold AgentState.exitLoss AgentState.markedAt AgentState.equityAt
  rw [if_neg (not_lt.mpr hpos)]
  by_cases hside : ag.positionSym ≥ md.numSymbols
  · simp only [AgentState.closedAt, hside, if_true, decide_true, Params.slippage]
    ring
  · simp only [AgentState.closedAt, hside, if_false, decide_false, Params.slippage,
      Bool.false_eq_true]
    ring

/-! ## Positions and borrow fees -/

/-- Positions are opened with a positive quantity, and closed with none. -/
lemma stockedInvariant : TradeInvariant md p AgentState.Stocked where
  hold _ _ h := h
  closed t ag ag' hclose _ := by
    obtain ⟨-, sym, price, -, -, rfl⟩ := closedAt_of_close hclose
    exact .inl ⟨neg_one_lt_zero, rfl⟩
  opened t isShort sym alloc level ag ag' _ hsym hopen h := by
    rcases openTarget_cases hopen with rfl | ⟨f, q, hfq, rfl⟩
    · exact h
    · exact .inr ⟨(targetPosId_range isShort hsym).1, (sizedFill_spec hfq).2.1⟩

/-- The borrow fee that is charged. -/
lemma borrowFee_eq_ok (hstocked : ag.Stocked) {fee : ℚ} (h : borrowFee md p t ag = .ok fee) :
    fee = ag.borrowAt md p t := by
  unfold borrowFee at h
  unfold AgentState.borrowAt
  rcases hstocked with ⟨hflat, hqty⟩ | ⟨hpos, hqty⟩
  · rw [if_pos (.inr hqty.le)] at h
    rw [if_neg fun hheld => absurd hheld.1 (not_le.mpr hflat)]
    exact (pure_eq_ok.mp h).symm
  unfold Params.borrowRate
  by_cases hapr : p.shortBorrowApr ≤ 0
  · rw [if_pos (.inl hapr)] at h
    rw [if_pos hapr, mul_zero, ite_self]
    exact (pure_eq_ok.mp h).symm
  rw [if_neg (not_or.mpr ⟨hapr, not_le.mpr hqty⟩)] at h
  obtain ⟨sym, hsym, h⟩ := bind_eq_ok.mp h
  obtain ⟨price, hprice, h⟩ := bind_eq_ok.mp h
  obtain ⟨-, -, rfl⟩ := getPrice_eq_ok hprice
  rw [cmod_positionSym hpos hsym] at h
  change (if md.priceOf t .pClose ag ≤ 0 then _ else if ag.positionSym ≥ md.numSymbols then
    fdiv (ag.positionQty * md.priceOf t .pClose ag * p.shortBorrowApr) p.ppy else _) = _ at h
  split at h
  · next hclose =>
    rw [if_neg fun hheld => absurd hheld.2 (not_lt.mpr hclose)]
    exact (pure_eq_ok.mp h).symm
  next hclose =>
  rw [if_pos ⟨hpos, not_le.mp hclose⟩, if_neg hapr]
  split at h
  · next hshort =>
    obtain ⟨-, rfl⟩ := fdiv_eq_ok h
    rw [decide_eq_true hshort, if_pos rfl, mul_div_assoc]
  next hlong =>
  rw [decide_eq_false hlong, if_neg Bool.false_ne_true]
  by_cases hlev : p.maxLeverage > 1
  · rw [if_pos hlev] at h ⊢
    obtain ⟨inverse, hinverse, h⟩ := bind_eq_ok.mp h
    obtain ⟨-, rfl⟩ := fdiv_eq_ok hinverse
    have hless : 1 / p.maxLeverage < 1 := (div_lt_one (by linarith)).mpr hlev
    have hborrowed : 0 < ag.positionQty * md.priceOf t .pClose ag * (1 - 1 / p.maxLeverage) :=
      mul_pos (mul_pos hqty (not_le.mp hclose)) (by linarith)
    change (if ag.positionQty * md.priceOf t .pClose ag * (1 - 1 / p.maxLeverage) ≤ 0 then _
      else fdiv (ag.positionQty * md.priceOf t .pClose ag * (1 - 1 / p.maxLeverage) *
        p.shortBorrowApr) p.ppy) = _ at h
    rw [if_neg (not_le.mpr hborrowed)] at h
    obtain ⟨-, rfl⟩ := fdiv_eq_ok h
    rw [mul_assoc _ (1 - 1 / p.maxLeverage) _, mul_div_assoc]
  · rw [if_neg hlev] at h ⊢
    rw [mul_zero]
    exact (pure_eq_ok.mp h).symm

lemma borrowAt_nonneg (hstocked : ag.Stocked) : 0 ≤ ag.borrowAt md p t := by
  unfold AgentState.borrowAt
  split
  · next hheld =>
    rcases hstocked with ⟨hflat, -⟩ | ⟨-, hqty⟩
    · exact absurd hheld.1 (not_le.mpr hflat)
    · exact mul_nonneg (mul_nonneg hqty.le hheld.2.le) (borrowRate_nonneg _)
  · exact le_rfl

/-- The mark of an agent that was charged the borrow fee. -/
lemma markedAt_charged (hstocked : ag.Stocked) :
    (ag.charge (ag.borrowAt md p t)).markedAt md t = ag.closingEquity md p t := by
  have hcash : (ag.charge (ag.borrowAt md p t)).cash = ag.cash - ag.borrowAt md p t :=
    charged_of_nonneg (borrowAt_nonneg hstocked) ag.cash
  unfold AgentState.closingEquity AgentState.markedAt AgentState.equityAt
  rw [hcash]
  change (if ag.positionSym < 0 then _ else if ag.positionSym ≥ md.numSymbols then
    ag.cash - ag.borrowAt md p t - ag.positionQty * md.priceOf t .pClose ag
    else ag.cash - ag.borrowAt md p t + ag.positionQty * md.priceOf t .pClose ag) = _
  split_ifs <;> ring

/-! ## The last step -/

/-- **Marking** charges the borrow fee and updates the record. -/
theorem markToMarket_books {x : Executed} {m : Marked} (h : markToMarket md p x = .ok m) :
    ∃ fee, borrowFee md p m.tNew x.agent.tick = .ok fee ∧ m.tNew = tradeRow md x.agent.tick ∧
      m.equityAfter = (x.agent.tick.charge fee).markedAt md m.tNew ∧
      m.agent = { (x.agent.tick.charge fee).trackReturn m.ret with
        peakEquity := max x.agent.peakEquity m.equityAfter
        maxDrawdown := if 0 < max x.agent.peakEquity m.equityAfter
          then max x.agent.maxDrawdown ((max x.agent.peakEquity m.equityAfter - m.equityAfter) /
            max x.agent.peakEquity m.equityAfter)
          else x.agent.maxDrawdown } := by
  obtain ⟨hmarked, -, -⟩ := markToMarket_marked h
  obtain ⟨equity, -, h⟩ := bind_eq_ok.mp h
  obtain ⟨fee, hfee, h⟩ := bind_eq_ok.mp h
  obtain ⟨ret, -, h⟩ := bind_eq_ok.mp h
  obtain ⟨r, hr, h⟩ := bind_eq_ok.mp h
  have hagent := trackDrawdown_max hr
  simp only [AgentState.trackPeak, ite_gt_eq_max] at hagent
  rw [← pure_eq_ok.mp h, hagent] at hmarked ⊢
  exact ⟨fee, hfee, rfl, hmarked, rfl⟩

/-- The equity at the close of the row, where positions have a positive quantity. -/
lemma markToMarket_closes {x : Executed} {m : Marked} (hstocked : x.agent.Stocked)
    (h : markToMarket md p x = .ok m) :
    m.equityAfter = x.agent.closingEquity md p m.tNew := by
  have hstocked' : x.agent.tick.Stocked := hstocked
  obtain ⟨fee, hfee, -, hafter, -⟩ := markToMarket_books h
  rw [hafter, borrowFee_eq_ok hstocked' hfee, markedAt_charged hstocked']
  rfl

/-- **Booking** leaves the record of the bars before alone. -/
lemma bookedStep_record : Ensures (bookedStep md p env action) fun b =>
    b.1.initialEquity = env.agent.initialEquity ∧ b.1.peakEquity = env.agent.peakEquity ∧
      b.1.maxDrawdown = env.agent.maxDrawdown := by
  unfold bookedStep
  refine (executeBar_record env.rng action).bind fun x hx => Ensures.self.bind fun bfee _ => ?_
  exact Ensures.pure ⟨hx.initial, hx.peak, hx.drawdown⟩

/-- **The marked step** updates the record of the booked agent and leaves its book alone. -/
theorem markedStep_books {m : Marked} (h : markedStep md p env action = .ok m) :
    ∃ booked, bookedStep md p env action = .ok (booked, m.tNew) ∧
      m.equityAfter = booked.markedAt md m.tNew ∧
      m.agent = { booked.trackReturn m.ret with
        peakEquity := max booked.peakEquity m.equityAfter
        maxDrawdown := if 0 < max booked.peakEquity m.equityAfter
          then max booked.maxDrawdown ((max booked.peakEquity m.equityAfter - m.equityAfter) /
            max booked.peakEquity m.equityAfter)
          else booked.maxDrawdown } := by
  obtain ⟨x, hx, hm⟩ := bind_eq_ok.mp h
  obtain ⟨fee, hfee, hrow, hmarked, hagent⟩ := markToMarket_books hm
  refine ⟨x.agent.tick.charge fee, ?_, hmarked, hagent⟩
  rw [hrow] at hfee ⊢
  unfold bookedStep
  rw [bind_of_eq_ok hx, bind_of_eq_ok hfee]
  rfl

/-- A step that returns has marked the agent, and leaves a fresh one if it ends the episode. -/
lemma cStep_marked (h : cStep lm md p env action = .ok env') :
    ∃ m, markedStep md p env action = .ok m ∧
      ((env'.terminal = true ∧ ∃ o, env'.agent = .initial o) ∨
        (env'.terminal = false ∧ env'.agent = { m.agent with prevRet := m.ret })) := by
  obtain ⟨x, m, hx, hm, hcases⟩ := cStep_cases h
  refine ⟨m, by rw [markedStep, bind_of_eq_ok hx, hm], ?_⟩
  rcases hcases with ⟨hdone, hagent, -⟩ | ⟨hlive, hagent, -⟩
  · exact .inl ⟨hdone, _, hagent⟩
  · exact .inr ⟨hlive, hagent⟩

/-- A step that ends the episode logs the marked agent after its final close. -/
lemma cStep_logs {m : Marked} (hm : markedStep md p env action = .ok m)
    (h : cStep lm md p env action = .ok env') (hdone : env'.terminal = true) :
    ∃ r, finalClose md p m.tNew { m.agent with prevRet := m.ret } = .ok r ∧
      Logged r.1 r.2 env.log env'.log := by
  obtain ⟨x, hx, hm⟩ := bind_eq_ok.mp hm
  have hends : ends md p m = .ok true := by
    rw [← hdone]
    exact cStep_ends hx hm h
  obtain ⟨-, r, hr, hlog⟩ := cStep_done hx hm hends h
  exact ⟨r, hr, logEpisode_eq_ok hlog⟩

/-- **The end of an episode.** The drawdown that is logged covers the loss that is logged exactly
when the agent whose last bar was traded settles covered.

**Proof sketch.** The peak and the drawdown are those of the bars before, so the logged drawdown is
the larger of the earlier one and the one from the peak to the mark. The logged loss is that of the
exit, or of the mark itself without one (`finalClose_settles`). -/
theorem finalClose_covers_iff {x : Executed} {m : Marked} (htracked : Tracked x.agent)
    (hx : executeBar md p env.agent env.rng action = .ok x) (hm : markToMarket md p x = .ok m)
    (h : cStep lm md p env action = .ok env') (hdone : env'.terminal = true) :
    CoversLoss env.log env'.log ↔ SettlesCovered md p m.tNew x.agent := by
  have hmarked : markedStep md p env action = .ok m := by rw [markedStep, bind_of_eq_ok hx, hm]
  have hmark := markToMarket_closes htracked.stocked hm
  obtain ⟨fee, -, -, hequity, hagent⟩ := markToMarket_books hm
  obtain ⟨r, hr, hlogged⟩ := cStep_logs hmarked h hdone
  have hfinal := finalClose_record r hr
  have hsettles := finalClose_settles hr
  rw [hagent] at hfinal hsettles
  have hcash : 0 < initialCash := by norm_num [initialCash]
  have hpos : 0 < max x.agent.peakEquity m.equityAfter :=
    hcash.trans_le (htracked.peak.trans (le_max_left _ _))
  have hinitial : r.1.initialEquity = initialCash := hfinal.initial.trans htracked.initial
  have hcovers : CoversLoss env.log env'.log ↔
      (initialCash - r.2) / initialCash ≤ r.1.maxDrawdown := by
    unfold CoversLoss
    rw [hlogged.totalReturn, hlogged.maxDrawdown, hinitial, add_sub_cancel_left,
      add_sub_cancel_left, ← neg_div, neg_sub]
  rw [hcovers, hfinal.drawdown, if_pos hpos, loss_le_drawdown_iff hcash hpos, SettlesCovered,
    HoldingCovered, ← hmark]
  by_cases hheld : 0 ≤ x.agent.positionSym
  · rw [if_pos hheld]
    by_cases hrefused : RefusedAt md p m.tNew x.agent
    · have hsame : r.2 = m.equityAfter := by
        rw [hequity]
        exact hsettles.trans (if_neg fun hexit => hexit.2 hrefused)
      rw [if_pos hrefused, hsame]
      exact mark_covered_iff hcash htracked.peak htracked.drawdown
    · have hexit : r.2 = m.equityAfter - x.agent.exitLoss md p m.tNew := by
        rw [hequity]
        have hcharged : 0 ≤ (x.agent.tick.charge fee).positionSym := hheld
        exact (hsettles.trans (if_pos ⟨hheld, hrefused⟩)).trans (closedAt_cash hcharged)
      rw [if_neg hrefused, hexit]
      refine or_congr le_sub_comm ?_
      rw [sub_mul, le_sub_comm, mul_sub, mul_comm initialCash]
  · have hsame : r.2 = m.equityAfter := by
      rw [hequity]
      exact hsettles.trans (if_neg fun hexit => hheld hexit.1)
    have hflat : m.equityAfter = x.agent.cash := by
      rw [hmark, AgentState.closingEquity, AgentState.borrowAt, if_neg fun h => hheld h.1,
        sub_zero, AgentState.markedAt, AgentState.equityAt, if_pos (not_le.mp hheld)]
    rw [if_neg hheld, hsame, ← hflat]
    exact mark_covered_iff hcash htracked.peak htracked.drawdown

/-- An order is for a symbol of the data. -/
lemma placedOrder_range {cash price qty : ℚ} {isShort : Bool} {sym : ℤ}
    (h : placedOrder md p t rng action cash = some (isShort, sym, price, qty)) :
    0 ≤ sym ∧ sym < md.numSymbols := by
  unfold placedOrder at h
  split at h
  · next isShort' sym' allocIdx levelIdx hd =>
    have hrange := (decodeAction_returns p md.numSymbols action).ensures _ hd
    split at h
    · obtain ⟨fill, -, horder⟩ := Option.map_eq_some_iff.mp h
      cases horder
      exact hrange
    · cases h
  · cases h

/-- The agent after the last bar, read off the agent before it: with the position that it carried,
with the one that its order opened, or without one. -/
theorem settlesCovered_booked :
    SettlesCovered md p (tradeRow md ag.tick) (ag.booked md p (tradeRow md ag) rng action) ↔
      EndsCovered md p rng action ag := by
  unfold EndsCovered AgentState.booked
  dsimp only
  by_cases hkeep : KeepsPosition md p (tradeRow md ag) action ag
  · have hheld : 0 ≤ (ag.carried md p (tradeRow md ag) action).positionSym := by
      rw [carried_sym]
      exact hkeep.1
    rw [if_pos hkeep, if_pos hkeep, SettlesCovered, if_pos hheld]
  rw [if_neg hkeep, if_neg hkeep]
  cases horder : placedOrder md p (tradeRow md ag) rng action
      (ag.flattened md p (tradeRow md ag)).cash with
  | some order =>
    obtain ⟨isShort, sym, price, qty⟩ := order
    have hpos := (targetPosId_range isShort (placedOrder_range horder)).1
    rw [AgentState.ordered, SettlesCovered]
    exact iff_of_eq (if_pos hpos)
  | none =>
    have hpeak : (ag.flattened md p (tradeRow md ag)).peakEquity = ag.peakEquity := by
      unfold AgentState.flattened
      split <;> rfl
    rw [AgentState.ordered, SettlesCovered, if_neg (not_le.mpr flattened_flat), hpeak]

/-- The agent after the bar has the record of the agent before. -/
lemma executeBar_tracked (htracked : Tracked ag) : Ensures (executeBar md p ag rng action) fun x =>
    Tracked x.agent := by
  intro x hx
  have hsame := executeBar_record rng action x hx
  refine ⟨stockedInvariant.executeBar rng action htracked.stocked x hx, ?_, ?_, ?_⟩
  · rw [hsame.initial]
    exact htracked.initial
  · rw [hsame.peak]
    exact htracked.peak
  · rw [hsame.drawdown]
    exact htracked.drawdown

/-! ## Runs -/

/-- A fresh agent has lost nothing. -/
lemma tracked_initial (dataOffset : ℤ) : Tracked (.initial dataOffset) :=
  ⟨.inl ⟨neg_one_lt_zero, rfl⟩, rfl, le_rfl, zero_lt_one⟩

/-- A step that does not end the episode leaves more than a hundredth of the initial cash, and so
a drawdown of less than everything. -/
theorem cStep_tracked (htracked : Tracked env.agent) (action : ℤ) :
    Ensures (cStep lm md p env action) fun env' => Tracked env'.agent := by
  intro env' h
  obtain ⟨x, m, hx, hm, ⟨-, hagent, -⟩ | ⟨hlive, hagent, -⟩⟩ := cStep_cases h
  · rw [hagent]
    exact tracked_initial _
  · have hends := cStep_ends hx hm h
    rw [hlive] at hends
    obtain ⟨earlyExit, -, hends⟩ := bind_eq_ok.mp hends
    have hdone : isDone md p m earlyExit = false := pure_eq_ok.mp hends
    simp only [isDone, Bool.or_eq_false_iff, decide_eq_false_iff_not, not_lt] at hdone
    have htraded := executeBar_tracked htracked x hx
    obtain ⟨fee, -, -, -, hmarked⟩ := markToMarket_books hm
    have hcash : 0 < initialCash := by norm_num [initialCash]
    have hpeak : initialCash ≤ max x.agent.peakEquity m.equityAfter :=
      htraded.peak.trans (le_max_left _ _)
    have hpos : 0 < max x.agent.peakEquity m.equityAfter := hcash.trans_le hpeak
    rw [hagent, hmarked, if_pos hpos]
    refine ⟨htraded.stocked, htraded.initial, hpeak, ?_⟩
    show max x.agent.maxDrawdown _ < 1
    rw [max_lt_iff, div_lt_one hpos]
    exact ⟨htraded.drawdown, by linarith [hdone.2]⟩

/-- **Drawdown and loss of a run.** At every step of every run that ends an episode, the drawdown
that is logged covers the loss that is logged exactly when the agent before the step is covered.
Its position is carried over the bar, or its order opens one: then the exit at the open of the last
row loses no more against the close of that row than the equity there and the earlier drawdown
leave room for. Without a position, or with one that the guard does not let go, the last equity is
not negative, or the agent was never worth more than the initial cash. -/
theorem coversLoss_iff (lm : Libm) (md : MarketData) (p : Params) (env : EnvState)
    (actions : List ℤ) : EveryStep lm md p env actions fun e action e' => e'.terminal = true →
      (CoversLoss e.log e'.log ↔ EndsCovered md p e.rng action e.agent) := by
  refine everyStep_of_invariant (I := fun e => Tracked e.agent) (fun _ => ?_)
    (fun e a he => cStep_tracked he a) (fun e a e' he hstep hdone => ?_) env actions
  · exact Ensures.self.bind fun _ _ => Ensures.pure (tracked_initial _)
  · obtain ⟨x, m, hx, hm, -⟩ := cStep_cases hstep
    have htraded := executeBar_tracked he x hx
    have hsame := executeBar_record _ _ x hx
    have hrow : m.tNew = tradeRow md e.agent.tick := by
      obtain ⟨fee, -, hrow, -⟩ := markToMarket_books hm
      rw [hrow, tradeRow, tradeRow]
      simp only [AgentState.tick, hsame.offset, hsame.step]
    rw [finalClose_covers_iff htraded hx hm hstep hdone, hrow, executeBar_booked x hx]
    exact settlesCovered_booked

/-- A long that is bought at the first row and never sold by the agent, at a constant price: its
episode loses the fee twice, and its drawdown knows of the first time only. -/
theorem not_coversLoss_long :
    let md := wideMarket 4 fun _ => 100
    let p := { keelEnvCreate with forcedOffset := 0 }
    md.PositivePrices ∧ 0 ≤ p.feeRate ∧ 0 ≤ p.fillSlippageBps ∧
      ¬EveryStep .firstOrder md p (.zero 7) [1, 1, 1] fun e _ e' =>
        e'.terminal = true → CoversLoss e.log e'.log := by
  intro md p
  refine ⟨?_, by decide +kernel, by decide +kernel, not_everyStep [1, 1] 1 [] (by decide +kernel)⟩
  intro t s k _ _ hk
  cases k with
  | pVol => exact absurd rfl hk
  | _ => norm_num [md, wideMarket, rowMarket]

end KeelTrader.Sim
