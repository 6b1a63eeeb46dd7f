import KeelTrader.Sim.Clamped
import KeelTrader.Sim.EquityCurve

set_option relaxedAutoImplicit false
set_option autoImplicit false

/-!
# The first entry of an episode

An episode starts flat, and stays as it started until its first order fills. Which parameters let
an order fill, and which let a position end a bar at a loss without ending the episode, decides
whether the fill parameters and the early exit have any effect at all.

## Main definitions

* `KeelTrader.Sim.AgentState.waited` — an agent that has not traded.
* `KeelTrader.Sim.AgentState.entered` — the agent after an entry.
* `KeelTrader.Sim.Params.CanTrade` — some order can fill.
* `KeelTrader.Sim.Params.CanLose` — some position can end its first bar at a loss, with the episode
  going on.

## Main results

* `KeelTrader.Sim.executeBar_waited_cases` — an agent that has not traded waits on, or enters.
* `KeelTrader.Sim.markToMarket_waited`, `ends_waited` — waiting keeps the equity, and the early
  exit away.
* `KeelTrader.Sim.ruined_of_entry` — where no position can lose, the first entry ends the episode.
* `KeelTrader.Sim.sameRuns_of_not_canLose` — there the clamps change nothing.
-/

namespace KeelTrader.Sim

open Checked

variable {lm : Libm} {md : MarketData} {p : Params} {enable t o n : ℤ} {ag : AgentState}

/-! ## What the parameters allow -/

/-- The rate of the borrow fee, on the value of a short or of a long position. -/
def Params.borrowRate (p : Params) (isShort : Bool) : ℚ :=
  if p.shortBorrowApr ≤ 0 then 0
  else if isShort then p.shortBorrowApr / p.ppy
  else if p.maxLeverage > 1 then (1 - 1 / p.maxLeverage) * p.shortBorrowApr / p.ppy
  else 0

/-- The smallest part of the cash that an action can allocate. -/
def Params.leastAllocation (p : Params) : ℚ :=
  if p.actionAllocationBins ≤ 1 then 1 else max (1 / 100) (1 / p.actionAllocationBins)

/-- A fill on this side has a positive price after slippage and fee. -/
def Params.Fills (p : Params) (isShort : Bool) : Prop :=
  0 < (if isShort then 1 - p.slippage else 1 + p.slippage) * (1 + p.feeRate)

/-- Some order can fill. -/
def Params.CanTrade (p : Params) : Prop := 0 < p.maxLeverage ∧ ∃ isShort, p.Fills isShort

/-- Some position can end its first bar at a loss that does not end the episode. A long position
cannot if its borrow fee takes whatever it earns, and its smallest size leaves less than a
hundredth of the cash. -/
def Params.CanLose (p : Params) : Prop :=
  0 < p.maxLeverage ∧ (p.Fills true ∨
    p.Fills false ∧ (p.borrowRate false < 1 ∨ p.maxLeverage * p.leastAllocation ≤ 99 / 100))

lemma Params.CanLose.canTrade (h : p.CanLose) : p.CanTrade :=
  ⟨h.1, h.2.elim (fun hs => ⟨true, hs⟩) fun hl => ⟨false, hl.1⟩⟩

lemma borrowRate_nonneg (isShort : Bool) : 0 ≤ p.borrowRate isShort := by
  unfold Params.borrowRate
  have hppy := ppy_pos (p := p)
  split_ifs with hapr hside hlev
  · exact le_rfl
  · exact div_nonneg (not_le.mp hapr).le hppy.le
  · have hinverse : 1 / p.maxLeverage ≤ 1 := (div_le_one (by linarith)).mpr hlev.le
    exact div_nonneg (mul_nonneg (by linarith) (not_le.mp hapr).le) hppy.le
  · exact le_rfl

lemma leastAllocation_pos : 0 < p.leastAllocation := by
  unfold Params.leastAllocation
  split_ifs
  · exact one_pos
  · exact lt_max_of_lt_left (by norm_num)

lemma leastAllocation_le_one : p.leastAllocation ≤ 1 := by
  unfold Params.leastAllocation
  split_ifs with hbins
  · exact le_rfl
  · have hbins' : (1 : ℚ) ≤ p.actionAllocationBins := by
      exact_mod_cast (by omega : 1 ≤ p.actionAllocationBins)
    exact max_le (by norm_num) ((div_le_one (by linarith)).mpr hbins')

/-- No action allocates less. -/
lemma leastAllocation_le {allocIdx : ℤ} {alloc : ℚ}
    (h : actionAllocationPct p allocIdx = .ok alloc) : p.leastAllocation ≤ alloc := by
  unfold actionAllocationPct at h
  unfold Params.leastAllocation
  dsimp only at h
  by_cases hbins : p.actionAllocationBins ≤ 1
  · rw [if_pos hbins] at h ⊢
    exact (pure_eq_ok.mp h).le
  rw [if_neg hbins] at h ⊢
  obtain ⟨pct, hpct, h⟩ := bind_eq_ok.mp h
  obtain ⟨-, rfl⟩ := fdiv_eq_ok hpct
  have hbins' : (1 : ℚ) ≤ p.actionAllocationBins := by
    exact_mod_cast (by omega : 1 ≤ p.actionAllocationBins)
  have hinverse : 1 / (p.actionAllocationBins : ℚ) ≤ 1 := (div_le_one (by linarith)).mpr hbins'
  set i := if (if allocIdx < 0 then 0 else allocIdx) ≥ p.actionAllocationBins then
    p.actionAllocationBins - 1 else if allocIdx < 0 then 0 else allocIdx with hi
  have hpart : 1 / (p.actionAllocationBins : ℚ) ≤ ((i + 1 : ℤ) : ℚ) / p.actionAllocationBins := by
    refine div_le_div_of_nonneg_right ?_ (by linarith)
    have hpos : 1 ≤ i + 1 := by rw [hi]; split_ifs <;> omega
    exact_mod_cast hpos
  rw [← pure_eq_ok.mp h]
  split_ifs <;> exact max_le (by linarith) (by linarith)

/-- The first allocation bin is the smallest. -/
lemma actionAllocationPct_zero : actionAllocationPct p 0 = .ok p.leastAllocation := by
  unfold actionAllocationPct Params.leastAllocation
  dsimp only
  by_cases hbins : p.actionAllocationBins ≤ 1
  · rw [if_pos hbins, if_pos hbins]
    rfl
  have hbins' : (1 : ℚ) ≤ p.actionAllocationBins := by
    exact_mod_cast (by omega : 1 ≤ p.actionAllocationBins)
  have hinverse : 1 / (p.actionAllocationBins : ℚ) ≤ 1 := (div_le_one (by linarith)).mpr hbins'
  have hidx : (if (if (0 : ℤ) < 0 then 0 else 0) ≥ p.actionAllocationBins then
      p.actionAllocationBins - 1 else if (0 : ℤ) < 0 then 0 else 0) = 0 := by
    rw [if_neg (lt_irrefl 0), if_neg (by omega)]
  rw [if_neg hbins, if_neg hbins, hidx, bind_of_eq_ok (fdiv_of_ne (by linarith))]
  rw [zero_add, Int.cast_one, pure_eq_ok]
  rcases le_or_gt (1 / 100) (1 / (p.actionAllocationBins : ℚ)) with h | h
  · rw [if_neg (not_lt.mpr h), if_neg (not_lt.mpr hinverse), max_eq_right h]
  · rw [if_pos h, max_eq_left h.le]
    norm_num

/-! ## Agents that have not traded -/

/-- The agent of an episode that started at `offset`, after `n` steps without a trade. -/
def AgentState.waited (offset n : ℤ) : AgentState :=
  { AgentState.initial offset with step := n, retCount := n }

lemma waited_flat : ¬(AgentState.waited o n).positionSym ≥ 0 := not_le.mpr (by
  simp [AgentState.waited, AgentState.initial])

/-- Waiting has no position to close and no market to ask: the bar begins with the action. -/
lemma executeBar_waited (rng : UInt64) (action : ℤ) :
    executeBar md p (.waited o n) rng action = (do
      let anyTradable ← anyTradableAt md (tradeRow md (.waited o n))
      let (ag, rng, events) ←
        applyAction md p (tradeRow md (.waited o n)) true action (.waited o n) rng
      pure ⟨ag, rng, 0 + events, anyTradable, initialCash⟩) := by
  have hforce : forceClose md p (tradeRow md (.waited o n)) (.waited o n) =
      pure (.waited o n, 0) := if_neg fun h => waited_flat h.2.1
  have hopen : curTradable md (tradeRow md (.waited o n)) (.waited o n) = pure true :=
    if_neg waited_flat
  have hequity : computeEquity md (tradeRow md (.waited o n)) (.waited o n) =
      pure initialCash := if_neg waited_flat
  simp only [executeBar, hforce, hopen, hequity, pure_bind]

/-- **Waiting.** A bar without a trade moves the clock, and nothing else. -/
theorem markToMarket_waited {x : Executed} (hag : x.agent = .waited o n)
    (heq : x.equityBefore = initialCash) : markToMarket md p x =
      .ok ⟨.waited o (n + 1), tradeRow md (.waited o (n + 1)), initialCash, 0, 0⟩ := by
  have hflat : ¬(AgentState.waited o n).tick.positionSym ≥ 0 := waited_flat (o := o) (n := n)
  have hcash : (AgentState.waited o n).tick.cash = initialCash := rfl
  have hret : stepReturn initialCash initialCash = .ok 0 := by decide +kernel
  have htracked : (((AgentState.waited o n).tick.charge 0).trackReturn 0).trackPeak initialCash =
      .waited o (n + 1) := by
    simp [AgentState.charge, AgentState.trackReturn, AgentState.trackPeak, AgentState.waited,
      AgentState.initial, AgentState.tick]
  have hdrawdown : trackDrawdown initialCash (.waited o (n + 1)) =
      .ok (.waited o (n + 1), 0) := by
    have hpeak : (AgentState.waited o (n + 1)).peakEquity = initialCash := rfl
    have hmax : (AgentState.waited o (n + 1)).maxDrawdown = 0 := rfl
    have hpos : initialCash > 0 := by norm_num [initialCash]
    unfold trackDrawdown
    rw [hpeak, if_pos hpos, bind_of_eq_ok (fdiv_of_ne hpos.ne'), sub_self, zero_div, hmax,
      if_neg (lt_irrefl 0)]
    rfl
  unfold markToMarket
  rw [hag, heq]
  dsimp only
  rw [computeEquity, if_neg hflat, borrowFee, if_pos (.inr (by exact le_rfl))]
  simp only [pure_bind, lt_irrefl, if_false]
  rw [hcash, bind_of_eq_ok hret, htracked, bind_of_eq_ok hdrawdown]
  rfl

/-- A return of `0` is no reason for an early exit. -/
lemma ends_waited {m : Marked} (hag : m.agent = .waited o n) (heq : m.equityAfter = initialCash) :
    ends md p m = .ok (isDone md p m false) := by
  have hexit : shouldDrawdownProfitEarlyExit p m.agent m.equityAfter = .ok false := by
    have hinit : m.agent.initialEquity = initialCash := by rw [hag]; rfl
    have hmax : m.agent.maxDrawdown = 0 := by rw [hag]; rfl
    have hpos : 0 < initialCash := by norm_num [initialCash]
    by_cases harmed : p.Armed
    swap
    · exact earlyExit_of_not_armed harmed _ _
    by_cases hon : p.enableDrawdownProfitEarlyExit = 0
    · exact if_pos hon
    · rw [earlyExit_of_armed harmed hon (by rw [hinit]; exact hpos), hinit, hmax, heq, sub_self,
        zero_div, decide_eq_false (lt_irrefl 0), Bool.and_false]
      rfl
  rw [ends, bind_of_eq_ok hexit]
  rfl

/-! ## Entries -/

/-- Only parameters that let an order fill on its side size one. -/
lemma fills_of_sizedFill {sym : ℤ} {alloc level cash f q : ℚ} {isShort : Bool}
    (h : sizedFill md p t sym alloc level (!isShort) cash = .ok (some (f, q))) :
    0 < p.maxLeverage ∧ p.Fills isShort := by
  obtain ⟨hcash, hq, hf, halloc, hbudget, ref, -, -, htarget, hfill⟩ := sizedFill_spec h
  constructor
  · have hclamp : 0 < clampAllocation alloc := by
      unfold clampAllocation
      split_ifs
      · exact one_pos
      · exact halloc
    have hpos : 0 < cash * p.maxLeverage * clampAllocation alloc := by
      rw [← hbudget]
      exact mul_pos hq hf
    exact (mul_pos_iff_of_pos_left hcash).mp ((mul_pos_iff_of_pos_right hclamp).mp hpos)
  · obtain ⟨low, -, hfill⟩ := bind_eq_ok.mp hfill
    obtain ⟨high, -, hfill⟩ := bind_eq_ok.mp hfill
    have hprice := limitFillPrice_eq (pure_eq_ok.mp hfill)
    rw [hprice] at hf
    refine (mul_pos_iff_of_pos_left htarget).mp ?_
    unfold Params.slippage
    cases isShort <;> simpa [mul_assoc] using hf

lemma waited_ne_target {isShort : Bool} {sym : ℤ} (hsym : 0 ≤ sym) :
    (AgentState.waited o n).positionSym ≠ targetPosId md.numSymbols isShort sym := by
  have hflat : (AgentState.waited o n).positionSym = -1 := rfl
  rw [hflat]
  cases isShort <;> simp [targetPosId] <;> omega

/-- A target has nothing to close first: the order is entered if its market is open. -/
lemma goTarget_waited {isShort : Bool} {sym : ℤ} (hsym : 0 ≤ sym) (allocIdx levelIdx : ℤ)
    (rng : UInt64) : goTarget md p t true isShort sym allocIdx levelIdx (.waited o n) rng = (do
      let alloc ← actionAllocationPct p allocIdx
      let level ← actionLevelOffsetBps p levelIdx
      let targetTradable ← isTradable md t sym
      if !targetTradable then pure (.waited o n, rng, 0)
      else enterTarget md p t isShort sym alloc level (.waited o n) rng 0) := by
  have hne : (AgentState.waited o n).positionSym ≠ targetPosId md.numSymbols isShort sym :=
    waited_ne_target hsym
  simp only [goTarget, if_neg hne, waited_flat, false_and, if_false]

/-- An entry of a waiting agent: what it was decoded to, and the order that was sized. -/
structure Entry (md : MarketData) (p : Params) (o n : ℤ) (ag : AgentState) (isShort : Bool)
    (sym : ℤ) (alloc level f q : ℚ) : Prop where
  nonneg : 0 ≤ sym
  lt : sym < md.numSymbols
  alloc_le : p.leastAllocation ≤ alloc
  sized : sizedFill md p (tradeRow md (.waited o n)) sym alloc level (!isShort) initialCash =
    .ok (some (f, q))
  agent : ag = (AgentState.waited o n).entered md p isShort sym f q

/-- An order of an agent that has not traded enters, or leaves it waiting. -/
lemma enterTarget_waited {isShort : Bool} {sym : ℤ} (hsym : 0 ≤ sym ∧ sym < md.numSymbols)
    {allocIdx : ℤ} {alloc level : ℚ} (halloc : actionAllocationPct p allocIdx = .ok alloc)
    (rng : UInt64) :
    Ensures (enterTarget md p (tradeRow md (.waited o n)) isShort sym alloc level (.waited o n)
      rng 0) fun r => r.1 = .waited o n ∨
        ∃ isShort sym alloc level f q, Entry md p o n r.1 isShort sym alloc level f q := by
  unfold enterTarget
  dsimp only
  refine Ensures.ite (fun _ => ?_) fun _ => Ensures.pure (.inl rfl)
  refine Ensures.bind (P := fun ag => ag = .waited o n ∨
    ∃ isShort sym alloc level f q, Entry md p o n ag isShort sym alloc level f q) ?_
    fun ag h => Ensures.pure h
  intro ag hag
  have hsized : ∀ fill, sizedFill md p (tradeRow md (.waited o n)) sym alloc level (!isShort)
      initialCash = .ok fill → ag = .waited o n ∨
        ∃ isShort sym alloc level f q, Entry md p o n ag isShort sym alloc level f q := by
    intro fill hfill
    cases fill with
    | none =>
      rw [openTarget_of_none hfill] at hag
      cases hag
      exact .inl rfl
    | some fq =>
      rw [openTarget_of_some hfill] at hag
      cases hag
      exact .inr ⟨isShort, sym, alloc, level, fq.1, fq.2, hsym.1, hsym.2,
        leastAllocation_le halloc, hfill, rfl⟩
  cases isShort with
  | false =>
    obtain ⟨fill, hfill, -⟩ := bind_eq_ok.mp hag
    exact hsized fill hfill
  | true =>
    obtain ⟨fill, hfill, -⟩ := bind_eq_ok.mp hag
    exact hsized fill hfill

/-- **First entries.** An agent that has not traded waits on, or enters a position. -/
theorem executeBar_waited_cases {rng : UInt64} {action : ℤ} {x : Executed}
    (h : executeBar md p (.waited o n) rng action = .ok x) :
    x.equityBefore = initialCash ∧ (x.agent = .waited o n ∨
      ∃ isShort sym alloc level f q, Entry md p o n x.agent isShort sym alloc level f q) := by
  rw [executeBar_waited] at h
  obtain ⟨anyTradable, -, h⟩ := bind_eq_ok.mp h
  obtain ⟨r, hr, h⟩ := bind_eq_ok.mp h
  rw [← pure_eq_ok.mp h]
  refine ⟨rfl, ?_⟩
  unfold applyAction at hr
  obtain ⟨d, hd, hr⟩ := bind_eq_ok.mp hr
  have hrange := (decodeAction_returns p md.numSymbols action).ensures d hd
  cases d with
  | flat =>
    dsimp only at hr
    rw [goFlat, if_neg waited_flat] at hr
    cases hr
    exact .inl rfl
  | invalid =>
    cases hr
    exact .inl rfl
  | target isShort sym allocIdx levelIdx =>
    dsimp only at hr
    rw [goTarget_waited hrange.1] at hr
    obtain ⟨alloc, halloc, hr⟩ := bind_eq_ok.mp hr
    obtain ⟨level, -, hr⟩ := bind_eq_ok.mp hr
    obtain ⟨targetTradable, -, hr⟩ := bind_eq_ok.mp hr
    split at hr
    · cases hr
      exact .inl rfl
    · exact enterTarget_waited hrange halloc rng r hr

/-! ## The first bar of a position -/

/-- A step's marking, taken apart. -/
lemma markToMarket_eq_ok {x : Executed} {m : Marked} (h : markToMarket md p x = .ok m) :
    ∃ equity fee, computeEquity md (tradeRow md x.agent.tick) x.agent.tick = .ok equity ∧
      borrowFee md p (tradeRow md x.agent.tick) x.agent.tick = .ok fee ∧
      m.tNew = tradeRow md x.agent.tick ∧
      m.equityAfter = (if fee > 0 then equity - fee else equity) ∧
      x.agent.maxDrawdown ≤ m.agent.maxDrawdown ∧
      SameHoldings (x.agent.tick.charge fee) m.agent := by
  obtain ⟨equity, hequity, h⟩ := bind_eq_ok.mp h
  obtain ⟨fee, hfee, h⟩ := bind_eq_ok.mp h
  obtain ⟨ret, hret, h⟩ := bind_eq_ok.mp h
  obtain ⟨r, hr, h⟩ := bind_eq_ok.mp h
  obtain ⟨dd, hagent, hdd⟩ := trackDrawdown_eq_ok hr
  rw [← pure_eq_ok.mp h]
  dsimp only
  rw [hagent]
  exact ⟨equity, fee, hequity, hfee, rfl, rfl, hdd, ⟨rfl, rfl, rfl, rfl⟩⟩

/-- A fee that is not negative is charged in full. -/
lemma charged_of_nonneg {fee : ℚ} (h : 0 ≤ fee) (x : ℚ) :
    (if fee > 0 then x - fee else x) = x - fee := by
  rcases h.eq_or_lt with hzero | hpos
  · rw [← hzero, if_neg (lt_irrefl 0), sub_zero]
  · exact if_pos hpos

section Held

variable {isShort : Bool} {sym : ℤ} (hsym : 0 ≤ sym ∧ sym < md.numSymbols)
  (hpos : ag.positionSym = targetPosId md.numSymbols isShort sym)
  (ht : 0 ≤ t ∧ t < md.numTimesteps)

include hsym hpos in
lemma positionSym_nonneg : 0 ≤ ag.positionSym := by
  rw [hpos]
  cases isShort <;> simp [targetPosId] <;> omega

include hsym hpos in
lemma cmod_held : cmod ag.positionSym md.numSymbols = .ok sym := by
  obtain ⟨r, hr, -⟩ := cmod_returns (positionSym_nonneg hsym hpos)
    (by omega : 0 < md.numSymbols)
  rw [hpos] at hr ⊢
  rw [hr, cmod_targetPosId hsym hr]

include hsym hpos in
lemma side_held : ag.positionSym ≥ md.numSymbols ↔ isShort = true := by
  have hside : decide (targetPosId md.numSymbols isShort sym ≥ md.numSymbols) = isShort :=
    targetPosId_ge hsym
  rw [← hpos] at hside
  rw [← hside, decide_eq_true_iff]

include hsym hpos ht in
/-- The valuation of a held position. -/
lemma computeEquity_held : computeEquity md t ag =
    .ok (if isShort then ag.cash - ag.positionQty * md.prices t.toNat sym.toNat .pClose
      else ag.cash + ag.positionQty * md.prices t.toNat sym.toNat .pClose) := by
  unfold computeEquity
  rw [if_pos (positionSym_nonneg hsym hpos), bind_of_eq_ok (cmod_held hsym hpos),
    bind_of_eq_ok (getPrice_of_lt ht hsym _)]
  simp only [side_held hsym hpos]
  split_ifs <;> rfl

include hsym hpos ht in
/-- The borrow fee of a held position. -/
lemma borrowFee_held (hqty : 0 < ag.positionQty) : borrowFee md p t ag =
    .ok (if md.prices t.toNat sym.toNat .pClose ≤ 0 then 0
      else ag.positionQty * md.prices t.toNat sym.toNat .pClose * p.borrowRate isShort) := by
  unfold borrowFee Params.borrowRate
  by_cases hapr : p.shortBorrowApr ≤ 0
  · rw [if_pos (.inl hapr), if_pos hapr, mul_zero, ite_self]
    rfl
  have hppy : p.ppy ≠ 0 := ppy_pos.ne'
  rw [if_neg (not_or.mpr ⟨hapr, not_le.mpr hqty⟩), if_neg hapr, bind_of_eq_ok (cmod_held hsym hpos),
    bind_of_eq_ok (getPrice_of_lt ht hsym _)]
  by_cases hclose : md.prices t.toNat sym.toNat .pClose ≤ 0
  · rw [if_pos hclose, if_pos hclose]
    rfl
  rw [if_neg hclose, if_neg hclose]
  simp only [side_held hsym hpos]
  cases isShort with
  | true =>
    simp only [if_true]
    rw [fdiv_of_ne hppy, mul_div_assoc]
  | false =>
    simp only [Bool.false_eq_true, if_false]
    by_cases hlev : p.maxLeverage > 1
    · have hinverse : 1 / p.maxLeverage < 1 := (div_lt_one (by linarith)).mpr hlev
      have hborrowed : 0 < ag.positionQty * md.prices t.toNat sym.toNat .pClose *
          (1 - 1 / p.maxLeverage) :=
        mul_pos (mul_pos hqty (not_le.mp hclose)) (by linarith)
      rw [if_pos hlev, if_pos hlev, bind_of_eq_ok (fdiv_of_ne (by linarith)),
        if_neg (not_le.mpr hborrowed), fdiv_of_ne hppy, mul_assoc _ (1 - 1 / p.maxLeverage) _,
        mul_div_assoc]
    · rw [if_neg hlev, if_neg hlev, mul_zero]
      rfl

include hsym hpos ht in
lemma borrowFee_nonneg (hqty : 0 < ag.positionQty) {fee : ℚ}
    (hfee : borrowFee md p t ag = .ok fee) : 0 ≤ fee := by
  rw [borrowFee_held hsym hpos ht hqty] at hfee
  rw [← Except.ok.inj hfee]
  split_ifs with hclose
  · exact le_rfl
  · exact mul_nonneg (mul_nonneg hqty.le (not_le.mp hclose).le) (borrowRate_nonneg isShort)

end Held

/-- A waiting agent has a row to trade at. -/
lemma tradeRow_waited (hT : 0 < md.numTimesteps) (ho : 0 ≤ o) (hn : 0 ≤ n) :
    0 ≤ tradeRow md (.waited o n) ∧ tradeRow md (.waited o n) < md.numTimesteps :=
  clampRow_range md hT (Int.add_nonneg ho hn)

/-- The equity that a position is marked at, in terms of the close of the next row. -/
lemma equityAfter_held {isShort : Bool} {sym : ℤ} (hsym : 0 ≤ sym ∧ sym < md.numSymbols)
    {x : Executed} {m : Marked} (hm : markToMarket md p x = .ok m)
    (hpos : x.agent.positionSym = targetPosId md.numSymbols isShort sym)
    (hqty : 0 < x.agent.positionQty)
    (ht : 0 ≤ tradeRow md x.agent.tick ∧ tradeRow md x.agent.tick < md.numTimesteps) :
    let close := md.prices (tradeRow md x.agent.tick).toNat sym.toNat .pClose
    let value := x.agent.positionQty * close
    m.equityAfter = (if isShort then x.agent.cash - value else x.agent.cash + value) -
      if close ≤ 0 then 0 else value * p.borrowRate isShort := by
  obtain ⟨equity, fee, hequity, hfee, -, heq, -⟩ := markToMarket_eq_ok hm
  have hpos' : x.agent.tick.positionSym = targetPosId md.numSymbols isShort sym := hpos
  rw [computeEquity_held hsym hpos' ht] at hequity
  have hpaid := borrowFee_nonneg hsym hpos' ht hqty hfee
  rw [borrowFee_held hsym hpos' ht hqty] at hfee
  dsimp only
  rw [heq, charged_of_nonneg hpaid, ← Except.ok.inj hequity, ← Except.ok.inj hfee]
  rfl

/-- Where no position can lose, the first entry leaves less than a hundredth of the cash. -/
lemma ruined_of_entry (hlose : ¬p.CanLose) (hT : 0 < md.numTimesteps) (ho : 0 ≤ o) (hn : 0 ≤ n)
    {x : Executed} {m : Marked} {isShort : Bool} {sym : ℤ} {alloc level f q : ℚ}
    (h : Entry md p o n x.agent isShort sym alloc level f q)
    (hm : markToMarket md p x = .ok m) : m.equityAfter < initialCash * (1 / 100) := by
  obtain ⟨hlev, hfills⟩ := fills_of_sizedFill h.sized
  obtain ⟨-, hq, -, -, hbudget, -⟩ := sizedFill_spec h.sized
  obtain rfl : isShort = false := by
    cases isShort with
    | false => rfl
    | true => exact absurd ⟨hlev, .inl hfills⟩ hlose
  have hkept : ¬(p.borrowRate false < 1 ∨ p.maxLeverage * p.leastAllocation ≤ 99 / 100) :=
    fun hsmall => hlose ⟨hlev, .inr ⟨hfills, hsmall⟩⟩
  rw [not_or, not_lt, not_le] at hkept
  have hpos : x.agent.positionSym = targetPosId md.numSymbols false sym := by rw [h.agent]; rfl
  have hqty : x.agent.positionQty = q := by rw [h.agent]; rfl
  have hcash : x.agent.cash = initialCash - q * (f * (1 + p.feeRate)) := by rw [h.agent]; rfl
  have hrow : tradeRow md x.agent.tick = tradeRow md (.waited o (n + 1)) := by rw [h.agent]; rfl
  have hleast : p.leastAllocation ≤ clampAllocation alloc := by
    unfold clampAllocation
    split_ifs
    · exact leastAllocation_le_one
    · exact h.alloc_le
  have hspent : initialCash * (99 / 100) < q * (f * (1 + p.feeRate)) := by
    rw [hbudget, mul_assoc]
    refine mul_lt_mul_of_pos_left ?_ (by norm_num [initialCash])
    exact hkept.2.trans_le (mul_le_mul_of_nonneg_left hleast hlev.le)
  have heq := equityAfter_held ⟨h.nonneg, h.lt⟩ hm hpos (by rw [hqty]; exact hq)
    (by rw [hrow]; exact tradeRow_waited hT ho (by omega))
  dsimp only at heq
  rw [heq, hqty, hcash, if_neg Bool.false_ne_true]
  -- the borrow fee takes whatever the position earns
  split_ifs with hclose
  · have hloss := mul_nonpos_of_nonneg_of_nonpos hq.le hclose
    linarith
  · have hvalue := mul_pos hq (not_le.mp hclose)
    have hfee := le_mul_of_one_le_right hvalue.le hkept.1
    linarith

/-- A step that is done without the early exit ends the episode. -/
lemma ends_of_done {m : Marked} (h : ∀ earlyExit, isDone md p m earlyExit = true) :
    ends md p m = .ok true := by
  obtain ⟨earlyExit, hexit, -⟩ :
      Returns (shouldDrawdownProfitEarlyExit p m.agent m.equityAfter) fun _ => True :=
    shouldDrawdownProfitEarlyExit_returns m.equityAfter
  rw [ends, bind_of_eq_ok hexit, h]
  rfl

/-- A step that leaves less than a hundredth of the cash ends the episode. -/
lemma ends_of_ruined {m : Marked} (h : m.equityAfter < initialCash * (1 / 100)) :
    ends md p m = .ok true :=
  ends_of_done fun earlyExit => by rw [isDone, decide_eq_true h, Bool.or_true]

/-! ## Runs without a position that loses -/

/-- An environment whose episode has not seen a trade. -/
def WaitingEnv (md : MarketData) (env : EnvState) : Prop :=
  0 < md.numTimesteps ∧ ∃ o n, 0 ≤ o ∧ 0 ≤ n ∧ env.agent = .waited o n

lemma waitingEnv_reset (env : EnvState) : Ensures (cReset md p env) (WaitingEnv md) := by
  intro env' h
  obtain ⟨obs, hobs, h⟩ := bind_eq_ok.mp h
  obtain ⟨feats, hfeats, -⟩ := bind_eq_ok.mp hobs
  obtain ⟨row, hrow, -⟩ := bind_eq_ok.mp hfeats
  rw [← pure_eq_ok.mp h]
  have hlt := (index_eq_ok hrow).2
  exact ⟨by omega, _, 0, startOffset_nonneg md p env.rng, le_rfl, rfl⟩

/-- Where no order can fill, an entry is no more than the draw of the fill gate. -/
lemma enterTarget_of_not_canTrade (h : ¬p.CanTrade) (ht : 0 ≤ t ∧ t < md.numTimesteps)
    {isShort : Bool} {sym : ℤ} (hsym : 0 ≤ sym ∧ sym < md.numSymbols) (alloc level : ℚ)
    (rng : UInt64) (events : ℤ) :
    enterTarget md p t isShort sym alloc level (.waited o n) rng events =
      .ok (.waited o n, (fillGate p rng).2, events) := by
  have hnone : sizedFill md p t sym alloc level (!isShort) (AgentState.waited o n).cash =
      .ok none := by
    obtain ⟨fill, hfill, -⟩ := sizedFill_returns (p := p) ht hsym alloc level (!isShort)
      (AgentState.waited o n).cash
    cases fill with
    | none => exact hfill
    | some fq => exact absurd ⟨(fills_of_sizedFill hfill).1, _, (fills_of_sizedFill hfill).2⟩ h
  have hstay : (AgentState.waited o n).positionSym ≠ targetPosId md.numSymbols isShort sym :=
    waited_ne_target hsym.1
  unfold enterTarget
  dsimp only
  rw [bind_of_eq_ok (openTarget_of_none hnone)]
  simp only [decide_eq_false hstay, Bool.false_eq_true, if_false, ite_self]
  rfl

/-- A waiting agent trades a bar under the clamped parameters as under the parameters
themselves. -/
lemma executeBar_waited_clamped (hfills : p.CanTrade → 0 ≤ p.fillBufferBps ∧ 0 ≤ p.fillProbability)
    (hT : 0 < md.numTimesteps) (ho : 0 ≤ o) (hn : 0 ≤ n) (rng : UInt64) (action : ℤ) :
    executeBar md (p.clamped enable) (.waited o n) rng action =
      executeBar md p (.waited o n) rng action := by
  by_cases htrade : p.CanTrade
  · exact executeBar_clamped (hfills htrade).1 (hfills htrade).2 _ _ _
  have hclamped : ¬(p.clamped enable).CanTrade := htrade
  have ht := tradeRow_waited hT ho hn
  rw [executeBar_waited, executeBar_waited]
  refine bind_congr_ok fun anyTradable _ => ?_
  have hact : applyAction md (p.clamped enable) (tradeRow md (.waited o n)) true action
      (.waited o n) rng = applyAction md p (tradeRow md (.waited o n)) true action
        (.waited o n) rng := by
    unfold applyAction
    refine bind_congr_ok (x := decodeAction p md.numSymbols action) fun d hd => ?_
    have hrange := (decodeAction_returns p md.numSymbols action).ensures d hd
    cases d with
    | flat => simp only [goFlat_clamped]
    | invalid => rfl
    | target isShort sym allocIdx levelIdx =>
      dsimp only
      rw [goTarget_waited hrange.1, goTarget_waited hrange.1]
      simp only [actionLevelOffsetBps_clamped, enterTarget_of_not_canTrade htrade ht hrange,
        enterTarget_of_not_canTrade hclamped ht hrange, fillGate_clamped_snd]
      rfl
  rw [hact]

/-- **No losses.** Where no position can lose, the early exit is never the one to end an episode:
the clamps change no run, if they leave alone the fills of the orders that can fill. -/
theorem sameRuns_of_not_canLose (hlose : ¬p.CanLose)
    (hfills : p.CanTrade → 0 ≤ p.fillBufferBps ∧ 0 ≤ p.fillProbability) :
    SameRuns p (p.clamped enable) := by
  refine sameRuns_of_invariant (I := WaitingEnv) (fun _ env => waitingEnv_reset env) ?_ ?_
  · rintro lm md env a ⟨hT, o, n, ho, hn, hag⟩
    refine cStep_clamped ?_ fun x m hx hm => ?_
    · rw [hag]
      exact executeBar_waited_clamped hfills hT ho hn _ _
    rw [hag] at hx
    obtain ⟨heq, hwait | ⟨isShort, sym, alloc, level, f, q, hentry⟩⟩ := executeBar_waited_cases hx
    · rw [markToMarket_waited hwait heq] at hm
      cases hm
      rw [ends_waited rfl rfl, ends_waited rfl rfl]
      rfl
    · have hruined := ruined_of_entry hlose hT ho hn hentry hm
      rw [ends_of_ruined hruined, ends_of_ruined hruined]
  · rintro lm md env a ⟨hT, o, n, ho, hn, hag⟩ env' henv'
    refine ⟨hT, ?_⟩
    obtain ⟨x, m, hx, hm, ⟨-, hagent, -⟩ | ⟨hlive, hagent, -⟩⟩ := cStep_cases henv'
    · exact ⟨_, 0, startOffset_nonneg md p x.rng, le_rfl, hagent⟩
    · rw [hag] at hx
      obtain ⟨heq, hwait | ⟨isShort, sym, alloc, level, f, q, hentry⟩⟩ :=
        executeBar_waited_cases hx
      · rw [markToMarket_waited hwait heq] at hm
        cases hm
        exact ⟨o, n + 1, ho, by omega, hagent⟩
      · rw [← hag] at hx
        have hdone := cStep_done hx hm
          (ends_of_ruined (ruined_of_entry hlose hT ho hn hentry hm)) henv'
        rw [hlive] at hdone
        cases hdone.1

end KeelTrader.Sim
