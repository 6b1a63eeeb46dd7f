import KeelTrader.Lib.Lockstep
import KeelTrader.Sim.BorrowFee

set_option relaxedAutoImplicit false
set_option autoImplicit false

/-!
# What a fee costs

Two runs of the same actions, on the same data, that differ in the fee rate alone. A trader who
is long or flat and does not borrow holds the same positions in both, at the same entry prices,
and never more of them at the higher fee, nor more cash: a fee that rises never pays. The signs
of the cash agree too, so that the two runs refuse the same orders.

## Main definitions

* `KeelTrader.Sim.Params.withFee` — the parameters with another fee rate.
* `KeelTrader.Sim.LongOnly` — actions that never ask for a short.
* `KeelTrader.Sim.Dearer` — the relation between the agents of the two runs.

## Main results

* `KeelTrader.Sim.executeBar_dearer` — trading at a bar.
* `KeelTrader.Sim.underway_dearer` — runs.
* `KeelTrader.Sim.equity_antitone_fee` — the equity, and the return of an episode that both runs
  end at the same step.
-/

namespace KeelTrader.Sim

open Checked

/-- The parameters with another fee rate. -/
def Params.withFee (p : Params) (fee : ℚ) : Params := { p with feeRate := fee }

/-- The action asks for no short. -/
def LongOnly (p : Params) (numSymbols : ℕ) (action : ℤ) : Prop :=
  OnSide p numSymbols (fun isShort => isShort = false) action

/-- The second agent holds the same long position as the first, or is flat with it, and has
neither more of it nor more cash. -/
structure Dearer (md : MarketData) (a b : AgentState) : Prop where
  sym : b.positionSym = a.positionSym
  hold : b.holdHours = a.holdHours
  entry : b.entryPrice = a.entryPrice
  offset : b.dataOffset = a.dataOffset
  step : b.step = a.step
  initial : a.initialEquity = initialCash ∧ b.initialEquity = initialCash
  long : a.positionSym < md.numSymbols
  flat : a.positionSym < 0 → a.positionQty = 0
  cash : 0 ≤ b.cash ∧ b.cash ≤ a.cash
  cash_pos : 0 < a.cash → 0 < b.cash
  qty : 0 ≤ b.positionQty ∧ b.positionQty ≤ a.positionQty
  qty_pos : 0 < a.positionQty → 0 < b.positionQty

/-- The two fees of the runs, with what is asked of the other costs: the account is not levered,
and a sale costs less than it brings in. -/
structure DearerFee (p : Params) (fee : ℚ) : Prop where
  nonneg : 0 ≤ p.feeRate
  le : p.feeRate ≤ fee
  exit : fee + p.fillSlippageBps / 10000 < 1
  unlevered : p.maxLeverage ≤ 1

variable {lm : Libm} {md : MarketData} {p : Params} {fee : ℚ} {t : ℤ} {a b : AgentState}

/-! ## Orders -/

lemma Dearer.tick_hold (h : Dearer md a b) : Dearer md a.hold b.hold :=
  { h with hold := by simp only [AgentState.hold, h.hold] }

/-- Both sell at the same price, and the second gets less for it. -/
lemma Dearer.closedAt (hfee : DearerFee p fee) (h : Dearer md a b) {price : ℚ}
    (hprice : 0 < price) :
    Dearer md (a.closedAt p false price) (b.closedAt (p.withFee fee) false price) := by
  have hexit : 0 < 1 - (fee + p.fillSlippageBps / 10000) := by linarith [hfee.exit]
  have hexit' : 1 - (fee + p.fillSlippageBps / 10000) ≤
      1 - (p.feeRate + p.fillSlippageBps / 10000) := by linarith [hfee.le]
  have hworth : 0 ≤ b.positionQty * price := mul_nonneg h.qty.1 hprice.le
  have hworth' : b.positionQty * price ≤ a.positionQty * price :=
    mul_le_mul_of_nonneg_right h.qty.2 hprice.le
  have hproceeds := mul_le_mul hworth' hexit' hexit.le (hworth.trans hworth')
  have hproceeds0 := mul_nonneg hworth hexit.le
  refine { h with
    sym := rfl
    hold := rfl
    entry := rfl
    long := by simp only [AgentState.closedAt]; omega
    flat := fun _ => rfl
    cash := ⟨add_nonneg h.cash.1 hproceeds0, add_le_add h.cash.2 hproceeds⟩
    cash_pos := fun hpos => ?_
    qty := ⟨le_rfl, le_rfl⟩
    qty_pos := fun hpos => hpos }
  simp only [AgentState.closedAt, Bool.false_eq_true, if_false] at hpos ⊢
  rcases eq_or_lt_of_le (h.cash.1.trans h.cash.2) with hcash | hcash
  · -- all of the cash comes from the sale
    rw [← hcash, zero_add] at hpos
    have hqty : 0 < a.positionQty := by
      by_contra hqty
      have hzero : a.positionQty = 0 := le_antisymm (not_lt.mp hqty) (h.qty.1.trans h.qty.2)
      rw [hzero, zero_mul, zero_mul] at hpos
      exact lt_irrefl _ hpos
    have hsale := mul_pos (mul_pos (h.qty_pos hqty) hprice) hexit
    exact add_pos_of_nonneg_of_pos h.cash.1 hsale
  · exact add_pos_of_pos_of_nonneg (h.cash_pos hcash) hproceeds0

/-- The results of two orders. -/
def DearerOrder {α : Type} (md : MarketData) (r s : AgentState × α) : Prop :=
  Dearer md r.1 s.1 ∧ s.2 = r.2

/-- Exits. -/
lemma closePosition_dearer (hfee : DearerFee p fee) (hprices : md.PositivePrices)
    (h : Dearer md a b) :
    Rel (DearerOrder md) (closePosition md p t a) (closePosition md (p.withFee fee) t b) := by
  have hlong : decide (a.positionSym ≥ (md.numSymbols : ℤ)) = false := by
    simpa using h.long
  unfold closePosition
  rw [h.sym, h.entry, h.hold, hlong]
  refine Rel.ite (fun _ => Rel.pure ⟨h, rfl⟩) fun _ => ?_
  refine Rel.bind_same fun sym _ => Rel.bind_same fun price hprice => ?_
  refine Rel.ite (fun _ => Rel.pure ⟨h.tick_hold, rfl⟩) fun _ => Rel.pure ⟨?_, rfl⟩
  exact h.closedAt hfee (hprices.getPrice (by decide) hprice)

/-- The order of both runs is refused, or fills at one price for not more of it in the second. -/
def DearerFill (x y : Option (ℚ × ℚ)) : Prop :=
  (x = none ∧ y = none) ∨ ∃ f q q', x = some (f, q) ∧ y = some (f, q') ∧ 0 < q' ∧ q' ≤ q

/-- A buy is sized alike. -/
lemma sizedFill_dearer (hfee : DearerFee p fee) (sym : ℤ) (alloc level : ℚ)
    (h : Dearer md a b) :
    Rel DearerFill (sizedFill md p t sym alloc level true a.cash)
      (sizedFill md (p.withFee fee) t sym alloc level true b.cash) := by
  have hnone : DearerFill none none := .inl ⟨rfl, rfl⟩
  have hcash : a.cash ≤ 0 ↔ b.cash ≤ 0 := by
    constructor
    · exact fun ha => h.cash.2.trans ha
    · intro hb
      by_contra ha
      exact absurd (h.cash_pos (not_le.mp ha)) (not_lt.mpr hb)
  unfold sizedFill
  refine Rel.bind_same fun ref _ => ?_
  refine Rel.ite_iff (or_congr Iff.rfl hcash) (fun _ => Rel.pure hnone) fun hpos => ?_
  rw [not_or, not_le, not_le] at hpos
  refine Rel.ite (fun _ => Rel.pure hnone) fun _ => ?_
  refine Rel.bind_same fun fill _ => ?_
  cases fill with
  | none => exact Rel.pure hnone
  | some f =>
    refine Rel.ite (fun _ => Rel.pure hnone) fun halloc => ?_
    have hclamp : 0 < clampAllocation alloc := by
      unfold clampAllocation
      split <;> linarith
    have hbpos := h.cash_pos hpos.2
    have hrate : 0 < 1 + p.feeRate := by linarith [hfee.nonneg]
    have hrate' : 0 < 1 + fee := by linarith [hfee.nonneg, hfee.le]
    -- neither sign depends on the fee or on how much cash there is
    have hbudget (cash : ℚ) (hc : 0 < cash) :
        cash * p.maxLeverage * clampAllocation alloc ≤ 0 ↔ p.maxLeverage ≤ 0 := by
      rw [← not_lt, ← not_lt, mul_pos_iff_of_pos_right hclamp, mul_pos_iff_of_pos_left hc]
    have hdenom (rate : ℚ) (hr : 0 < rate) : f * rate ≤ 0 ↔ f ≤ 0 := by
      rw [← not_lt, ← not_lt, mul_pos_iff_of_pos_right hr]
    refine Rel.ite_iff ((hbudget _ hpos.2).trans (hbudget _ hbpos).symm)
      (fun _ => Rel.pure hnone) fun hlev => ?_
    refine Rel.ite_iff ((hdenom _ hrate).trans (hdenom _ hrate').symm)
      (fun _ => Rel.pure hnone) fun hf => ?_
    rw [hbudget _ hpos.2] at hlev
    rw [hdenom _ hrate] at hf
    intro x y hx hy
    obtain ⟨q, hq, hx⟩ := bind_eq_ok.mp hx
    obtain ⟨q', hq', hy⟩ := bind_eq_ok.mp hy
    obtain ⟨-, rfl⟩ := fdiv_eq_ok hq
    obtain ⟨-, rfl⟩ := fdiv_eq_ok hq'
    have hlow : 0 < f * (1 + p.feeRate) := mul_pos (not_le.mp hf) hrate
    have hhigh : f * (1 + p.feeRate) ≤ f * (1 + fee) :=
      mul_le_mul_of_nonneg_left (by linarith [hfee.le]) (not_le.mp hf).le
    have hspent : 0 < b.cash * p.maxLeverage * clampAllocation alloc :=
      mul_pos (mul_pos hbpos (not_le.mp hlev)) hclamp
    have hspent' : b.cash * p.maxLeverage * clampAllocation alloc ≤
        a.cash * p.maxLeverage * clampAllocation alloc := by
      have hlev' := not_le.mp hlev
      gcongr
      exact h.cash.2
    have hqty := div_pos hspent (hlow.trans_le hhigh)
    have hqty' := div_le_div₀ (hspent.le.trans hspent') hspent' hlow hhigh
    rw [if_neg (not_le.mpr (hqty.trans_le hqty'))] at hx
    replace hy : (if b.cash * p.maxLeverage * clampAllocation alloc / (f * (1 + fee)) ≤ 0 then
        pure none else pure (some (f, _)) : Checked (Option (ℚ × ℚ))) = .ok y := hy
    rw [if_neg (not_le.mpr hqty)] at hy
    exact .inr ⟨f, _, _, (pure_eq_ok.mp hx).symm, (pure_eq_ok.mp hy).symm, hqty, hqty'⟩

/-- What is left of the cash after a buy on an account that is not levered. -/
lemma cash_after_buy (cash : ℚ) {lev alloc : ℚ} (hlev : lev ≤ 1)
    (halloc : 0 < alloc) : cash - cash * lev * clampAllocation alloc =
      cash * (1 - lev * clampAllocation alloc) ∧ 0 ≤ 1 - lev * clampAllocation alloc := by
  have hclamp : clampAllocation alloc ≤ 1 ∧ 0 < clampAllocation alloc := by
    unfold clampAllocation
    split
    · exact ⟨le_rfl, one_pos⟩
    · exact ⟨not_lt.mp ‹_›, halloc⟩
  refine ⟨by ring, ?_⟩
  have hle := mul_le_one₀ hlev hclamp.2.le hclamp.1
  linarith

/-- Entries. -/
lemma openLong_dearer (hfee : DearerFee p fee) {sym : ℤ}
    (hsym : 0 ≤ sym ∧ sym < md.numSymbols) (alloc level : ℚ) (h : Dearer md a b) :
    Rel (Dearer md) (openLong md p t sym alloc level a)
      (openLong md (p.withFee fee) t sym alloc level b) := by
  intro a' b' ha hb
  have hta : openTarget md p t false sym alloc level a = .ok a' := ha
  have htb : openTarget md (p.withFee fee) t false sym alloc level b = .ok b' := hb
  obtain ⟨x, hx, -⟩ := bind_eq_ok.mp ha
  obtain ⟨y, hy, -⟩ := bind_eq_ok.mp hb
  rcases sizedFill_dearer hfee sym alloc level h x y hx hy with ⟨rfl, rfl⟩ |
    ⟨f, q, q', rfl, rfl, hq', hqq'⟩
  · have hx' : sizedFill md p t sym alloc level (!false) a.cash = .ok none := hx
    have hy' : sizedFill md (p.withFee fee) t sym alloc level (!false) b.cash = .ok none := hy
    rw [openTarget_of_none hx'] at hta
    rw [openTarget_of_none hy'] at htb
    cases hta
    cases htb
    exact h
  · have hx' : sizedFill md p t sym alloc level (!false) a.cash = .ok (some (f, q)) := hx
    have hy' : sizedFill md (p.withFee fee) t sym alloc level (!false) b.cash =
      .ok (some (f, q')) := hy
    rw [openTarget_of_some hx'] at hta
    rw [openTarget_of_some hy'] at htb
    cases hta
    cases htb
    obtain ⟨hcash, -, -, halloc, hcost, -⟩ := sizedFill_spec hx
    obtain ⟨hcash', -, -, -, hcost', -⟩ := sizedFill_spec hy
    obtain ⟨hleft, hshare⟩ := cash_after_buy a.cash hfee.unlevered halloc
    obtain ⟨hleft', -⟩ := cash_after_buy b.cash hfee.unlevered halloc
    have hcost'' : q' * (f * (1 + fee)) = b.cash * p.maxLeverage * clampAllocation alloc := hcost'
    refine { h with
      sym := rfl
      hold := rfl
      entry := rfl
      long := by simpa [AgentState.entered, targetPosId] using hsym.2
      flat := fun hneg => ?_
      cash := ?_
      cash_pos := ?_
      qty := ⟨hq'.le, hqq'⟩
      qty_pos := fun _ => hq' }
    · simp only [AgentState.entered, targetPosId, Bool.false_eq_true, if_false] at hneg
      omega
    · simp only [AgentState.entered, Bool.false_eq_true, if_false, Params.withFee, hcost,
        hcost'', hleft, hleft']
      exact ⟨mul_nonneg hcash'.le hshare, mul_le_mul_of_nonneg_right h.cash.2 hshare⟩
    · simp only [AgentState.entered, Bool.false_eq_true, if_false, Params.withFee, hcost,
        hcost'', hleft, hleft']
      intro hpos
      exact mul_pos hcash' (pos_of_mul_pos_right hpos hcash.le)

/-! ## Actions -/

lemma curTradable_dearer (h : Dearer md a b) : curTradable md t b = curTradable md t a := by
  unfold curTradable
  rw [h.sym]

/-- The forced close. -/
lemma forceClose_dearer (hfee : DearerFee p fee) (hprices : md.PositivePrices)
    (h : Dearer md a b) :
    Rel (DearerOrder md) (forceClose md p t a) (forceClose md (p.withFee fee) t b) := by
  unfold forceClose
  rw [h.sym, h.hold]
  refine Rel.ite (fun _ => ?_) fun _ => Rel.pure ⟨h, rfl⟩
  refine Rel.bind_same fun sym _ => Rel.bind_same fun isOpen _ => ?_
  refine Rel.ite (fun _ => ?_) fun _ => Rel.pure ⟨h, rfl⟩
  refine (closePosition_dearer hfee hprices h).bind fun r s hrs => ?_
  exact Rel.pure ⟨hrs.1, by rw [hrs.2]⟩

/-- Going flat. -/
lemma goFlat_dearer (hfee : DearerFee p fee) (hprices : md.PositivePrices) (tradable : Bool)
    (h : Dearer md a b) :
    Rel (DearerOrder md) (goFlat md p t tradable a) (goFlat md (p.withFee fee) t tradable b) := by
  unfold goFlat
  rw [h.sym]
  refine Rel.ite (fun _ => ?_) fun _ => Rel.pure ⟨h, rfl⟩
  refine Rel.ite (fun _ => ?_) fun _ => Rel.pure ⟨h.tick_hold, rfl⟩
  refine (closePosition_dearer hfee hprices h).bind fun r s hrs => ?_
  exact Rel.pure ⟨hrs.1, by rw [hrs.2]⟩

/-- The order of a switch. -/
lemma enterTarget_dearer (hfee : DearerFee p fee) {sym : ℤ}
    (hsym : 0 ≤ sym ∧ sym < md.numSymbols) (alloc level : ℚ) (rng : UInt64) (events : ℤ)
    (h : Dearer md a b) :
    Rel (DearerOrder md) (enterTarget md p t false sym alloc level a rng events)
      (enterTarget md (p.withFee fee) t false sym alloc level b rng events) := by
  unfold enterTarget openTarget
  dsimp only
  refine Rel.ite (fun _ => ?_) fun _ => Rel.pure ⟨h, rfl⟩
  refine (openLong_dearer hfee hsym alloc level h).bind fun a' b' hab => ?_
  refine Rel.pure ⟨hab, ?_⟩
  rw [hab.sym]
  rfl

/-- A long target. -/
lemma goTarget_dearer (hfee : DearerFee p fee) (hprices : md.PositivePrices) (tradable : Bool)
    {sym : ℤ} (hsym : 0 ≤ sym ∧ sym < md.numSymbols) (allocIdx levelIdx : ℤ) (rng : UInt64)
    (h : Dearer md a b) :
    Rel (DearerOrder md) (goTarget md p t tradable false sym allocIdx levelIdx a rng)
      (goTarget md (p.withFee fee) t tradable false sym allocIdx levelIdx b rng) := by
  unfold goTarget
  rw [h.sym]
  refine Rel.bind_same fun alloc _ => Rel.bind_same fun level _ => ?_
  refine Rel.bind_same fun isOpen _ => ?_
  refine Rel.ite (fun _ => Rel.pure ⟨h.tick_hold, rfl⟩) fun _ => ?_
  refine Rel.ite (fun _ => Rel.pure ⟨?_, rfl⟩) fun _ => ?_
  · dsimp only
    split
    · exact h.tick_hold
    · exact h
  refine Rel.ite (fun _ => Rel.pure ⟨h.tick_hold, rfl⟩) fun _ => ?_
  refine Rel.ite (fun _ => ?_) fun _ => enterTarget_dearer hfee hsym _ _ _ _ h
  refine (closePosition_dearer hfee hprices h).bind fun r s hrs => ?_
  obtain ⟨hrs, hclosed⟩ := hrs
  dsimp only
  rw [hclosed]
  exact Rel.ite (fun _ => enterTarget_dearer hfee hsym _ _ _ _ hrs) fun _ => Rel.pure ⟨hrs, rfl⟩

/-- The action of a step. -/
lemma applyAction_dearer (hfee : DearerFee p fee) (hprices : md.PositivePrices) (tradable : Bool)
    {action : ℤ} (hlong : LongOnly p md.numSymbols action) (rng : UInt64) (h : Dearer md a b) :
    Rel (DearerOrder md) (applyAction md p t tradable action a rng)
      (applyAction md (p.withFee fee) t tradable action b rng) := by
  obtain ⟨d, hd, hrange⟩ := decodeAction_returns p md.numSymbols action
  have hd' : decodeAction (p.withFee fee) md.numSymbols action = .ok d := hd
  unfold applyAction
  rw [bind_of_eq_ok hd, bind_of_eq_ok hd']
  cases d with
  | flat =>
    refine (goFlat_dearer hfee hprices tradable h).bind fun r s hrs => ?_
    exact Rel.pure ⟨hrs.1, by rw [hrs.2]⟩
  | target isShort sym allocIdx levelIdx =>
    obtain rfl := hlong _ _ _ _ hd
    exact goTarget_dearer hfee hprices tradable hrange _ _ rng h
  | invalid => exact Rel.pure ⟨h, rfl⟩

/-- **Trading.** Both runs do the same at a bar, and the second is left with less. -/
theorem executeBar_dearer (hfee : DearerFee p fee) (hprices : md.PositivePrices) {action : ℤ}
    (hlong : LongOnly p md.numSymbols action) (rng : UInt64) (h : Dearer md a b) :
    Rel (fun x y : Executed => Dearer md x.agent y.agent ∧ y.rng = x.rng)
      (executeBar md p a rng action) (executeBar md (p.withFee fee) b rng action) := by
  have hrow : tradeRow md b = tradeRow md a := by
    simp only [tradeRow, h.offset, h.step]
  unfold executeBar
  rw [hrow]
  refine (forceClose_dearer hfee hprices h).bind fun r s hrs => ?_
  obtain ⟨hrs, -⟩ := hrs
  dsimp only
  rw [curTradable_dearer hrs]
  refine Rel.bind_same fun tradable _ => Rel.bind_same fun any _ => ?_
  refine Rel.bind Rel.trivial fun _ _ _ => ?_
  refine (applyAction_dearer hfee hprices tradable hlong rng hrs).bind fun r' s' hrs' => ?_
  exact Rel.pure ⟨hrs'.1, congrArg Prod.fst hrs'.2⟩

/-! ## Valuation -/

/-- The second portfolio is not worth more. -/
lemma computeEquity_dearer (hprices : md.PositivePrices) (h : Dearer md a b) :
    Rel (fun x y => y ≤ x) (computeEquity md t a) (computeEquity md t b) := by
  unfold computeEquity
  rw [h.sym]
  refine Rel.ite (fun _ => ?_) fun _ => Rel.pure h.cash.2
  refine Rel.bind_same fun sym _ => Rel.bind_same fun price hprice => ?_
  have hpos := hprices.getPrice (by decide) hprice
  refine Rel.ite (fun hshort => absurd h.long (not_lt.mpr hshort)) fun _ => Rel.pure ?_
  exact add_le_add h.cash.2 (mul_le_mul_of_nonneg_right h.qty.2 hpos.le)

/-- A position that is flat, or long without leverage, borrows nothing. -/
lemma borrowFee_unlevered (hlev : p.maxLeverage ≤ 1) (hlong : a.positionSym < md.numSymbols) :
    Ensures (borrowFee md p t a) fun fee => fee = 0 := by
  unfold borrowFee
  refine Ensures.ite (fun _ => Ensures.pure rfl) fun _ => ?_
  refine Ensures.self.bind fun sym _ => Ensures.self.bind fun price _ => ?_
  refine Ensures.ite (fun _ => Ensures.pure rfl) fun _ => ?_
  refine Ensures.ite (fun hshort => absurd hlong (not_lt.mpr hshort)) fun _ => ?_
  exact Ensures.ite (fun hlev' => absurd hlev (not_le.mpr hlev')) fun _ => Ensures.pure rfl

lemma AgentState.charge_zero (ag : AgentState) : ag.charge 0 = ag := by
  simp [AgentState.charge]

lemma Dearer.trackReturn (h : Dearer md a b) (ret ret' : ℚ) :
    Dearer md (a.trackReturn ret) (b.trackReturn ret') := { h with }

lemma Dearer.trackPeak (h : Dearer md a b) (equity equity' : ℚ) :
    Dearer md (a.trackPeak equity) (b.trackPeak equity') := { h with }

lemma Dearer.withDrawdown (h : Dearer md a b) (dd dd' : ℚ) :
    Dearer md { a with maxDrawdown := dd } { b with maxDrawdown := dd' } := { h with }

/-- Marking at the next bar. -/
lemma markToMarket_dearer (hfee : DearerFee p fee) (hprices : md.PositivePrices)
    {x y : Executed} (h : Dearer md x.agent y.agent) :
    Rel (fun m m' : Marked => Dearer md m.agent m'.agent ∧ m'.equityAfter ≤ m.equityAfter ∧
        m'.tNew = m.tNew)
      (markToMarket md p x) (markToMarket md (p.withFee fee) y) := by
  have htick : Dearer md x.agent.tick y.agent.tick :=
    { h with step := by simp only [AgentState.tick, h.step] }
  have hrow : tradeRow md y.agent.tick = tradeRow md x.agent.tick := by
    simp only [tradeRow, htick.offset, htick.step]
  unfold markToMarket
  dsimp only
  rw [hrow]
  refine (computeEquity_dearer hprices htick).bind fun equity equity' hequity => ?_
  refine Rel.bind (R := fun u v => u = 0 ∧ v = 0) ?_ fun u v huv => ?_
  · intro u v hu hv
    exact ⟨borrowFee_unlevered hfee.unlevered htick.long u hu,
      borrowFee_unlevered (p := p.withFee fee) hfee.unlevered (htick.sym ▸ htick.long) v hv⟩
  obtain ⟨rfl, rfl⟩ := huv
  refine Rel.bind Rel.trivial fun _ _ _ => ?_
  refine Rel.bind (R := fun r s => Dearer md r.1 s.1) ?_ fun r s hrs =>
    Rel.pure ⟨hrs, by simpa using hequity, rfl⟩
  intro r s hr hs
  obtain ⟨_, hr, -⟩ := trackDrawdown_eq_ok hr
  obtain ⟨_, hs, -⟩ := trackDrawdown_eq_ok hs
  rw [hr, hs, AgentState.charge_zero, AgentState.charge_zero]
  exact ((htick.trackReturn _ _).trackPeak _ _).withDrawdown _ _

/-! ## Runs -/

/-- A fresh agent, in both runs. -/
lemma dearer_initial (md : MarketData) (dataOffset : ℤ) :
    Dearer md (.initial dataOffset) (.initial dataOffset) := by
  refine ⟨rfl, rfl, rfl, rfl, rfl, ⟨rfl, rfl⟩, ?_, fun _ => rfl, ⟨?_, le_rfl⟩, id, ⟨le_rfl, le_rfl⟩,
    id⟩
  · simp only [AgentState.initial]
    omega
  · norm_num [AgentState.initial, initialCash]

/-- **Runs.** As long as both episodes are running, the agents hold the same position, and the
second has neither more of it nor more cash. -/
theorem underway_dearer (hfee : DearerFee p fee) (hprices : md.PositivePrices) {env : EnvState}
    {actions : List ℤ} {e₁ e₂ : EnvState} (hlong : ∀ action ∈ actions,
      LongOnly p md.numSymbols action) (h₁ : Underway lm md p env actions e₁)
    (h₂ : Underway lm md (p.withFee fee) env actions e₂) :
    Dearer md e₁.agent e₂.agent ∧ e₂.rng = e₁.rng ∧ e₁.log = env.log ∧ e₂.log = env.log := by
  induction h₁ generalizing e₂ with
  | reset h₁ =>
    have h₂ := h₂.of_nil
    obtain ⟨obs, -, h₁⟩ := bind_eq_ok.mp h₁
    obtain ⟨obs', -, h₂⟩ := bind_eq_ok.mp h₂
    rw [← pure_eq_ok.mp h₁, ← pure_eq_ok.mp h₂]
    exact ⟨dearer_initial md _, rfl, rfl, rfl⟩
  | @step actions a e e' hrun hstep hlive ih =>
    obtain ⟨f, hrun₂, hstep₂, hlive₂⟩ := h₂.of_concat
    obtain ⟨hagent, hrng, hlog, hlog₂⟩ := ih (fun b hb => hlong b (by simp [hb])) hrun₂
    obtain ⟨x, m, -, hx, hm, -, he', hxrng, -⟩ := cStep_eq_ok hstep hlive
    obtain ⟨y, m', -, hy, hm', -, hf', hyrng, -⟩ := cStep_eq_ok hstep₂ hlive₂
    rw [hrng] at hy
    obtain ⟨hxy, hrng'⟩ := executeBar_dearer hfee hprices (hlong a (by simp)) e.rng hagent x y
      hx hy
    have hmarked := (markToMarket_dearer hfee hprices hxy m m' hm hm').1
    rw [he', hf', hxrng, hyrng, cStep_log hstep hlive, cStep_log hstep₂ hlive₂]
    exact ⟨{ hmarked with }, hrng', hlog, hlog₂⟩

/-- The closing of the last position: the second run settles for no more. -/
lemma finalClose_dearer (hfee : DearerFee p fee) (hprices : md.PositivePrices)
    (h : Dearer md a b) :
    Rel (fun r s => s.2 ≤ r.2) (finalClose md p t a) (finalClose md (p.withFee fee) t b) := by
  unfold finalClose
  rw [h.sym]
  refine Rel.ite (fun _ => ?_) fun _ => Rel.pure h.cash.2
  refine (closePosition_dearer hfee hprices h).bind fun r s hrs => ?_
  obtain ⟨hrs, hclosed⟩ := hrs
  dsimp only
  rw [hclosed]
  refine Rel.ite (fun _ => Rel.pure hrs.cash.2) fun _ => ?_
  exact (computeEquity_dearer hprices hrs).bind fun equity equity' hequity => Rel.pure hequity

/-- **Fees.** Two runs of the same actions at two fee rates, of which the second is not lower, on
data with positive prices: the actions ask for no short, the account is not levered, and a sale
costs less than it brings in. As long as both episodes are running, the two agents hold the same
symbol since the same price, and at the second fee there is neither more of it nor more cash nor
more equity at any row. When both end their episode at the same step, the second does not log a
higher return.

**Proof sketch.** Induction on the run, with `Dearer` as the invariant. Every branch of a step
reads the symbol, the hold clock, the entry price and the sign of the cash, on which the two
agents agree; a buy spends the same share of the cash at both fees. -/
theorem equity_antitone_fee (lm : Libm) (md : MarketData) (p : Params) (fee : ℚ)
    (hprices : md.PositivePrices) (hfee : DearerFee p fee) (env : EnvState) (actions : List ℤ)
    (hlong : ∀ action ∈ actions, LongOnly p md.numSymbols action) (e₁ e₂ : EnvState)
    (h₁ : Underway lm md p env actions e₁) (h₂ : Underway lm md (p.withFee fee) env actions e₂) :
    (e₂.agent.positionSym = e₁.agent.positionSym ∧ e₂.agent.entryPrice = e₁.agent.entryPrice ∧
      e₂.agent.positionQty ≤ e₁.agent.positionQty ∧ e₂.agent.cash ≤ e₁.agent.cash ∧
      ∀ t x y, computeEquity md t e₁.agent = .ok x → computeEquity md t e₂.agent = .ok y →
        y ≤ x) ∧
    ∀ action e₁' e₂', LongOnly p md.numSymbols action → cStep lm md p e₁ action = .ok e₁' →
      cStep lm md (p.withFee fee) e₂ action = .ok e₂' → e₁'.terminal = true →
      e₂'.terminal = true → e₂'.log.totalReturn ≤ e₁'.log.totalReturn := by
  obtain ⟨hagent, hrng, hlog, hlog₂⟩ := underway_dearer hfee hprices hlong h₁ h₂
  refine ⟨⟨hagent.sym, hagent.entry, hagent.qty.2, hagent.cash.2, fun t x y hx hy =>
    computeEquity_dearer hprices hagent x y hx hy⟩, ?_⟩
  intro action e₁' e₂' haction hstep hstep₂ hend hend₂
  obtain ⟨x, m, hx, hm, -⟩ := cStep_cases hstep
  obtain ⟨y, m', hy, hm', -⟩ := cStep_cases hstep₂
  have hends := cStep_ends hx hm hstep
  have hends₂ := cStep_ends hy hm' hstep₂
  rw [hend] at hends
  rw [hend₂] at hends₂
  obtain ⟨-, r, hr, hrlog⟩ := cStep_done hx hm hends hstep
  obtain ⟨-, s, hs, hslog⟩ := cStep_done hy hm' hends₂ hstep₂
  rw [hrng] at hy
  have hxy := (executeBar_dearer hfee hprices haction e₁.rng hagent x y hx hy).1
  obtain ⟨hmarked, -, hrow⟩ := markToMarket_dearer hfee hprices hxy m m' hm hm'
  have hmarked' : Dearer md { m.agent with prevRet := m.ret }
      { m'.agent with prevRet := m'.ret } := { hmarked with }
  rw [hrow] at hs
  have hsettled := finalClose_dearer hfee hprices hmarked' r s hr hs
  have hinit : r.1.initialEquity = initialCash := by
    rw [(finalClose_record r hr).initial]
    exact hmarked.initial.1
  have hinit₂ : s.1.initialEquity = initialCash := by
    rw [(finalClose_record s hs).initial]
    exact hmarked.initial.2
  rw [(logEpisode_eq_ok hrlog).totalReturn, (logEpisode_eq_ok hslog).totalReturn, hlog, hlog₂,
    hinit, hinit₂]
  have hcash : 0 < initialCash := by norm_num [initialCash]
  gcongr

/-- The parameters of the next theorem: two steps from row `0`. -/
def twoSteps : Params := { keelEnvCreate with forcedOffset := 0, maxSteps := 2 }

/-- The episode ends with a flat action. -/
def endsFlat (p : Params) (e : EnvState) : Bool :=
  (cStep .firstOrder (rowMarket 9 fun t => 100 + t) p e 0).toOption.map (·.terminal) == some true

/-- A long is bought and closed again, at ten times the fee in the second run. -/
theorem equity_antitone_fee_tenfold :
    ∃ e₁ e₂ e₁' e₂', Underway .firstOrder (rowMarket 9 fun t => 100 + t) twoSteps (.zero 7) [1] e₁ ∧
      Underway .firstOrder (rowMarket 9 fun t => 100 + t) (twoSteps.withFee (1 / 100)) (.zero 7)
        [1] e₂ ∧
      cStep .firstOrder (rowMarket 9 fun t => 100 + t) twoSteps e₁ 0 = .ok e₁' ∧
      cStep .firstOrder (rowMarket 9 fun t => 100 + t) (twoSteps.withFee (1 / 100)) e₂ 0 =
        .ok e₂' ∧
      e₂.agent.positionQty ≤ e₁.agent.positionQty ∧
      e₂'.log.totalReturn ≤ e₁'.log.totalReturn := by
  have hprices : (rowMarket 9 fun t => 100 + t).PositivePrices := by
    intro t s k _ _ _
    show (0 : ℚ) < 100 + t
    positivity
  have hfee : DearerFee twoSteps (1 / 100) := by
    constructor <;> norm_num [twoSteps, keelEnvCreate]
  have hbuy : LongOnly twoSteps 1 1 := by
    intro isShort sym allocIdx levelIdx hd
    have hd' : decodeAction twoSteps 1 1 = .ok (.target false 0 0 0) := by decide
    rw [hd'] at hd
    cases hd
    rfl
  have hflat : LongOnly twoSteps 1 0 := by
    intro isShort sym allocIdx levelIdx hd
    have hd' : decodeAction twoSteps 1 0 = .ok .flat := by decide
    rw [hd'] at hd
    cases hd
  have hrun₁ : (episode .firstOrder (rowMarket 9 fun t => 100 + t) twoSteps (.zero 7)
      [1]).toOption.map (fun e => !e.terminal && endsFlat twoSteps e) = some true := by
    decide +kernel
  have hrun₂ : (episode .firstOrder (rowMarket 9 fun t => 100 + t) (twoSteps.withFee (1 / 100))
      (.zero 7) [1]).toOption.map
        (fun e => !e.terminal && endsFlat (twoSteps.withFee (1 / 100)) e) = some true := by
    decide +kernel
  obtain ⟨e₁, h₁, hend₁⟩ := Underway.exists_single hrun₁
  obtain ⟨e₂, h₂, hend₂⟩ := Underway.exists_single hrun₂
  obtain ⟨e₁', hstep₁, hterm₁⟩ := exists_of_toOption (eq_of_beq hend₁)
  obtain ⟨e₂', hstep₂, hterm₂⟩ := exists_of_toOption (eq_of_beq hend₂)
  obtain ⟨⟨-, -, hqty, -⟩, hreturn⟩ := equity_antitone_fee .firstOrder _ twoSteps (1 / 100) hprices
    hfee (.zero 7) [1] (fun action h => List.mem_singleton.mp h ▸ hbuy) e₁ e₂ h₁ h₂
  exact ⟨e₁, e₂, e₁', e₂', h₁, h₂, hstep₁, hstep₂, hqty,
    hreturn 0 e₁' e₂' hflat hstep₁ hstep₂ hterm₁ hterm₂⟩

end KeelTrader.Sim
