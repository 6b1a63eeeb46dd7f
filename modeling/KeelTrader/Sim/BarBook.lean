import KeelTrader.Sim.HoldClock

set_option relaxedAutoImplicit false
set_option autoImplicit false

/-!
# The book after a bar

What the trading of a bar leaves an agent with, read off the agent before the bar, the action, the
word of the generator and the prices of the row. A held position is carried over the bar, with one
tick of its clock or two, or it is sold at the open; an agent without one places the order of the
action, or none.

## Main definitions

* `KeelTrader.Sim.orderFill`, `placedOrder` — the order of an action.
* `KeelTrader.Sim.Leaves` — the action gives the held position up, in open markets.
* `KeelTrader.Sim.KeepsPosition` — the position is carried over the bar.
* `KeelTrader.Sim.AgentState.booked` — the agent after the bar.

## Main results

* `KeelTrader.Sim.applyAction_flat_booked`, `applyAction_held_booked` — what an action does.
* `KeelTrader.Sim.executeBar_booked` — what the trading of a bar does.
-/

namespace KeelTrader.Sim

open Checked

/-! ## Orders -/

/-- The part of the cash that an allocation bin stands for. -/
def Params.allocation (p : Params) (allocIdx : ℤ) : ℚ :=
  if p.actionAllocationBins ≤ 1 then 1
  else
    let bin := min (max allocIdx 0) (p.actionAllocationBins - 1)
    min (max ((bin + 1 : ℤ) / (p.actionAllocationBins : ℚ)) (1 / 100)) 1

/-- The offset of the limit price that a level bin stands for, in basis points. -/
def Params.levelOffset (p : Params) (levelIdx : ℤ) : ℚ :=
  if p.actionLevelBins ≤ 1 ∨ p.actionMaxOffsetBps ≤ 0 then 0
  else
    let bin := min (max levelIdx 0) (p.actionLevelBins - 1)
    (2 * ((bin : ℤ) / ((p.actionLevelBins - 1 : ℤ) : ℚ)) - 1) * p.actionMaxOffsetBps

/-- The fill price and the quantity of an order for the part `alloc` of the levered cash, at a
limit that is `level` basis points off the open of row `t`. -/
def orderFill (md : MarketData) (p : Params) (t sym : ℤ) (alloc level : ℚ) (isBuy : Bool)
    (cash : ℚ) : Option (ℚ × ℚ) :=
  let price := md.prices t.toNat sym.toNat
  let limit := price .pOpen * (1 + level / 10000)
  let budget := cash * p.maxLeverage * clampAllocation alloc
  if 0 < price .pOpen ∧ 0 < cash ∧ 0 < limit ∧ 0 < alloc ∧ 0 < budget then
    (limitFillPrice p.fillBufferBps p.fillSlippageBps (price .pLow) (price .pHigh) limit
      isBuy).bind fun fill =>
        if 0 < fill * (1 + p.feeRate) then some (fill, budget / (fill * (1 + p.feeRate)))
        else none
  else none

/-- The order that the action places for an agent without a position: its side, its symbol, the
fill price and the quantity. The market has to be open and the fill gate has to let it pass. -/
def placedOrder (md : MarketData) (p : Params) (t : ℤ) (rng : UInt64) (action : ℤ) (cash : ℚ) :
    Option (Bool × ℤ × ℚ × ℚ) :=
  match decodeAction p md.numSymbols action with
  | .ok (.target isShort sym allocIdx levelIdx) =>
    if md.maskAt t.toNat sym.toNat = true ∧ (fillGate p rng).1 = true then
      (orderFill md p t sym (p.allocation allocIdx) (p.levelOffset levelIdx) (!isShort) cash).map
        fun fill => (isShort, sym, fill.1, fill.2)
    else none
  | _ => none

/-! ## Positions -/

/-- The action gives the held position up, for cash or for another target, and the markets that
this takes are open. -/
def Leaves (md : MarketData) (p : Params) (t action : ℤ) (ag : AgentState) : Bool :=
  md.maskAt t.toNat (ag.positionSym % md.numSymbols).toNat &&
    match decodeAction p md.numSymbols action with
    | .ok .flat => true
    | .ok (.target isShort sym _ _) =>
      decide (ag.positionSym ≠ targetPosId md.numSymbols isShort sym) &&
        md.maskAt t.toNat sym.toNat
    | _ => false

/-- The agent after a forced close that the guard refuses, if there is one: its clock ticks. -/
def AgentState.pressed (md : MarketData) (p : Params) (t : ℤ) (ag : AgentState) : AgentState :=
  if ForcedRefused md p t ag then ag.hold else ag

/-- The position is carried over the bar: there is one, the guard refuses a forced close, and it
refuses the exit of an action that gives the position up. -/
def KeepsPosition (md : MarketData) (p : Params) (t action : ℤ) (ag : AgentState) : Prop :=
  0 ≤ ag.positionSym ∧ (HeldTooLong md p t ag → RefusedAt md p t ag) ∧
    (Leaves md p t action ag = true → RefusedAt md p t (ag.pressed md p t))

instance (md : MarketData) (p : Params) (t action : ℤ) (ag : AgentState) :
    Decidable (KeepsPosition md p t action ag) := inferInstanceAs (Decidable (_ ∧ _ ∧ _))

/-- The agent with its position carried over the bar: the clock ticks for a refused forced close
and for a valid action. -/
def AgentState.carried (md : MarketData) (p : Params) (t action : ℤ) (ag : AgentState) :
    AgentState :=
  if ValidAction p md.numSymbols action then (ag.pressed md p t).hold else ag.pressed md p t

/-- The agent without its position, which is sold or bought back at the open of row `t`. -/
def AgentState.flattened (md : MarketData) (p : Params) (t : ℤ) (ag : AgentState) : AgentState :=
  if 0 ≤ ag.positionSym then
    ag.closedAt p (decide (ag.positionSym ≥ md.numSymbols)) (md.priceOf t .pOpen ag)
  else ag

/-- The agent after an order. -/
def AgentState.ordered (md : MarketData) (p : Params) (ag : AgentState) :
    Option (Bool × ℤ × ℚ × ℚ) → AgentState
  | some (isShort, sym, price, qty) => ag.entered md p isShort sym price qty
  | none => ag

/-- The agent after the trading of the bar at row `t`. -/
def AgentState.booked (md : MarketData) (p : Params) (t : ℤ) (rng : UInt64) (action : ℤ)
    (ag : AgentState) : AgentState :=
  if KeepsPosition md p t action ag then ag.carried md p t action
  else (ag.flattened md p t).ordered md p
    (placedOrder md p t rng action (ag.flattened md p t).cash)

variable {md : MarketData} {p : Params} {t action : ℤ} {ag : AgentState} {rng : UInt64}

/-! ## What an order does -/

/-- A bin outside the range is taken for the nearest one in it. -/
lemma bin_clamped (bins idx : ℤ) (hbins : 1 ≤ bins) :
    (if (if idx < 0 then 0 else idx) ≥ bins then bins - 1 else if idx < 0 then 0 else idx) =
      min (max idx 0) (bins - 1) := by
  split_ifs <;> omega

lemma actionAllocationPct_eq_ok {allocIdx : ℤ} {alloc : ℚ}
    (h : actionAllocationPct p allocIdx = .ok alloc) : alloc = p.allocation allocIdx := by
  unfold actionAllocationPct at h
  unfold Params.allocation
  by_cases hbins : p.actionAllocationBins ≤ 1
  · rw [if_pos hbins] at h ⊢
    exact (pure_eq_ok.mp h).symm
  · rw [if_neg hbins] at h ⊢
    obtain ⟨pct, hpct, h⟩ := bind_eq_ok.mp h
    obtain ⟨-, rfl⟩ := fdiv_eq_ok hpct
    rw [← pure_eq_ok.mp h, bin_clamped _ _ (by omega)]
    set pct : ℚ := ((min (max allocIdx 0) (p.actionAllocationBins - 1) + 1 : ℤ) : ℚ) /
      (p.actionAllocationBins : ℚ)
    dsimp only
    split_ifs with hlow hhigh hhigh
    · norm_num at hhigh
    · rw [max_eq_right hlow.le, min_eq_left (by norm_num)]
    · rw [max_eq_left (not_lt.mp hlow), min_eq_right hhigh.le]
    · rw [max_eq_left (not_lt.mp hlow), min_eq_left (not_lt.mp hhigh)]

lemma actionLevelOffsetBps_eq_ok {levelIdx : ℤ} {level : ℚ}
    (h : actionLevelOffsetBps p levelIdx = .ok level) : level = p.levelOffset levelIdx := by
  unfold actionLevelOffsetBps at h
  unfold Params.levelOffset
  by_cases hbins : p.actionLevelBins ≤ 1 ∨ p.actionMaxOffsetBps ≤ 0
  · rw [if_pos hbins] at h ⊢
    exact (pure_eq_ok.mp h).symm
  · rw [if_neg hbins] at h ⊢
    obtain ⟨frac, hfrac, h⟩ := bind_eq_ok.mp h
    obtain ⟨-, rfl⟩ := fdiv_eq_ok hfrac
    rw [← pure_eq_ok.mp h, bin_clamped _ _ (by omega)]

/-- **Sizing.** The order that `open_long` and `open_short` size. -/
theorem sizedFill_eq_ok {sym : ℤ} {alloc level cash : ℚ} {isBuy : Bool} {r : Option (ℚ × ℚ)}
    (h : sizedFill md p t sym alloc level isBuy cash = .ok r) :
    r = orderFill md p t sym alloc level isBuy cash := by
  unfold sizedFill at h
  obtain ⟨ref, href, h⟩ := bind_eq_ok.mp h
  obtain ⟨-, -, rfl⟩ := getPrice_eq_ok href
  unfold orderFill
  dsimp only at h ⊢
  split at h
  · next hnone =>
    rw [if_neg fun hall => hnone.elim (not_le.mpr hall.1) (not_le.mpr hall.2.1)]
    exact (pure_eq_ok.mp h).symm
  next hopen =>
  rw [not_or, not_le, not_le] at hopen
  split at h
  · next hlimit =>
    rw [if_neg fun hall => not_le.mpr hall.2.2.1 hlimit]
    exact (pure_eq_ok.mp h).symm
  next hlimit =>
  obtain ⟨fill, hfill, h⟩ := bind_eq_ok.mp h
  obtain ⟨low, hlow, hfill⟩ := bind_eq_ok.mp hfill
  obtain ⟨high, hhigh, hfill⟩ := bind_eq_ok.mp hfill
  obtain ⟨-, -, rfl⟩ := getPrice_eq_ok hlow
  obtain ⟨-, -, rfl⟩ := getPrice_eq_ok hhigh
  rw [pure_eq_ok.mp hfill]
  cases fill with
  | none =>
    rw [Option.bind_none, ite_self]
    exact (pure_eq_ok.mp h).symm
  | some fill =>
    dsimp only at h
    split at h
    · next halloc =>
      rw [if_neg fun hall => not_le.mpr hall.2.2.2.1 halloc]
      exact (pure_eq_ok.mp h).symm
    next halloc =>
    split at h
    · next hbudget =>
      rw [if_neg fun hall => not_le.mpr hall.2.2.2.2 hbudget]
      exact (pure_eq_ok.mp h).symm
    next hbudget =>
    rw [if_pos ⟨hopen.1, hopen.2, not_le.mp hlimit, not_le.mp halloc, not_le.mp hbudget⟩,
      Option.bind_some]
    split at h
    · next hdenom =>
      rw [if_neg (not_lt.mpr hdenom)]
      exact (pure_eq_ok.mp h).symm
    next hdenom =>
    obtain ⟨qty, hqty, h⟩ := bind_eq_ok.mp h
    obtain ⟨-, rfl⟩ := fdiv_eq_ok hqty
    rw [if_neg (not_le.mpr (div_pos (not_le.mp hbudget) (not_le.mp hdenom)))] at h
    rw [if_pos (not_le.mp hdenom)]
    exact (pure_eq_ok.mp h).symm

/-- An entry books the order that is sized, if one is. -/
lemma openTarget_ordered {isShort : Bool} {sym : ℤ} {alloc level : ℚ} {ag' : AgentState}
    (h : openTarget md p t isShort sym alloc level ag = .ok ag') :
    ag' = ag.ordered md p ((orderFill md p t sym alloc level (!isShort) ag.cash).map
      fun fill => (isShort, sym, fill.1, fill.2)) := by
  have hsized : ∃ fill, sizedFill md p t sym alloc level (!isShort) ag.cash = .ok fill := by
    cases isShort with
    | false =>
      obtain ⟨fill, hfill, -⟩ := bind_eq_ok.mp h
      exact ⟨fill, hfill⟩
    | true =>
      obtain ⟨fill, hfill, -⟩ := bind_eq_ok.mp h
      exact ⟨fill, hfill⟩
  obtain ⟨fill, hfill⟩ := hsized
  rw [← sizedFill_eq_ok hfill]
  cases fill with
  | none =>
    rw [openTarget_of_none hfill] at h
    exact (Except.ok.inj h).symm
  | some fq =>
    rw [openTarget_of_some hfill] at h
    exact (Except.ok.inj h).symm

section Targets

variable {isShort : Bool} {sym allocIdx levelIdx : ℤ}
  (hd : decodeAction p md.numSymbols action = .ok (.target isShort sym allocIdx levelIdx))

include hd

/-- In an open market, the entry of an agent books the order of the action. -/
lemma enterTarget_ordered {events : ℤ} {alloc level : ℚ}
    (hopen : md.maskAt t.toNat sym.toNat = true)
    (halloc : actionAllocationPct p allocIdx = .ok alloc)
    (hlevel : actionLevelOffsetBps p levelIdx = .ok level) :
    Ensures (enterTarget md p t isShort sym alloc level ag rng events) fun r =>
      r.1 = ag.ordered md p (placedOrder md p t rng action ag.cash) := by
  unfold enterTarget placedOrder
  rw [hd, actionAllocationPct_eq_ok halloc, actionLevelOffsetBps_eq_ok hlevel]
  dsimp only
  refine Ensures.ite (fun hgate => ?_) fun hgate => ?_
  · rw [if_pos ⟨hopen, hgate⟩]
    exact Ensures.self.bind fun ag' hag' => Ensures.pure (openTarget_ordered hag')
  · rw [if_neg fun h => hgate h.2]
    exact Ensures.pure rfl

end Targets

/-! ## What an action does -/

/-- An exit that is tried sells the position, or lets its clock tick when the guard refuses. -/
lemma closePosition_flattened (hpos : 0 ≤ ag.positionSym) :
    Ensures (closePosition md p t ag) fun r =>
      (RefusedAt md p t ag ∧ r = (ag.hold, false)) ∨
        (¬RefusedAt md p t ag ∧ r = (ag.flattened md p t, true)) := by
  refine (closePosition_exits hpos).mono fun r hr => ?_
  rw [AgentState.flattened, if_pos hpos]
  exact hr

lemma flattened_of_flat (hflat : ag.positionSym < 0) : ag.flattened md p t = ag :=
  if_neg (not_le.mpr hflat)

/-- A position that is given up leaves none. -/
lemma flattened_flat : (ag.flattened md p t).positionSym < 0 := by
  unfold AgentState.flattened
  split
  · exact neg_one_lt_zero
  · next hflat => exact not_le.mp hflat

/-- **Actions of a flat agent.** The order of the action is booked. -/
theorem applyAction_flat_booked (hflat : ag.positionSym < 0) (tradable : Bool) :
    Ensures (applyAction md p t tradable action ag rng) fun r =>
      r.1 = ag.ordered md p (placedOrder md p t rng action ag.cash) := by
  have hnot : ¬ag.positionSym ≥ 0 := not_le.mpr hflat
  unfold applyAction
  refine Ensures.self.bind fun d hd => ?_
  cases d with
  | flat =>
    dsimp only [goFlat]
    rw [if_neg hnot, placedOrder, hd]
    exact Ensures.pure rfl
  | target isShort sym allocIdx levelIdx =>
    dsimp only [goTarget]
    refine Ensures.self.bind fun alloc halloc => Ensures.self.bind fun level hlevel => ?_
    refine Ensures.self.bind fun targetTradable htarget => ?_
    have hne : ag.positionSym ≠ targetPosId md.numSymbols isShort sym := by
      have hrange := (decodeAction_returns p md.numSymbols action).ensures _ hd
      have hpos := (targetPosId_range isShort hrange).1
      omega
    have hmask := isTradable_eq_ok htarget
    rw [if_neg hne]
    refine Ensures.ite (fun hclosed => Ensures.pure ?_) fun hopen => ?_
    · have hshut : ¬(md.maskAt t.toNat sym.toNat = true ∧ (fillGate p rng).1 = true) := by
        rintro ⟨hopen, -⟩
        rw [hmask, hopen] at hclosed
        cases hclosed
      rw [if_neg hnot, placedOrder, hd]
      dsimp only
      rw [if_neg hshut]
      rfl
    · rw [if_neg fun hheld => hnot hheld.1, if_neg hnot]
      refine enterTarget_ordered hd ?_ halloc hlevel
      rw [← hmask]
      simpa using hopen
  | invalid =>
    rw [placedOrder, hd]
    exact Ensures.pure rfl

/-- **Actions of an agent with a position.** It is given up, and the order of the action is booked;
or its clock ticks for a valid action. -/
theorem applyAction_held_booked (hpos : 0 ≤ ag.positionSym) {tradable : Bool}
    (htradable : tradable = md.maskAt t.toNat (ag.positionSym % md.numSymbols).toNat) :
    Ensures (applyAction md p t tradable action ag rng) fun r =>
      r.1 = if Leaves md p t action ag = true ∧ ¬RefusedAt md p t ag
        then (ag.flattened md p t).ordered md p
          (placedOrder md p t rng action (ag.flattened md p t).cash)
        else if ValidAction p md.numSymbols action then ag.hold else ag := by
  unfold applyAction
  refine Ensures.self.bind fun d hd => ?_
  have hvalid := decodeAction_valid hd
  cases d with
  | flat =>
    have hleaves : Leaves md p t action ag = tradable := by
      rw [Leaves, hd, htradable, Bool.and_true]
    have horder : placedOrder md p t rng action (ag.flattened md p t).cash = none := by
      rw [placedOrder, hd]
    rw [hleaves, horder, if_pos (not_not.mp fun h => nomatch hvalid.mpr h)]
    dsimp only [goFlat]
    rw [if_pos hpos]
    refine Ensures.bind (P := fun r => r.1 = if tradable = true ∧ ¬RefusedAt md p t ag then
      ag.flattened md p t else ag.hold) ?_ fun r hr => Ensures.pure hr
    refine Ensures.ite (fun hopen => ?_) fun hclosed => Ensures.pure ?_
    · refine (closePosition_flattened hpos).bind fun r hr => Ensures.pure ?_
      rcases hr with ⟨href, rfl⟩ | ⟨hgo, rfl⟩
      · exact (if_neg fun h => h.2 href).symm
      · exact (if_pos ⟨hopen, hgo⟩).symm
    · rw [if_neg fun h => hclosed h.1]
  | target isShort sym allocIdx levelIdx =>
    rw [if_pos (not_not.mp fun h => nomatch hvalid.mpr h)]
    dsimp only [goTarget]
    refine Ensures.self.bind fun alloc halloc => Ensures.self.bind fun level hlevel => ?_
    refine Ensures.self.bind fun targetTradable htarget => ?_
    have hleaves : Leaves md p t action ag = (tradable &&
        (decide (ag.positionSym ≠ targetPosId md.numSymbols isShort sym) && targetTradable)) := by
      rw [Leaves, hd, htradable, isTradable_eq_ok htarget]
    rw [hleaves]
    refine Ensures.ite (fun hsame => Ensures.pure ?_) fun hother => ?_
    · rw [if_neg (by simp [hsame])]
    refine Ensures.ite (fun hclosed => Ensures.pure ?_) fun hopen => ?_
    · rw [if_pos hpos, if_neg (by simp_all)]
    refine Ensures.ite (fun hshut => Ensures.pure ?_) fun hunshut => ?_
    · rw [if_neg (by simp_all)]
    rw [if_pos hpos]
    have hboth : (tradable && (decide (ag.positionSym ≠ targetPosId md.numSymbols isShort sym) &&
        targetTradable)) = true := by simp_all
    refine (closePosition_flattened hpos).bind fun r hr => ?_
    rcases hr with ⟨href, rfl⟩ | ⟨hgo, rfl⟩
    · exact Ensures.pure (if_neg fun h => h.2 href).symm
    · have hmask : md.maskAt t.toNat sym.toNat = true := by
        rw [← isTradable_eq_ok htarget]
        simpa using hopen
      exact (enterTarget_ordered hd hmask halloc hlevel).mono fun r hr =>
        hr.trans (if_pos ⟨hboth, hgo⟩).symm
  | invalid =>
    have hleaves : Leaves md p t action ag = false := by
      rw [Leaves, hd, Bool.and_false]
    rw [hleaves, if_neg fun h => Bool.false_ne_true h.1, if_neg (hvalid.mp rfl)]
    exact Ensures.pure rfl

/-! ## What a bar does -/

/-- A forced close sells the position, or lets the clock tick, or does nothing. -/
lemma forceClose_booked : Ensures (forceClose md p t ag) fun r =>
    r.1 = if HeldTooLong md p t ag ∧ ¬RefusedAt md p t ag then ag.flattened md p t
      else ag.pressed md p t := by
  intro r h
  rcases forceClose_cases h with ⟨hlong, r', hclose, rfl⟩ | ⟨hshort, rfl⟩
  · rcases closePosition_flattened hlong.2.1 r' hclose with ⟨href, rfl⟩ | ⟨hgo, rfl⟩
    · have hpressed : ag.pressed md p t = ag.hold := if_pos ⟨hlong, href⟩
      rw [hpressed]
      exact (if_neg fun h => h.2 href).symm
    · exact (if_pos ⟨hlong, hgo⟩).symm
  · rw [if_neg fun h => hshort h.1, AgentState.pressed, if_neg fun h => hshort h.1]

/-- A refused forced close leaves the position alone. -/
lemma pressed_sym : (ag.pressed md p t).positionSym = ag.positionSym := by
  unfold AgentState.pressed
  split <;> rfl

/-- A position that is carried stays the same. -/
lemma carried_sym : (ag.carried md p t action).positionSym = ag.positionSym := by
  unfold AgentState.carried
  split
  · exact pressed_sym
  · exact pressed_sym

lemma pressed_flattened : (ag.pressed md p t).flattened md p t = ag.flattened md p t := by
  unfold AgentState.pressed
  split
  · next hforced =>
    have hpos : 0 ≤ ag.positionSym := hforced.1.2.1
    have hpos' : 0 ≤ ag.hold.positionSym := hpos
    rw [AgentState.flattened, if_pos hpos', AgentState.flattened, if_pos hpos]
    rfl
  · rfl

lemma pressed_leaves : Leaves md p t action (ag.pressed md p t) = Leaves md p t action ag := by
  unfold Leaves
  rw [pressed_sym]

/-- The flag that the action goes by is the mask's. -/
lemma curTradable_mask (hpos : 0 ≤ ag.positionSym) : Ensures (curTradable md t ag) fun b =>
    b = md.maskAt t.toNat (ag.positionSym % md.numSymbols).toNat := by
  unfold curTradable
  rw [if_pos hpos]
  refine Ensures.self.bind fun sym hsym => ?_
  rw [cmod_positionSym hpos hsym]
  exact fun b hb => isTradable_eq_ok hb

/-- **The book after a bar.** The position is carried over the bar, or sold at the open of the row,
and then the order of the action is booked. -/
theorem executeBar_booked : Ensures (executeBar md p ag rng action) fun x =>
    x.agent = ag.booked md p (tradeRow md ag) rng action := by
  unfold executeBar
  refine forceClose_booked.bind fun r hr => Ensures.self.bind fun tradable htradable => ?_
  refine Ensures.self.bind fun anyTradable _ => Ensures.self.bind fun equity _ => ?_
  unfold AgentState.booked
  by_cases hforced : HeldTooLong md p (tradeRow md ag) ag ∧ ¬RefusedAt md p (tradeRow md ag) ag
  · -- closed by force: the action finds a flat agent
    rw [if_pos hforced] at hr
    have hflat : r.1.positionSym < 0 := by
      rw [hr]
      exact flattened_flat
    refine (applyAction_flat_booked hflat tradable).bind fun r' hr' => Ensures.pure ?_
    have hgone : ¬KeepsPosition md p (tradeRow md ag) action ag :=
      fun hkeep => hforced.2 (hkeep.2.1 hforced.1)
    rw [if_neg hgone, hr', hr]
  rw [if_neg hforced] at hr
  have hrefused : HeldTooLong md p (tradeRow md ag) ag → RefusedAt md p (tradeRow md ag) ag :=
    fun hlong => not_not.mp fun hgo => hforced ⟨hlong, hgo⟩
  by_cases hpos : 0 ≤ ag.positionSym
  · have hpos' : 0 ≤ r.1.positionSym := by
      rw [hr, pressed_sym]
      exact hpos
    have hmask := curTradable_mask hpos' _ htradable
    refine (applyAction_held_booked hpos' hmask).bind fun r' hr' => Ensures.pure ?_
    rw [hr, pressed_flattened, pressed_leaves] at hr'
    by_cases hleaves : Leaves md p (tradeRow md ag) action ag = true ∧
        ¬RefusedAt md p (tradeRow md ag) (ag.pressed md p (tradeRow md ag))
    · have hgone : ¬KeepsPosition md p (tradeRow md ag) action ag :=
        fun hkeep => hleaves.2 (hkeep.2.2 hleaves.1)
      rw [if_pos hleaves] at hr'
      rw [if_neg hgone, hr']
    · have hkeep : KeepsPosition md p (tradeRow md ag) action ag :=
        ⟨hpos, hrefused, fun hgo => not_not.mp fun hlet => hleaves ⟨hgo, hlet⟩⟩
      rw [if_neg hleaves] at hr'
      rw [if_pos hkeep, hr']
      rfl
  · have hflat : r.1.positionSym < 0 := by
      rw [hr, pressed_sym]
      exact not_le.mp hpos
    have hsame : ag.pressed md p (tradeRow md ag) = ag := if_neg fun h => hpos h.1.2.1
    refine (applyAction_flat_booked hflat tradable).bind fun r' hr' => Ensures.pure ?_
    have hgone : ¬KeepsPosition md p (tradeRow md ag) action ag := fun hkeep => hpos hkeep.1
    rw [if_neg hgone, flattened_of_flat (not_le.mp hpos), hr', hr, hsame]

end KeelTrader.Sim
