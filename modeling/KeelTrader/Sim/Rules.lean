import KeelTrader.Sim.Env

set_option relaxedAutoImplicit false
set_option autoImplicit false

/-!
# Rules for the trading of a bar

All that the trading of a bar does to an agent is made of three operations: the hold clock of a
position ticks, a position is closed, a position is opened. What these three preserve is therefore
preserved by the trading of a bar; and on a row of the data, the trading of a bar never faults.

## Main definitions

* `KeelTrader.Sim.AgentState.entered` — the agent after an order was booked.
* `KeelTrader.Sim.TradeInvariant`, `SideInvariant` — what the three operations preserve, with
  entries on both sides or on the given ones.
* `KeelTrader.Sim.AgentState.Priced` — what is held has a price in the data.

## Main results

* `KeelTrader.Sim.decodeAction_returns` — every action decodes, to a target of the data.
* `KeelTrader.Sim.closedAt_of_close`, `openTarget_cases` — what an exit that closed did, and what an
  entry can do.
* `KeelTrader.Sim.SideInvariant.executeBar` — the trading of a bar preserves an invariant.
* `KeelTrader.Sim.SideInvariant.finalClose` — so does the final close.
* `KeelTrader.Sim.executeBar_returns`, `finalClose_returns` — neither of them faults.
-/

namespace KeelTrader.Sim

open Checked

variable {md : MarketData} {p : Params} {t : ℤ} {ag : AgentState}

/-! ## Decoding -/

/-- A decoded target names a symbol of the data. -/
def Decoded.InRange (numSymbols : ℕ) : Decoded → Prop
  | .target _ sym _ _ => 0 ≤ sym ∧ sym < numSymbols
  | _ => True

/-- **Decoding.** Every action decodes, and a target it decodes to is in range. -/
theorem decodeAction_returns (p : Params) (numSymbols : ℕ) (action : ℤ) :
    Returns (decodeAction p numSymbols action) (Decoded.InRange numSymbols) := by
  unfold decodeAction
  set allocBins := if p.actionAllocationBins < 1 then 1 else p.actionAllocationBins with halloc
  set levelBins := if p.actionLevelBins < 1 then 1 else p.actionLevelBins with hlevel
  have ha : 0 < allocBins := by rw [halloc]; split <;> omega
  have hl : 0 < levelBins := by rw [hlevel]; split <;> omega
  have hper : 0 < allocBins * levelBins := Int.mul_pos ha hl
  refine Returns.ite (fun _ => Returns.pure trivial) fun _ => ?_
  refine Returns.ite (fun hc => ?_) fun _ => Returns.pure trivial
  set block := (numSymbols : ℤ) * (allocBins * levelBins) with hblock
  set idx := if decide (action - 1 ≥ block) = true then action - 1 - block else action - 1
    with hidx
  have hidx0 : 0 ≤ idx ∧ idx < block := by
    rw [hidx]
    split
    · next hge => simp only [ge_iff_le, decide_eq_true_eq] at hge; omega
    · next hge => simp only [ge_iff_le, decide_eq_true_eq] at hge; omega
  rw [bind_of_eq_ok (cdiv_of_ne hper.ne'), bind_of_eq_ok (cmod_of_ne hper.ne'),
    bind_of_eq_ok (cdiv_of_ne hl.ne'), bind_of_eq_ok (cmod_of_ne hl.ne')]
  refine Returns.pure ⟨?_, ?_⟩
  · rw [Int.tdiv_eq_ediv_of_nonneg hidx0.1]
    exact Int.ediv_nonneg hidx0.1 hper.le
  · rw [Int.tdiv_eq_ediv_of_nonneg hidx0.1]
    exact Int.ediv_lt_of_lt_mul hper hidx0.2

/-! ## What the operations do -/

section Operations

variable {ag' : AgentState} {isShort : Bool} {sym : ℤ} {alloc level : ℚ}

/-- An exit that went through closed the position at the open of the bar. -/
lemma closedAt_of_close (h : closePosition md p t ag = .ok (ag', true)) :
    0 ≤ ag.positionSym ∧ ∃ sym price, cmod ag.positionSym md.numSymbols = .ok sym ∧
      getPrice md t sym .pOpen = .ok price ∧
      ag' = ag.closedAt p (decide (ag.positionSym ≥ md.numSymbols)) price := by
  rcases closePosition_cases h with ⟨-, hr⟩ | ⟨hpos, sym, price, hsym, hprice, ⟨-, hr⟩ | ⟨-, hr⟩⟩
  · cases hr
  · cases hr
  · exact ⟨hpos, sym, price, hsym, hprice, congrArg Prod.fst hr⟩

/-- A target in the data stands for a position in the data. -/
lemma targetPosId_range (isShort : Bool) (hsym : 0 ≤ sym ∧ sym < md.numSymbols) :
    0 ≤ targetPosId md.numSymbols isShort sym ∧
      targetPosId md.numSymbols isShort sym < 2 * md.numSymbols := by
  cases isShort <;> simp [targetPosId] <;> omega

/-- The agent after it bought, or sold short, `qty` of a symbol at `price`. -/
def AgentState.entered (md : MarketData) (p : Params) (isShort : Bool) (sym : ℤ) (price qty : ℚ)
    (ag : AgentState) : AgentState :=
  { ag with
    cash := if isShort then ag.cash + qty * price * (1 - p.feeRate)
      else ag.cash - qty * (price * (1 + p.feeRate))
    positionSym := targetPosId md.numSymbols isShort sym
    positionQty := qty
    entryPrice := price
    holdHours := 0 }

/-- An order that was sized is booked. -/
lemma openTarget_of_some {isShort : Bool} {sym : ℤ} {alloc level f q : ℚ}
    (h : sizedFill md p t sym alloc level (!isShort) ag.cash = .ok (some (f, q))) :
    openTarget md p t isShort sym alloc level ag = .ok (ag.entered md p isShort sym f q) := by
  cases isShort with
  | false =>
    rw [Bool.not_false] at h
    have hspec := sizedFill_spec h
    have hcost : ¬q * (f * (1 + p.feeRate)) ≤ 0 := not_le.mpr (mul_pos hspec.2.1 hspec.2.2.1)
    change openLong md p t sym alloc level ag = _
    rw [openLong, bind_of_eq_ok h]
    dsimp only
    rw [if_neg hcost]
    rfl
  | true =>
    rw [Bool.not_true] at h
    change openShort md p t sym alloc level ag = _
    rw [openShort, bind_of_eq_ok h]
    rfl

/-- An order that was not sized leaves the agent alone. -/
lemma openTarget_of_none {isShort : Bool} {sym : ℤ} {alloc level : ℚ}
    (h : sizedFill md p t sym alloc level (!isShort) ag.cash = .ok none) :
    openTarget md p t isShort sym alloc level ag = .ok ag := by
  cases isShort with
  | false =>
    rw [Bool.not_false] at h
    change openLong md p t sym alloc level ag = _
    rw [openLong, bind_of_eq_ok h]
    rfl
  | true =>
    rw [Bool.not_true] at h
    change openShort md p t sym alloc level ag = _
    rw [openShort, bind_of_eq_ok h]
    rfl

/-- **Entries.** An entry leaves the agent alone, or books an order that was sized. -/
theorem openTarget_cases (h : openTarget md p t isShort sym alloc level ag = .ok ag') :
    ag' = ag ∨ ∃ f q, sizedFill md p t sym alloc level (!isShort) ag.cash = .ok (some (f, q)) ∧
      ag' = ag.entered md p isShort sym f q := by
  have hsized : ∃ fill, sizedFill md p t sym alloc level (!isShort) ag.cash = .ok fill := by
    cases isShort with
    | false =>
      obtain ⟨fill, hfill, -⟩ := bind_eq_ok.mp h
      exact ⟨fill, hfill⟩
    | true =>
      obtain ⟨fill, hfill, -⟩ := bind_eq_ok.mp h
      exact ⟨fill, hfill⟩
  obtain ⟨fill, hfill⟩ := hsized
  cases fill with
  | none =>
    rw [openTarget_of_none hfill] at h
    exact Or.inl (Except.ok.inj h).symm
  | some fq =>
    rw [openTarget_of_some hfill] at h
    exact Or.inr ⟨fq.1, fq.2, hfill, (Except.ok.inj h).symm⟩

end Operations

/-! ## What the operations preserve -/

/-- The operations on a position preserve `I`: the tick of its hold clock, a close that goes
through, and an entry of a flat agent. -/
structure TradeInvariant (md : MarketData) (p : Params) (I : AgentState → Prop) : Prop where
  hold : ∀ ag, 0 ≤ ag.positionSym → I ag → I ag.hold
  closed : ∀ t ag ag', closePosition md p t ag = .ok (ag', true) → I ag → I ag'
  opened : ∀ (t : ℤ) isShort (sym : ℤ) alloc level ag ag', ag.positionSym < 0 →
    0 ≤ sym ∧ sym < md.numSymbols →
    openTarget md p t isShort sym alloc level ag = .ok ag' → I ag → I ag'

/-- The same, when the entries are on the given sides only. -/
structure SideInvariant (md : MarketData) (p : Params) (Side : Bool → Prop)
    (I : AgentState → Prop) : Prop where
  hold : ∀ ag, 0 ≤ ag.positionSym → I ag → I ag.hold
  closed : ∀ t ag ag', closePosition md p t ag = .ok (ag', true) → I ag → I ag'
  opened : ∀ (t : ℤ) isShort (sym : ℤ) alloc level ag ag', Side isShort → ag.positionSym < 0 →
    0 ≤ sym ∧ sym < md.numSymbols →
    openTarget md p t isShort sym alloc level ag = .ok ag' → I ag → I ag'

/-- Every target that the action decodes to is on one of the given sides. -/
def OnSide (p : Params) (numSymbols : ℕ) (Side : Bool → Prop) (action : ℤ) : Prop :=
  ∀ isShort sym allocIdx levelIdx,
    decodeAction p numSymbols action = .ok (.target isShort sym allocIdx levelIdx) → Side isShort

namespace SideInvariant

variable {Side : Bool → Prop} {I : AgentState → Prop} (hI : SideInvariant md p Side I)

include hI

/-- An exit preserves `I`, and it is flat if it went through. -/
lemma closePosition (h : I ag) : Ensures (closePosition md p t ag) fun r =>
    I r.1 ∧ (r.2 = true → r.1.positionSym < 0) := by
  intro r hr
  rcases closePosition_cases hr with ⟨-, rfl⟩ | ⟨hpos, sym, price, -, -, ⟨-, rfl⟩ | ⟨-, rfl⟩⟩
  · exact ⟨h, by simp⟩
  · exact ⟨hI.hold ag hpos h, by simp⟩
  · exact ⟨hI.closed t ag _ hr h, fun _ => by simp [AgentState.closedAt]⟩

lemma forceClose (h : I ag) : Ensures (forceClose md p t ag) fun r => I r.1 := by
  unfold Sim.forceClose
  refine Ensures.ite (fun _ => ?_) fun _ => Ensures.pure h
  refine Ensures.self.bind fun sym _ => Ensures.self.bind fun isOpen _ => ?_
  refine Ensures.ite (fun _ => ?_) fun _ => Ensures.pure h
  exact (hI.closePosition h).bind fun r hr => Ensures.pure hr.1

lemma goFlat (tradable : Bool) (h : I ag) :
    Ensures (goFlat md p t tradable ag) fun r => I r.1 := by
  unfold Sim.goFlat
  refine Ensures.ite (fun hpos => ?_) fun _ => Ensures.pure h
  refine Ensures.ite (fun _ => ?_) fun _ => Ensures.pure (hI.hold ag hpos h)
  exact (hI.closePosition h).bind fun r hr => Ensures.pure hr.1

lemma enterTarget {sym : ℤ} {isShort : Bool} (hside : Side isShort) (hflat : ag.positionSym < 0)
    (hsym : 0 ≤ sym ∧ sym < md.numSymbols) (alloc level : ℚ) (rng : UInt64) (events : ℤ)
    (h : I ag) :
    Ensures (enterTarget md p t isShort sym alloc level ag rng events) fun r => I r.1 := by
  unfold Sim.enterTarget
  dsimp only
  refine Ensures.ite (fun _ => ?_) fun _ => Ensures.pure h
  refine Ensures.self.bind fun ag' hag' => Ensures.pure ?_
  exact hI.opened t isShort sym alloc level ag ag' hside hflat hsym hag' h

/-- A switch closes before it opens. -/
lemma goTarget {sym : ℤ} {isShort : Bool} (hside : Side isShort)
    (hsym : 0 ≤ sym ∧ sym < md.numSymbols) (tradable : Bool) (allocIdx levelIdx : ℤ)
    (rng : UInt64) (h : I ag) :
    Ensures (goTarget md p t tradable isShort sym allocIdx levelIdx ag rng) fun r => I r.1 := by
  unfold Sim.goTarget
  refine Ensures.self.bind fun alloc _ => Ensures.self.bind fun level _ => ?_
  refine Ensures.self.bind fun targetTradable _ => ?_
  refine Ensures.ite (fun hsame => Ensures.pure ?_) fun _ => ?_
  · have hpos : 0 ≤ ag.positionSym := by
      rw [hsame, targetPosId]
      split <;> omega
    exact hI.hold ag hpos h
  refine Ensures.ite (fun _ => Ensures.pure ?_) fun _ => ?_
  · show I (if ag.positionSym ≥ 0 then ag.hold else ag)
    split
    · next hpos => exact hI.hold ag hpos h
    · exact h
  refine Ensures.ite (fun hheld => Ensures.pure (hI.hold ag hheld.1 h)) fun _ => ?_
  refine Ensures.ite (fun _ => ?_) fun hflat =>
    hI.enterTarget hside (not_le.mp hflat) hsym alloc level rng 0 h
  refine (hI.closePosition h).bind fun r hr => ?_
  refine Ensures.ite (fun hclosed => ?_) fun _ => Ensures.pure hr.1
  exact hI.enterTarget hside (hr.2 hclosed) hsym alloc level rng 1 hr.1

lemma applyAction {action : ℤ} (hside : OnSide p md.numSymbols Side action) (tradable : Bool)
    (rng : UInt64) (h : I ag) :
    Ensures (applyAction md p t tradable action ag rng) fun r => I r.1 := by
  unfold Sim.applyAction
  refine Ensures.self.bind fun d hdecoded => ?_
  have hd := (decodeAction_returns p md.numSymbols action).ensures d hdecoded
  cases d with
  | flat => exact (hI.goFlat tradable h).bind fun r hr => Ensures.pure hr
  | target isShort sym allocIdx levelIdx =>
    exact hI.goTarget (hside _ _ _ _ hdecoded) hd tradable _ _ rng h
  | invalid => exact Ensures.pure h

/-- **Trading rule.** What the operations on a position preserve, the trading of a bar
preserves. -/
theorem executeBar {action : ℤ} (hside : OnSide p md.numSymbols Side action) (rng : UInt64)
    (h : I ag) :
    Ensures (executeBar md p ag rng action) fun x => I x.agent := by
  unfold Sim.executeBar
  refine (hI.forceClose h).bind fun r hr => ?_
  refine Ensures.self.bind fun tradable _ => Ensures.self.bind fun anyTradable _ => ?_
  refine Ensures.self.bind fun equity _ => ?_
  exact (hI.applyAction hside tradable rng hr).bind fun r' hr' => Ensures.pure hr'

/-- **Final close.** What the operations on a position preserve, the final close preserves. -/
theorem finalClose (h : I ag) : Ensures (finalClose md p t ag) fun r => I r.1 := by
  unfold Sim.finalClose
  refine Ensures.ite (fun _ => ?_) fun _ => Ensures.pure h
  refine (hI.closePosition h).bind fun r hr => ?_
  refine Ensures.ite (fun _ => Ensures.pure hr.1) fun _ => ?_
  exact Ensures.self.bind fun equity _ => Ensures.pure hr.1

end SideInvariant

namespace TradeInvariant

variable {I : AgentState → Prop} (hI : TradeInvariant md p I)

include hI

/-- An invariant of the operations is one on both sides. -/
lemma sides : SideInvariant md p (fun _ => True) I where
  hold := hI.hold
  closed := hI.closed
  opened t isShort sym alloc level ag ag' _ := hI.opened t isShort sym alloc level ag ag'

lemma closePosition (h : I ag) : Ensures (closePosition md p t ag) fun r =>
    I r.1 ∧ (r.2 = true → r.1.positionSym < 0) := hI.sides.closePosition h

lemma forceClose (h : I ag) : Ensures (forceClose md p t ag) fun r => I r.1 :=
  hI.sides.forceClose h

/-- **Trading rule**, on both sides. -/
theorem executeBar (rng : UInt64) (action : ℤ) (h : I ag) :
    Ensures (executeBar md p ag rng action) fun x => I x.agent :=
  hI.sides.executeBar (fun _ _ _ _ _ => trivial) rng h

/-- **Final close**, on both sides. -/
theorem finalClose (h : I ag) : Ensures (finalClose md p t ag) fun r => I r.1 :=
  hI.sides.finalClose h

end TradeInvariant

/-! ## Trading does not fault -/

/-- What the agent holds has a price: there is a symbol in the data. -/
def AgentState.Priced (md : MarketData) (ag : AgentState) : Prop :=
  0 ≤ ag.positionSym → 0 < md.numSymbols

lemma AgentState.priced_of_pos (hS : 0 < md.numSymbols) : ag.Priced md := fun _ => hS

lemma AgentState.priced_of_flat (hflat : ag.positionSym < 0) : ag.Priced md :=
  fun hpos => absurd hpos (not_le.mpr hflat)

/-- Positions are opened in symbols of the data. -/
lemma pricedInvariant : TradeInvariant md p (AgentState.Priced md) where
  hold _ _ h := h
  closed t ag ag' hclose _ := by
    obtain ⟨-, sym, price, -, -, rfl⟩ := closedAt_of_close hclose
    exact AgentState.priced_of_flat (by simp [AgentState.closedAt])
  opened _ _ _ _ _ _ _ _ hsym _ _ := by
    intro _
    omega

section Returns

variable (ht : 0 ≤ t ∧ t < md.numTimesteps)

include ht

lemma computeEquity_returns (h : ag.Priced md) :
    Returns (computeEquity md t ag) fun _ => True := by
  unfold computeEquity
  refine Returns.ite (fun hpos => ?_) fun _ => Returns.pure trivial
  refine (cmod_returns hpos (h hpos)).bind fun sym hsym => ?_
  rw [bind_of_eq_ok (getPrice_of_lt ht ⟨hsym.1, hsym.2.1⟩ _)]
  exact Returns.ite (fun _ => Returns.pure trivial) fun _ => Returns.pure trivial

lemma positionValue_returns (h : ag.Priced md) :
    Returns (positionValue md t ag) fun _ => True := by
  unfold positionValue
  refine Returns.ite (fun hpos => ?_) fun _ => Returns.pure trivial
  refine (cmod_returns hpos (h hpos)).bind fun sym hsym => ?_
  rw [bind_of_eq_ok (getPrice_of_lt ht ⟨hsym.1, hsym.2.1⟩ _)]
  exact Returns.ite (fun _ => Returns.pure trivial) fun _ => Returns.pure trivial

lemma forceClose_returns (h : ag.Priced md) : Returns (forceClose md p t ag) fun _ => True := by
  unfold forceClose
  refine Returns.ite (fun hc => ?_) fun _ => Returns.pure trivial
  refine (cmod_returns hc.2.1 (h hc.2.1)).bind fun cs hcs => ?_
  refine (isTradable_returns ht ⟨hcs.1, hcs.2.1⟩).bind fun isOpen _ => ?_
  refine Returns.ite (fun _ => ?_) fun _ => Returns.pure trivial
  exact (closePosition_returns h ht).bind fun r _ => Returns.pure trivial

lemma curTradable_returns (h : ag.Priced md) : Returns (curTradable md t ag) fun _ => True := by
  unfold curTradable
  refine Returns.ite (fun hpos => ?_) fun _ => Returns.pure trivial
  exact (cmod_returns hpos (h hpos)).bind fun sym hsym => isTradable_returns ht ⟨hsym.1, hsym.2.1⟩

lemma goFlat_returns (tradable : Bool) (h : ag.Priced md) :
    Returns (goFlat md p t tradable ag) fun _ => True := by
  unfold goFlat
  refine Returns.ite (fun _ => ?_) fun _ => Returns.pure trivial
  refine Returns.ite (fun _ => ?_) fun _ => Returns.pure trivial
  exact (closePosition_returns h ht).bind fun r _ => Returns.pure trivial

lemma enterTarget_returns {sym : ℤ} (hsym : 0 ≤ sym ∧ sym < md.numSymbols) (isShort : Bool)
    (alloc level : ℚ) (rng : UInt64) (events : ℤ) :
    Returns (enterTarget md p t isShort sym alloc level ag rng events) fun _ => True := by
  unfold enterTarget
  dsimp only
  refine Returns.ite (fun _ => ?_) fun _ => Returns.pure trivial
  have hopen : Returns (openTarget md p t isShort sym alloc level ag) fun _ => True :=
    Returns.ite (fun _ => openShort_returns ht hsym alloc level)
      fun _ => openLong_returns ht hsym alloc level
  exact hopen.bind fun ag' _ => Returns.pure trivial

lemma goTarget_returns {sym : ℤ} (hsym : 0 ≤ sym ∧ sym < md.numSymbols) (tradable isShort : Bool)
    (allocIdx levelIdx : ℤ) (rng : UInt64) (h : ag.Priced md) :
    Returns (goTarget md p t tradable isShort sym allocIdx levelIdx ag rng) fun _ => True := by
  unfold goTarget
  refine (actionAllocationPct_returns allocIdx).bind fun alloc _ => ?_
  refine (actionLevelOffsetBps_returns levelIdx).bind fun level _ => ?_
  refine (isTradable_returns ht hsym).bind fun targetTradable _ => ?_
  refine Returns.ite (fun _ => Returns.pure trivial) fun _ => ?_
  refine Returns.ite (fun _ => Returns.pure trivial) fun _ => ?_
  refine Returns.ite (fun _ => Returns.pure trivial) fun _ => ?_
  refine Returns.ite (fun _ => ?_) fun _ => enterTarget_returns ht hsym _ _ _ _ _
  refine (closePosition_returns h ht).bind fun r _ => ?_
  exact Returns.ite (fun _ => enterTarget_returns ht hsym _ _ _ _ _) fun _ => Returns.pure trivial

lemma applyAction_returns (tradable : Bool) (action : ℤ) (rng : UInt64) (h : ag.Priced md) :
    Returns (applyAction md p t tradable action ag rng) fun _ => True := by
  unfold applyAction
  refine (decodeAction_returns p md.numSymbols action).bind fun d hd => ?_
  cases d with
  | flat => exact (goFlat_returns ht tradable h).bind fun r _ => Returns.pure trivial
  | target isShort sym allocIdx levelIdx => exact goTarget_returns ht hd _ _ _ _ _ h
  | invalid => exact Returns.pure trivial

lemma finalClose_returns (h : ag.Priced md) : Returns (finalClose md p t ag) fun _ => True := by
  unfold finalClose
  refine Returns.ite (fun _ => ?_) fun _ => Returns.pure trivial
  refine ((closePosition_returns h ht).of_values (pricedInvariant.closePosition h)).bind
    fun r hr => ?_
  refine Returns.ite (fun _ => Returns.pure trivial) fun _ => ?_
  exact (computeEquity_returns ht hr.1).bind fun equity _ => Returns.pure trivial

end Returns

/-- **The trading of a bar** does not fault. -/
theorem executeBar_returns (ht : 0 ≤ tradeRow md ag ∧ tradeRow md ag < md.numTimesteps)
    (h : ag.Priced md) (rng : UInt64) (action : ℤ) :
    Returns (executeBar md p ag rng action) fun _ => True := by
  unfold executeBar
  refine ((forceClose_returns ht h).of_values (pricedInvariant.forceClose h)).bind fun r hr => ?_
  refine (curTradable_returns ht hr).bind fun tradable _ => ?_
  refine (anyTradableAt_returns ht).bind fun anyT _ => ?_
  refine (computeEquity_returns ht hr).bind fun equity _ => ?_
  exact (applyAction_returns ht tradable action rng hr).bind fun r' _ => Returns.pure trivial

end KeelTrader.Sim
