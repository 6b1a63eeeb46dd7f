import KeelTrader.Lib.Alternating
import KeelTrader.Sim.Safety

set_option relaxedAutoImplicit false
set_option autoImplicit false

/-!
# The cash ledger of an episode

Where the cash of an agent comes from. Everything that `c_step` does to an agent is a sequence of
four kinds of operations: a filled entry, an exit, a borrow fee, or an operation that leaves the
holdings alone. An episode therefore has a ledger of cash events, and its cash is the initial
cash plus the flows of that ledger.

## Main definitions

* `KeelTrader.Sim.Leg`, `CashEvent` — an executed leg, and what can change the cash.
* `KeelTrader.Sim.Leg.flow`, `Leg.cost` — what a leg adds to the cash, and what it costs.
* `KeelTrader.Sim.Posts`, `Trace` — one operation on an agent with its cash events, and a sequence
  of them.
* `KeelTrader.Sim.Ledger` — the cash events since the last reset of a run.
* `KeelTrader.Sim.Accounts` — an agent agrees with its ledger.

## Main results

* `KeelTrader.Sim.executeBar_trace`, `markToMarket_trace`, `finalClose_trace` — the parts of a
  step are sequences of operations.
* `KeelTrader.Sim.Accounts.posts` — an operation keeps the agreement.
* `KeelTrader.Sim.Accounts.leg_equity` — a leg moves the equity by its cost.
* `KeelTrader.Sim.episode_cash` — the agreement holds at every point of every run.
-/

namespace KeelTrader.Sim

open Checked

/-! ## Legs -/

/-- Which half of a round trip a leg is. -/
inductive LegKind where
  | opening | closing
  deriving DecidableEq, Repr

/-- An executed leg. -/
structure Leg where
  kind : LegKind
  sym : ℤ
  isShort : Bool
  qty : ℚ
  price : ℚ
  deriving DecidableEq, Repr

/-- `fill_slippage_bps / 10000`. -/
def Params.slippage (p : Params) : ℚ := p.fillSlippageBps / 10000

/-- What a leg adds to the cash. The slippage of an entry is in its price. -/
def Leg.flow (p : Params) (l : Leg) : ℚ :=
  match l.kind, l.isShort with
  | .opening, false => -(l.qty * l.price * (1 + p.feeRate))
  | .opening, true => l.qty * l.price * (1 - p.feeRate)
  | .closing, false => l.qty * l.price * (1 - p.feeRate - p.slippage)
  | .closing, true => -(l.qty * l.price * (1 + p.feeRate + p.slippage))

/-- What a leg costs at its own price: the fee, and the slippage of an exit. -/
def Leg.cost (p : Params) (l : Leg) : ℚ :=
  match l.kind with
  | .opening => l.qty * l.price * p.feeRate
  | .closing => l.qty * l.price * (p.feeRate + p.slippage)

/-- The two legs are of the same symbol, side and quantity. -/
def Leg.SamePosition (a b : Leg) : Prop := a.sym = b.sym ∧ a.isShort = b.isShort ∧ a.qty = b.qty

/-- The leg opens a position. -/
def Leg.Opens (l : Leg) : Prop := l.kind = .opening

/-- The leg closes a position. -/
def Leg.Closes (l : Leg) : Prop := l.kind = .closing

instance : DecidablePred Leg.Closes := fun l => inferInstanceAs (Decidable (l.kind = .closing))

/-- What changes the cash of an agent. -/
inductive CashEvent where
  | leg (l : Leg)
  | borrow (fee : ℚ)
  deriving DecidableEq, Repr

/-- The legs among the events. -/
def legsOf (events : List CashEvent) : List Leg :=
  events.filterMap fun
    | .leg l => some l
    | .borrow _ => none

/-- The borrow fees among the events. -/
def feesOf (events : List CashEvent) : List ℚ :=
  events.filterMap fun
    | .leg _ => none
    | .borrow fee => some fee

@[simp] lemma legsOf_nil : legsOf [] = [] := rfl

@[simp] lemma feesOf_nil : feesOf [] = [] := rfl

@[simp] lemma legsOf_append (a b : List CashEvent) : legsOf (a ++ b) = legsOf a ++ legsOf b :=
  List.filterMap_append

@[simp] lemma feesOf_append (a b : List CashEvent) : feesOf (a ++ b) = feesOf a ++ feesOf b :=
  List.filterMap_append

@[simp] lemma legsOf_leg (l : Leg) : legsOf [.leg l] = [l] := rfl

@[simp] lemma feesOf_leg (l : Leg) : feesOf [.leg l] = [] := rfl

@[simp] lemma legsOf_borrow (fee : ℚ) : legsOf [.borrow fee] = [] := rfl

@[simp] lemma feesOf_borrow (fee : ℚ) : feesOf [.borrow fee] = [fee] := rfl

/-! ## Operations -/

/-- The agents hold the same: cash, position and number of trades. -/
structure SameHoldings (a b : AgentState) : Prop where
  cash : b.cash = a.cash
  sym : b.positionSym = a.positionSym
  qty : b.positionQty = a.positionQty
  trades : b.numTrades = a.numTrades

/-- One operation on an agent, and the cash events it causes. -/
inductive Posts (md : MarketData) (p : Params) : AgentState → List CashEvent → AgentState → Prop
  /-- A call of `open_long` or `open_short` that filled. -/
  | opened {t sym : ℤ} {alloc level : ℚ} {isShort : Bool} {ag ag' : AgentState}
      (hflat : ag.positionSym < 0) (hsym : 0 ≤ sym ∧ sym < md.numSymbols)
      (h : openTarget md p t isShort sym alloc level ag = .ok ag')
      (hheld : ag'.positionSym = targetPosId md.numSymbols isShort sym) :
      Posts md p ag [.leg ⟨.opening, sym, isShort, ag'.positionQty, ag'.entryPrice⟩] ag'
  /-- A call of `close_position` that closed. -/
  | closed {t sym : ℤ} {price : ℚ} {ag ag' : AgentState}
      (h : closePosition md p t ag = .ok (ag', true))
      (hsym : cmod ag.positionSym md.numSymbols = .ok sym)
      (hprice : getPrice md t sym .pOpen = .ok price) :
      Posts md p ag [.leg ⟨.closing, sym, decide (ag.positionSym ≥ md.numSymbols),
        ag.positionQty, price⟩] ag'
  /-- A borrow fee that is charged. -/
  | charged {t : ℤ} {fee : ℚ} {ag : AgentState} (h : borrowFee md p t ag = .ok fee)
      (hpos : 0 < fee) : Posts md p ag [.borrow fee] (ag.charge fee)
  /-- Anything that leaves the holdings alone. -/
  | kept {ag ag' : AgentState} (h : SameHoldings ag ag') : Posts md p ag [] ag'

/-- A sequence of operations, and the cash events it causes. -/
inductive Trace (md : MarketData) (p : Params) (ag : AgentState) :
    List CashEvent → AgentState → Prop
  | refl : Trace md p ag [] ag
  | tail {events more : List CashEvent} {ag' ag'' : AgentState} (h : Trace md p ag events ag')
      (hpost : Posts md p ag' more ag'') : Trace md p ag (events ++ more) ag''

variable {lm : Libm} {md : MarketData} {p : Params} {t : ℤ} {ag ag' ag'' : AgentState}
  {events more : List CashEvent}

namespace Trace

lemma single (h : Posts md p ag events ag') : Trace md p ag events ag' := by
  simpa using Trace.refl.tail h

lemma trans (h : Trace md p ag events ag') (h' : Trace md p ag' more ag'') :
    Trace md p ag (events ++ more) ag'' := by
  induction h' with
  | refl => simpa using h
  | tail _ hpost ih =>
    rw [← List.append_assoc]
    exact ih.tail hpost

lemma kept (h : SameHoldings ag ag') : Trace md p ag [] ag' := single (.kept h)

end Trace

/-- Some sequence of operations leads from one agent to the other. -/
def Traced (md : MarketData) (p : Params) (ag ag' : AgentState) : Prop :=
  ∃ events, Trace md p ag events ag'

namespace Traced

lemma refl : Traced md p ag ag := ⟨[], .refl⟩

lemma trans (h : Traced md p ag ag') (h' : Traced md p ag' ag'') : Traced md p ag ag'' := by
  obtain ⟨events, h⟩ := h
  obtain ⟨more, h'⟩ := h'
  exact ⟨events ++ more, h.trans h'⟩

lemma kept (h : SameHoldings ag ag') : Traced md p ag ag' := ⟨[], .kept h⟩

lemma hold : Traced md p ag ag.hold := kept ⟨rfl, rfl, rfl, rfl⟩

end Traced

/-! ## The parts of a step are sequences of operations -/

/-- An exit is a closing leg, or leaves the holdings alone; what it did not close is flat only
if it was. -/
lemma closePosition_traced : Ensures (closePosition md p t ag) fun r =>
    Traced md p ag r.1 ∧ (r.2 = true → r.1.positionSym < 0) := by
  intro r hr
  rcases closePosition_cases hr with ⟨-, rfl⟩ | ⟨-, sym, price, hsym, hprice, ⟨-, rfl⟩ | ⟨-, rfl⟩⟩
  · exact ⟨.refl, by simp⟩
  · exact ⟨.hold, by simp⟩
  · exact ⟨⟨_, .single (.closed hr hsym hprice)⟩, fun _ => by simp [AgentState.closedAt]⟩

/-- **Trading invariant.** The operations on a position post to the ledger. -/
theorem tracedInvariant (ag : AgentState) : TradeInvariant md p (Traced md p ag) where
  hold _ _ h := h.trans .hold
  closed t ag' ag'' hclose h := h.trans (closePosition_traced _ hclose).1
  opened t isShort sym alloc level ag' ag'' hflat hsym hopen h := by
    rcases openTarget_cases hopen with rfl | ⟨f, q, -, rfl⟩
    · exact h
    · exact h.trans ⟨_, .single (.opened hflat hsym hopen rfl)⟩

/-- **Trading** is a sequence of operations. -/
theorem executeBar_trace (rng : UInt64) (action : ℤ) :
    Ensures (executeBar md p ag rng action) fun x => Traced md p ag x.agent :=
  (tracedInvariant ag).executeBar rng action .refl

/-- The drawdown update leaves the holdings and the clock alone. -/
lemma trackDrawdown_same (e : ℚ) : Ensures (trackDrawdown e ag) fun r =>
    SameHoldings ag r.1 ∧ r.1.dataOffset = ag.dataOffset ∧ r.1.step = ag.step := by
  intro r hr
  obtain ⟨dd, hagent, -⟩ := trackDrawdown_eq_ok hr
  rw [hagent]
  exact ⟨⟨rfl, rfl, rfl, rfl⟩, rfl, rfl⟩

/-- **Marking** is a sequence of operations: it charges the borrow fee. -/
theorem markToMarket_trace (x : Executed) :
    Ensures (markToMarket md p x) fun m => Traced md p x.agent m.agent := by
  unfold markToMarket
  refine Ensures.self.bind fun equity _ => Ensures.self.bind fun bfee hfee => ?_
  refine Ensures.self.bind fun ret _ => ?_
  refine (trackDrawdown_same _).bind fun r hr => Ensures.pure ?_
  have hticked : Traced md p x.agent x.agent.tick := .kept ⟨rfl, rfl, rfl, rfl⟩
  have hcharged : Traced md p x.agent.tick (x.agent.tick.charge bfee) := by
    by_cases hpos : 0 < bfee
    · exact ⟨_, .single (.charged hfee hpos)⟩
    · refine .kept ⟨?_, rfl, rfl, rfl⟩
      rw [AgentState.charge, if_neg hpos]
  exact (hticked.trans hcharged).trans (.kept ⟨hr.1.cash, hr.1.sym, hr.1.qty, hr.1.trades⟩)

/-- **The mark-out** is a sequence of operations. -/
theorem finalClose_trace : Ensures (finalClose md p t ag) fun r => Traced md p ag r.1 :=
  (tracedInvariant ag).finalClose .refl

/-! ## The agreement of an agent with its ledger -/

/-- The prices of the data are positive. -/
def MarketData.PositivePrices (md : MarketData) : Prop :=
  ∀ t s k, t < md.numTimesteps → s < md.numSymbols → k ≠ .pVol → 0 < md.prices t s k

/-- The agent holds the position that the leg opened. -/
structure Leg.HeldBy (md : MarketData) (ag : AgentState) (l : Leg) : Prop where
  opens : l.Opens
  nonneg : 0 ≤ l.sym
  lt : l.sym < md.numSymbols
  sym : ag.positionSym = targetPosId md.numSymbols l.isShort l.sym
  qty : ag.positionQty = l.qty

/-- An agent agrees with the cash events since its reset. -/
structure Accounts (md : MarketData) (p : Params) (events : List CashEvent) (ag : AgentState) :
    Prop where
  /-- The cash is the initial cash, plus what the legs added, less the borrow fees. -/
  cash : ag.cash = initialCash + ((legsOf events).map (Leg.flow p)).sum - (feesOf events).sum
  /-- The legs alternate, and each exit is of the position of the entry before it. -/
  alternates : Alternating Leg.Opens Leg.Closes Leg.SamePosition (legsOf events)
  /-- The trades that are counted are the exits. -/
  trades : ag.numTrades = (legsOf events).countP fun l => decide l.Closes
  /-- Quantities and prices are positive. -/
  positive : ∀ l ∈ legsOf events, 0 < l.qty ∧ 0 < l.price
  /-- What is held is what the last leg opened, if it opened anything. -/
  position : (ag.positionSym < 0 ∧ ∀ l, (legsOf events).getLast? = some l → ¬l.Opens) ∨
    ∃ l, (legsOf events).getLast? = some l ∧ l.HeldBy md ag

/-- Cash plus the position, valued at `price`. -/
def AgentState.equityAt (md : MarketData) (price : ℚ) (ag : AgentState) : ℚ :=
  if ag.positionSym < 0 then ag.cash
  else if ag.positionSym ≥ md.numSymbols then ag.cash - ag.positionQty * price
  else ag.cash + ag.positionQty * price

/-- A position index gives back its side. -/
lemma targetPosId_ge {isShort : Bool} {sym : ℤ} (hsym : 0 ≤ sym ∧ sym < md.numSymbols) :
    decide (targetPosId md.numSymbols isShort sym ≥ md.numSymbols) = isShort := by
  cases isShort <;> simp [targetPosId] <;> omega

/-- A position index gives back its symbol. -/
lemma cmod_targetPosId {isShort : Bool} {sym r : ℤ} (hsym : 0 ≤ sym ∧ sym < md.numSymbols)
    (h : cmod (targetPosId md.numSymbols isShort sym) md.numSymbols = .ok r) : r = sym := by
  have hne : ((md.numSymbols : ℕ) : ℤ) ≠ 0 := by omega
  have hnonneg := (targetPosId_range isShort hsym).1
  rw [cmod_of_ne hne, Int.tmod_eq_emod_of_nonneg hnonneg] at h
  cases h
  cases isShort
  · exact Int.emod_eq_of_lt hsym.1 hsym.2
  · rw [targetPosId, if_pos rfl, Int.add_emod_left]
    exact Int.emod_eq_of_lt hsym.1 hsym.2

/-- What an entry that filled did. -/
lemma openTarget_filled {sym : ℤ} {alloc level : ℚ} {isShort : Bool}
    (hflat : ag.positionSym < 0) (hsym : 0 ≤ sym ∧ sym < md.numSymbols)
    (h : openTarget md p t isShort sym alloc level ag = .ok ag')
    (hheld : ag'.positionSym = targetPosId md.numSymbols isShort sym) :
    0 < ag'.positionQty ∧ 0 < ag'.entryPrice * (1 + p.feeRate) ∧
      ag'.numTrades = ag.numTrades ∧ ag'.cash = ag.cash +
        Leg.flow p ⟨.opening, sym, isShort, ag'.positionQty, ag'.entryPrice⟩ := by
  rcases openTarget_cases h with rfl | ⟨f, q, hfq, rfl⟩
  · have hpos := (targetPosId_range isShort hsym).1
    omega
  · refine ⟨(sizedFill_spec hfq).2.1, (sizedFill_spec hfq).2.2.1, rfl, ?_⟩
    cases isShort with
    | false =>
      simp only [AgentState.entered, Leg.flow, Bool.false_eq_true, ↓reduceIte]
      ring
    | true => rfl

/-- What an exit that closed did. -/
lemma closePosition_closed {sym : ℤ} {price : ℚ}
    (h : closePosition md p t ag = .ok (ag', true))
    (hprice : getPrice md t sym .pOpen = .ok price)
    (hsym : cmod ag.positionSym md.numSymbols = .ok sym) :
    0 ≤ ag.positionSym ∧
      ag' = ag.closedAt p (decide (ag.positionSym ≥ md.numSymbols)) price := by
  obtain ⟨hpos, sym', price', hsym', hprice', hr⟩ := closedAt_of_close h
  rw [hsym] at hsym'
  cases hsym'
  rw [hprice] at hprice'
  cases hprice'
  exact ⟨hpos, hr⟩

/-- An exit adds the flow of its leg. -/
lemma cash_closedAt (p : Params) (isShort : Bool) (price : ℚ) (ag : AgentState) (sym : ℤ) :
    (ag.closedAt p isShort price).cash =
      ag.cash + Leg.flow p ⟨.closing, sym, isShort, ag.positionQty, price⟩ := by
  cases isShort <;> simp only [AgentState.closedAt, Leg.flow, Params.slippage,
    Bool.false_eq_true, ↓reduceIte] <;> ring

/-- A price that was read is positive. -/
lemma MarketData.PositivePrices.getPrice (hprices : md.PositivePrices) {s : ℤ} {k : PriceFeat}
    (hk : k ≠ .pVol) {price : ℚ} (h : getPrice md t s k = .ok price) : 0 < price := by
  obtain ⟨hrow, hsym, rfl⟩ := getPrice_eq_ok h
  exact hprices _ _ k hrow hsym hk

namespace Accounts

/-- A fresh agent has an empty ledger. -/
lemma initial (md : MarketData) (p : Params) (dataOffset : ℤ) :
    Accounts md p [] (.initial dataOffset) where
  cash := by simp [AgentState.initial]
  alternates := trivial
  trades := rfl
  positive := by simp
  position := .inl ⟨by simp [AgentState.initial], by simp⟩

/-- What the legs and the fees of an operation add to the cash. -/
lemma cash_append (h : Accounts md p events ag) {cash : ℚ}
    (hcash : cash = ag.cash + ((legsOf more).map (Leg.flow p)).sum - (feesOf more).sum) :
    cash = initialCash + ((legsOf (events ++ more)).map (Leg.flow p)).sum -
      (feesOf (events ++ more)).sum := by
  rw [hcash, h.cash]
  simp only [legsOf_append, feesOf_append, List.map_append, List.sum_append]
  ring

/-- The last leg of an agent that holds nothing opened nothing. -/
lemma last_of_flat (h : Accounts md p events ag) (hflat : ag.positionSym < 0) :
    ∀ l, (legsOf events).getLast? = some l → ¬l.Opens := by
  rcases h.position with ⟨-, hlast⟩ | ⟨l, -, hheld⟩
  · exact hlast
  · have hneg := hheld.sym ▸ hflat
    have h0 := hheld.nonneg
    have hS : (0 : ℤ) ≤ md.numSymbols := Int.natCast_nonneg _
    exfalso
    cases hside : l.isShort <;> simp [targetPosId, hside] at hneg <;> omega

/-- The last leg of an agent that holds a position opened it. -/
lemma last_of_held (h : Accounts md p events ag) (hpos : 0 ≤ ag.positionSym) :
    ∃ l, (legsOf events).getLast? = some l ∧ l.HeldBy md ag := by
  rcases h.position with ⟨hflat, -⟩ | hheld
  · exact absurd hpos (not_le.mpr hflat)
  · exact hheld

/-- A leg with a positive quantity and price keeps them all positive. -/
lemma positive_concat (h : Accounts md p events ag) {l : Leg} (hl : 0 < l.qty ∧ 0 < l.price) :
    ∀ l' ∈ legsOf (events ++ [.leg l]), 0 < l'.qty ∧ 0 < l'.price := by
  intro l' hl'
  rw [legsOf_append, List.mem_append] at hl'
  rcases hl' with hl' | hl'
  · exact h.positive l' hl'
  · rw [legsOf_leg, List.mem_singleton] at hl'
    subst hl'
    exact hl

/-- An entry that filled posts its leg. -/
lemma opened {sym : ℤ} {alloc level : ℚ} {isShort : Bool} (hfee : 0 ≤ p.feeRate)
    (h : Accounts md p events ag) (hflat : ag.positionSym < 0)
    (hsym : 0 ≤ sym ∧ sym < md.numSymbols)
    (hrun : openTarget md p t isShort sym alloc level ag = .ok ag')
    (hheld : ag'.positionSym = targetPosId md.numSymbols isShort sym) :
    Accounts md p (events ++ [.leg ⟨.opening, sym, isShort, ag'.positionQty, ag'.entryPrice⟩])
      ag' := by
  obtain ⟨hqty, hdenom, htrades, hcash⟩ := openTarget_filled hflat hsym hrun hheld
  have hprice : 0 < ag'.entryPrice := pos_of_mul_pos_left hdenom (by linarith)
  refine ⟨h.cash_append (by simpa using hcash), ?_, ?_, h.positive_concat ⟨hqty, hprice⟩, .inr ?_⟩
  · rw [legsOf_append]
    exact h.alternates.concat_open (h.last_of_flat hflat) rfl
  · rw [htrades, h.trades]
    simp [Leg.Closes]
  · exact ⟨⟨.opening, sym, isShort, ag'.positionQty, ag'.entryPrice⟩, by simp, rfl, hsym.1,
      hsym.2, hheld, rfl⟩

/-- An exit posts the leg that closes what the last one opened. -/
lemma closed {sym : ℤ} {price : ℚ} (hprices : md.PositivePrices) (h : Accounts md p events ag)
    (hrun : closePosition md p t ag = .ok (ag', true))
    (hsym : cmod ag.positionSym md.numSymbols = .ok sym)
    (hprice : getPrice md t sym .pOpen = .ok price) :
    Accounts md p (events ++ [.leg ⟨.closing, sym, decide (ag.positionSym ≥ md.numSymbols),
      ag.positionQty, price⟩]) ag' := by
  obtain ⟨hpos, rfl⟩ := closePosition_closed hrun hprice hsym
  obtain ⟨l, hlast, hheld⟩ := h.last_of_held hpos
  have hqty := (h.positive l (List.mem_of_getLast? hlast)).1
  have hside : decide (ag.positionSym ≥ md.numSymbols) = l.isShort := by
    rw [hheld.sym]
    exact targetPosId_ge ⟨hheld.nonneg, hheld.lt⟩
  have hsame : sym = l.sym := by
    rw [hheld.sym] at hsym
    exact cmod_targetPosId ⟨hheld.nonneg, hheld.lt⟩ hsym
  refine ⟨h.cash_append ?_, ?_, ?_,
    h.positive_concat ⟨hheld.qty ▸ hqty, hprices.getPrice (by decide) hprice⟩,
    .inl ⟨by simp [AgentState.closedAt], ?_⟩⟩
  · simpa using cash_closedAt p _ price ag sym
  · rw [legsOf_append]
    refine h.alternates.concat_close (fun a ha hc => ?_) hlast hheld.opens rfl
      ⟨hsame.symm, hside.symm, hheld.qty.symm⟩
    rw [Leg.Closes, show a.kind = .opening from ha] at hc
    cases hc
  · simp [AgentState.closedAt, h.trades, Leg.Closes]
  · intro l' hl'
    rw [legsOf_append, legsOf_leg, List.getLast?_concat] at hl'
    cases hl'
    intro ho
    cases ho

/-- A borrow fee posts no leg. -/
lemma charged {fee : ℚ} (h : Accounts md p events ag) (hpos : 0 < fee) :
    Accounts md p (events ++ [.borrow fee]) (ag.charge fee) := by
  refine ⟨h.cash_append ?_, ?_, ?_, ?_, ?_⟩
  · simp [AgentState.charge, hpos]
  · simpa using h.alternates
  · simpa [AgentState.charge] using h.trades
  · simpa using h.positive
  · rcases h.position with ⟨hflat, hlast⟩ | ⟨l, hlast, hheld⟩
    · exact .inl ⟨hflat, by simpa using hlast⟩
    · exact .inr ⟨l, by simpa using hlast, { hheld with }⟩

/-- What leaves the holdings alone posts nothing. -/
lemma kept (h : Accounts md p events ag) (hsame : SameHoldings ag ag') :
    Accounts md p events ag' := by
  refine ⟨by rw [hsame.cash, h.cash], h.alternates, by rw [hsame.trades, h.trades],
    h.positive, ?_⟩
  rcases h.position with ⟨hflat, hlast⟩ | ⟨l, hlast, hheld⟩
  · exact .inl ⟨by rw [hsame.sym]; exact hflat, hlast⟩
  · exact .inr ⟨l, hlast, hheld.opens, hheld.nonneg, hheld.lt, by rw [hsame.sym, hheld.sym],
      by rw [hsame.qty, hheld.qty]⟩

/-- **Operations.** An operation keeps the agreement. -/
theorem posts (hprices : md.PositivePrices) (hfee : 0 ≤ p.feeRate)
    (h : Accounts md p events ag) (hpost : Posts md p ag more ag') :
    Accounts md p (events ++ more) ag' := by
  cases hpost with
  | opened hflat hsym hrun hheld => exact h.opened hfee hflat hsym hrun hheld
  | closed hrun hsym hprice => exact h.closed hprices hrun hsym hprice
  | charged hrun hpos => exact h.charged hpos
  | kept hsame =>
    rw [List.append_nil]
    exact h.kept hsame

/-- A sequence of operations keeps the agreement. -/
theorem trace (hprices : md.PositivePrices) (hfee : 0 ≤ p.feeRate)
    (h : Accounts md p events ag) (htrace : Trace md p ag more ag') :
    Accounts md p (events ++ more) ag' := by
  induction htrace with
  | refl => simpa using h
  | tail _ hpost ih =>
    rw [← List.append_assoc]
    exact ih.posts hprices hfee hpost

end Accounts

/-- **Legs.** An executed leg moves the equity, marked at the leg's own price, by exactly its
cost, which is never negative. -/
theorem Accounts.leg_equity (hprices : md.PositivePrices) (hfee : 0 ≤ p.feeRate)
    (hslip : 0 ≤ p.fillSlippageBps) (h : Accounts md p events ag) {l : Leg}
    (hpost : Posts md p ag [.leg l] ag') :
    ag'.equityAt md l.price - ag.equityAt md l.price = -l.cost p ∧ -l.cost p ≤ 0 := by
  have hslip' : 0 ≤ p.slippage := div_nonneg hslip (by norm_num)
  have hleg : 0 < l.qty ∧ 0 < l.price :=
    (h.posts hprices hfee hpost).positive l (by simp)
  have hnotional : 0 ≤ l.qty * l.price := (mul_pos hleg.1 hleg.2).le
  refine ⟨?_, ?_⟩
  · cases hpost with
    | @opened t sym alloc level isShort _ _ hflat hsym hrun hheld =>
      obtain ⟨-, -, -, hcash⟩ := openTarget_filled hflat hsym hrun hheld
      have hS : (0 : ℤ) ≤ md.numSymbols := Int.natCast_nonneg _
      cases isShort with
      | false =>
        have hpos : ¬ag'.positionSym < 0 := by rw [hheld]; simp [targetPosId]; omega
        have hlong : ¬ag'.positionSym ≥ md.numSymbols := by rw [hheld]; simp [targetPosId]; omega
        simp only [AgentState.equityAt, hflat, hpos, hlong, if_true, if_false, hcash, Leg.flow,
          Leg.cost]
        ring
      | true =>
        have hpos : ¬ag'.positionSym < 0 := by rw [hheld]; simp [targetPosId]; omega
        have hshort : ag'.positionSym ≥ md.numSymbols := by rw [hheld]; simp [targetPosId]; omega
        simp only [AgentState.equityAt, hflat, hpos, hshort, if_true, if_false, hcash, Leg.flow,
          Leg.cost]
        ring
    | @closed t sym price _ _ hrun hsym hprice =>
      obtain ⟨hpos, rfl⟩ := closePosition_closed hrun hprice hsym
      have hflat : ∀ isShort, (ag.closedAt p isShort price).positionSym < 0 := by
        simp [AgentState.closedAt]
      simp only [AgentState.equityAt, hflat, not_lt.mpr hpos, if_true, if_false,
        cash_closedAt p _ price ag sym, Leg.cost]
      by_cases hside : ag.positionSym ≥ md.numSymbols <;> simp [hside, Leg.flow] <;> ring
  · rw [neg_nonpos, Leg.cost]
    cases l.kind with
    | opening => exact mul_nonneg hnotional hfee
    | closing => exact mul_nonneg hnotional (add_nonneg hfee hslip')

/-! ## Runs -/

/-- `Ledger lm md p env actions events env'`: a reset of `env` and the given actions lead to
`env'`, and its current episode has had the given cash events. -/
inductive Ledger (lm : Libm) (md : MarketData) (p : Params) (env : EnvState) :
    List ℤ → List CashEvent → EnvState → Prop
  /-- A reset starts an empty ledger. -/
  | reset {env' : EnvState} (h : cReset md p env = .ok env') : Ledger lm md p env [] [] env'
  /-- A step inside the episode adds its operations. -/
  | step {actions : List ℤ} {events more : List CashEvent} {a : ℤ} {env₁ env₂ : EnvState}
      (h : Ledger lm md p env actions events env₁) (hstep : cStep lm md p env₁ a = .ok env₂)
      (hlive : env₂.terminal = false) (htrace : Trace md p env₁.agent more env₂.agent) :
      Ledger lm md p env (actions ++ [a]) (events ++ more) env₂
  /-- A step that ends the episode has reset the agent. -/
  | finish {actions : List ℤ} {events : List CashEvent} {a : ℤ} {env₁ env₂ : EnvState}
      (h : Ledger lm md p env actions events env₁) (hstep : cStep lm md p env₁ a = .ok env₂)
      (hdone : env₂.terminal = true) : Ledger lm md p env (actions ++ [a]) [] env₂

/-- The agents that a step from `env` passes through: as it starts, after trading, after marking,
and after the final close of an episode that ends. -/
inductive StepPoint (md : MarketData) (p : Params) (env : EnvState) (a : ℤ) : AgentState → Prop
  | start : StepPoint md p env a env.agent
  | traded {x : Executed} (hx : executeBar md p env.agent env.rng a = .ok x) :
      StepPoint md p env a x.agent
  | marked {x : Executed} {m : Marked} (hx : executeBar md p env.agent env.rng a = .ok x)
      (hm : markToMarket md p x = .ok m) : StepPoint md p env a m.agent
  | settled {x : Executed} {m : Marked} {r : AgentState × ℚ}
      (hx : executeBar md p env.agent env.rng a = .ok x) (hm : markToMarket md p x = .ok m)
      (hr : finalClose md p m.tNew { m.agent with prevRet := m.ret } = .ok r) :
      StepPoint md p env a r.1

/-- Every agent that a step passes through is reached by operations. -/
lemma StepPoint.traced {env : EnvState} {a : ℤ} (h : StepPoint md p env a ag) :
    Traced md p env.agent ag := by
  cases h with
  | start => exact .refl
  | traded hx => exact executeBar_trace _ _ _ hx
  | marked hx hm => exact (executeBar_trace _ _ _ hx).trans (markToMarket_trace _ _ hm)
  | @settled x m r hx hm hr =>
    have hmarked := (executeBar_trace _ _ _ hx).trans (markToMarket_trace _ _ hm)
    have hkept : Traced md p m.agent { m.agent with prevRet := m.ret } :=
      .kept ⟨rfl, rfl, rfl, rfl⟩
    exact (hmarked.trans hkept).trans (finalClose_trace r hr)

/-- Every run that returns has a ledger. -/
lemma exists_ledger (env : EnvState) (actions : List ℤ) {env' : EnvState}
    (h : episode lm md p env actions = .ok env') :
    ∃ events, Ledger lm md p env actions events env' := by
  induction actions using List.reverseRecOn generalizing env' with
  | nil =>
    obtain ⟨env₁, hreset, hnil⟩ := bind_eq_ok.mp h
    cases pure_eq_ok.mp hnil
    exact ⟨[], .reset hreset⟩
  | append_singleton actions a ih =>
    rw [episode_concat] at h
    obtain ⟨env₁, hrun, hstep⟩ := bind_eq_ok.mp h
    obtain ⟨events, hledger⟩ := ih hrun
    obtain ⟨x, m, hx, hm, ⟨hdone, -⟩ | ⟨hlive, hag, -⟩⟩ := cStep_cases hstep
    · exact ⟨[], hledger.finish hstep hdone⟩
    · obtain ⟨more, htrace⟩ := (StepPoint.marked hx hm).traced
      have hkept : SameHoldings m.agent env'.agent := by
        rw [hag]
        exact ⟨rfl, rfl, rfl, rfl⟩
      exact ⟨_, hledger.step hstep hlive (htrace.tail (.kept hkept))⟩

/-- The agent of a run agrees with its ledger. -/
lemma Ledger.accounts (hprices : md.PositivePrices) (hfee : 0 ≤ p.feeRate) {env env' : EnvState}
    {actions : List ℤ} (h : Ledger lm md p env actions events env') :
    Accounts md p events env'.agent := by
  induction h with
  | reset h =>
    obtain ⟨obs, -, h⟩ := bind_eq_ok.mp h
    rw [← pure_eq_ok.mp h]
    exact .initial md p _
  | step _ _ _ htrace ih => exact ih.trace hprices hfee htrace
  | finish _ hstep hdone =>
    obtain ⟨x, m, -, -, ⟨-, hag, -⟩ | ⟨hlive, -⟩⟩ := cStep_cases hstep
    · rw [hag]
      exact .initial md p _
    · rw [hdone] at hlive
      cases hlive

/-- **Cash conservation.** On positive prices, with a nonnegative fee and slippage, every run has
a ledger. At every point of every episode the agent agrees with it: the cash is the initial cash
plus the flows of the executed legs less the borrow fees, the legs alternate between an entry and
the exit of its position, and the trades counted are the exits. Every leg moves the equity at its
own price by exactly its cost.

**Proof sketch.** A step is a sequence of operations (`StepPoint.traced`), each of which keeps the
agreement (`Accounts.posts`). A reset starts an empty ledger. -/
theorem episode_cash (lm : Libm) (md : MarketData) (p : Params) (hprices : md.PositivePrices)
    (hfee : 0 ≤ p.feeRate) (hslip : 0 ≤ p.fillSlippageBps) (env : EnvState) (actions : List ℤ)
    (env' : EnvState) (hrun : episode lm md p env actions = .ok env') :
    (∃ events, Ledger lm md p env actions events env') ∧
    ∀ events, Ledger lm md p env actions events env' →
      (∀ a ag, StepPoint md p env' a ag → ∃ more, Trace md p env'.agent more ag) ∧
      ∀ more ag, Trace md p env'.agent more ag →
        Accounts md p (events ++ more) ag ∧
        ∀ l ag', Posts md p ag [.leg l] ag' →
          ag'.equityAt md l.price - ag.equityAt md l.price = -l.cost p ∧ -l.cost p ≤ 0 := by
  refine ⟨exists_ledger env actions hrun, fun events hledger => ⟨fun a ag h => h.traced, ?_⟩⟩
  intro more ag htrace
  have haccounts := (hledger.accounts hprices hfee).trace hprices hfee htrace
  exact ⟨haccounts, fun l ag' hpost => haccounts.leg_equity hprices hfee hslip hpost⟩

/-- The market of one symbol whose row `t` opens and closes at `price t`, and ranges `10` around
it. -/
def wideMarket (numTimesteps : ℕ) (price : ℕ → ℚ) : MarketData :=
  { rowMarket numTimesteps price with
    prices := fun t _ k =>
      match k with
      | .pHigh => price t + 10
      | .pLow => price t - 10
      | _ => price t }

/-- A buy, a hold and a sell at a slippage of 10 basis points. -/
theorem episode_cash_round_trip :
    let md := wideMarket 9 fun t => 100 + t
    let p := { keelEnvCreate with fillSlippageBps := 10, forcedOffset := 0 }
    ∃ env' events, episode .firstOrder md p (.zero 7) [1, 1, 0] = .ok env' ∧
      Ledger .firstOrder md p (.zero 7) [1, 1, 0] events env' ∧
      env'.agent.cash =
        initialCash + ((legsOf events).map (Leg.flow p)).sum - (feesOf events).sum ∧
      ((legsOf events).countP fun l => decide l.Closes) = 1 := by
  intro md p
  have hprices : md.PositivePrices := by
    intro t s k _ _ hk
    cases k <;> simp only [md, wideMarket, rowMarket] <;> first | positivity | skip
    linarith [(Nat.cast_nonneg t : (0 : ℚ) ≤ t)]
  obtain ⟨env', hrun, htrades⟩ := exists_of_toOption
    (x := episode .firstOrder md p (.zero 7) [1, 1, 0])
    (P := fun env => decide (env.agent.numTrades = 1)) (by decide +kernel)
  obtain ⟨⟨events, hledger⟩, hall⟩ := episode_cash .firstOrder md p hprices (by decide +kernel)
    (by decide +kernel) (.zero 7) [1, 1, 0] env' hrun
  have haccounts := ((hall events hledger).2 [] env'.agent .refl).1
  rw [List.append_nil] at haccounts
  refine ⟨env', events, hrun, hledger, haccounts.cash, ?_⟩
  have hcount := haccounts.trades
  rw [of_decide_eq_true htrades] at hcount
  exact_mod_cast hcount.symm

end KeelTrader.Sim
