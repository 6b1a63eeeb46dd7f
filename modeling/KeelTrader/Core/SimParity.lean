import KeelTrader.Core.KrakenPaper
import KeelTrader.Sim.Env

set_option relaxedAutoImplicit false
set_option autoImplicit false

/-!
# Parity of the simulator and the live code

The exit of the simulator next to what production does in the same place: the death-spiral guard
of `core/alpaca_singleton.py`, which `close_position` mirrors, and `_simulate_exit` of
`core/kraken_paper.py`, which closes the same position on the same bar.

## Main definitions

* `KeelTrader.Core.GuardedSell` — a long that both guards are asked about.
* `KeelTrader.Core.ExitPair` — a long that both exits are to close.

## Main results

* `KeelTrader.Core.closePosition_long` — the exit of a long on a row of the data.
* `KeelTrader.Core.guards_agree_iff` — the guards agree exactly while the position is young, or
  away from the prices between their two floors.
* `KeelTrader.Core.exits_agree_iff` — the exits agree exactly when the paper limit fills and one
  of the two rates is zero.
-/

namespace KeelTrader.Core

open Sim Checked

/-! ## The exit of a long -/

/-- Closing a long on a row of the data: refused, or at the open. -/
theorem closePosition_long {md : MarketData} {p : Params} {t : ℤ} {ag : AgentState}
    (hlong : 0 ≤ ag.positionSym ∧ ag.positionSym < md.numSymbols)
    (hrow : 0 ≤ t ∧ t < md.numTimesteps) :
    closePosition md p t ag = .ok
      (if deathSpiralRefused p (md.prices t.toNat ag.positionSym.toNat .pOpen) ag.entryPrice
          ag.holdHours false then (ag.hold, false)
      else (ag.closedAt p false (md.prices t.toNat ag.positionSym.toNat .pOpen), true)) := by
  have hsym : cmod ag.positionSym md.numSymbols = .ok ag.positionSym := by
    rw [cmod_of_ne (by omega), Int.tmod_eq_of_lt hlong.1 hlong.2]
  have hside : decide (ag.positionSym ≥ md.numSymbols) = false := by
    simpa using hlong.2
  unfold closePosition
  rw [if_neg (not_lt.mpr hlong.1), bind_of_eq_ok hsym,
    bind_of_eq_ok (getPrice_of_lt hrow hlong .pOpen), hside]
  dsimp only
  split <;> rfl

/-! ## The guards -/

/-- A long position at a bar of the simulator, and a sell in production with an unexpired buy on
record. The entry price, the price and the tolerance are the same on both sides, and the other
parameters of the guards are at their defaults. -/
structure GuardedSell (S : PyStr) where
  entry : ℚ
  price : ℚ
  tol : ℚ
  entry_pos : 0 < entry
  price_pos : 0 < price
  tol_pos : 0 < tol
  -- the simulator
  md : MarketData
  params : Params
  t : ℤ
  ag : AgentState
  long : 0 ≤ ag.positionSym ∧ ag.positionSym < md.numSymbols
  row : 0 ≤ t ∧ t < md.numTimesteps
  entry_eq : ag.entryPrice = entry
  open_eq : md.prices t.toNat ag.positionSym.toNat .pOpen = price
  tolerance_eq : params.deathSpiralToleranceBps = tol
  overnight_eq : params.deathSpiralOvernightToleranceBps =
    keelEnvCreate.deathSpiralOvernightToleranceBps
  stale_eq : params.deathSpiralStaleAfterBars = keelEnvCreate.deathSpiralStaleAfterBars
  -- production
  g : Guard
  args : GuardArgs
  read : ReadOutcome
  disk : Disk
  now : ℚ
  ts : ℚ
  symbol : String
  override_eq : g.override = false
  base_eq : g.baseBps args = tol
  noAtr : args.atrPct = none
  readable : read.readFails = false
  clean : disk.Clean
  named : symbol ≠ ""
  record : disk.memory.get? (S.upper symbol) = some (.at entry ts)
  fresh : now - ts ≤ g.buyMemorySeconds

namespace GuardedSell

variable {S : PyStr} (x : GuardedSell S)

/-- `close_position` refuses the sell. -/
def SimRefuses : Prop := closePosition x.md x.params x.t x.ag = .ok (x.ag.hold, false)

/-- `guard_sell_against_death_spiral` raises. -/
def ProdRaises : Prop :=
  ∃ e disk', guardSellAgainstDeathSpiral S x.g x.read x.now x.symbol "sell" (.fin x.price) x.args
    x.disk = .error e disk'

/-- The simulator has the tolerance for its first bars only. -/
lemma simRefuses_iff : x.SimRefuses ↔
    x.price < x.entry * (1 - (if x.ag.holdHours ≥ 8 then 500 else x.tol) / 10000) := by
  have hnotEntry := not_le.mpr x.entry_pos
  have hnotPrice := not_le.mpr x.price_pos
  have htol : ¬(if x.ag.holdHours ≥ 8 then (500 : ℚ) else x.tol) ≤ 0 := by
    split
    · norm_num
    · exact not_le.mpr x.tol_pos
  have hrefused : deathSpiralRefused x.params x.price x.entry x.ag.holdHours false =
      decide (x.price < x.entry * (1 - (if x.ag.holdHours ≥ 8 then 500 else x.tol) / 10000)) := by
    unfold deathSpiralRefused
    rw [x.tolerance_eq, x.overnight_eq, x.stale_eq]
    simp only [keelEnvCreate, not_le.mpr x.tol_pos, hnotEntry, hnotPrice, or_self, if_false,
      Bool.false_eq_true, show ¬(8 : ℤ) < 0 by decide, htol]
  unfold SimRefuses
  rw [closePosition_long x.long x.row, x.open_eq, x.entry_eq, hrefused]
  by_cases hlt : x.price < x.entry * (1 - (if x.ag.holdHours ≥ 8 then 500 else x.tol) / 10000)
  · simp [hlt]
  · simp [hlt]

/-- Production has one tolerance. -/
lemma prodRaises_iff : x.ProdRaises ↔ x.price < x.entry * (1 - x.tol / 10000) := by
  have htol : x.g.tolBps x.args = (x.tol, .base) := by
    unfold Guard.tolBps
    rw [x.noAtr, x.base_eq]
  have hrefuses : x.g.Refuses x.now x.disk x.args (S.upper x.symbol) x.price ↔
      x.price < x.entry * (1 - x.tol / 10000) := by
    unfold Guard.Refuses
    rw [htol]
    constructor
    · rintro ⟨buyPrice, ts, hrecord, -, hlt⟩
      rw [x.record] at hrecord
      cases hrecord
      exact hlt
    · intro hlt
      exact ⟨x.entry, x.ts, x.record, x.fresh, hlt⟩
  have hspec := guardSell_spec (S := S) x.override_eq x.readable x.clean x.named x.price_pos x.now
    x.args x.disk rfl
  unfold ProdRaises
  rw [← hrefuses]
  cases hrun : guardSellAgainstDeathSpiral S x.g x.read x.now x.symbol "sell" (.fin x.price)
      x.args x.disk with
  | ok a disk' =>
    rw [hrun] at hspec
    refine ⟨?_, fun h => absurd h hspec.2⟩
    rintro ⟨e, disk'', h⟩
    cases h
  | error e disk' =>
    rw [hrun] at hspec
    exact ⟨fun _ => hspec.2.1, fun _ => ⟨e, disk', rfl⟩⟩

end GuardedSell

/-- Two floors decide alike away from the prices between them. -/
lemma lt_iff_lt_of_floors {low high price : ℚ} (h : low ≤ high) :
    ((price < low ↔ price < high) ↔ price < low ∨ high ≤ price) := by
  constructor
  · intro hiff
    by_contra hnot
    obtain ⟨hlow, hhigh⟩ := not_or.mp hnot
    exact hlow (hiff.mpr (not_le.mp hhigh))
  · rintro (hlow | hhigh)
    · exact ⟨fun _ => lt_of_lt_of_le hlow h, fun _ => hlow⟩
    · exact ⟨fun hlt => absurd (lt_of_lt_of_le hlt h) (not_lt.mpr hhigh),
        fun hlt => absurd hlt (not_lt.mpr hhigh)⟩

/-- **The two guards** agree exactly while the position has been held for less than
`death_spiral_stale_after_bars`, or when the price is on one side of both floors. -/
theorem guards_agree_iff {S : PyStr} (x : GuardedSell S) :
    (x.SimRefuses ↔ x.ProdRaises) ↔
      x.ag.holdHours < 8 ∨ x.price < x.entry * (1 - max x.tol 500 / 10000) ∨
        x.entry * (1 - min x.tol 500 / 10000) ≤ x.price := by
  rw [x.simRefuses_iff, x.prodRaises_iff]
  by_cases hyoung : x.ag.holdHours < 8
  · simp [hyoung, not_le.mpr hyoung]
  · have hold : x.ag.holdHours ≥ 8 := not_lt.mp hyoung
    simp only [hold, if_true, hyoung, false_or]
    -- the wider tolerance has the lower floor
    rcases le_total x.tol 500 with hle | hle
    · have hfloor : x.entry * (1 - 500 / 10000) ≤ x.entry * (1 - x.tol / 10000) :=
        mul_le_mul_of_nonneg_left (by linarith) x.entry_pos.le
      rw [max_eq_right hle, min_eq_left hle]
      exact lt_iff_lt_of_floors hfloor
    · have hfloor : x.entry * (1 - x.tol / 10000) ≤ x.entry * (1 - 500 / 10000) :=
        mul_le_mul_of_nonneg_left (by linarith) x.entry_pos.le
      rw [max_eq_left hle, min_eq_right hle]
      exact Iff.comm.trans (lt_iff_lt_of_floors hfloor)

/-- A buy at `100`, held for eight bars, that is to be sold at `97` with a tolerance of `100`
basis points. -/
def staleSell : GuardedSell .ascii where
  entry := 100
  price := 97
  tol := 100
  entry_pos := by norm_num
  price_pos := by norm_num
  tol_pos := by norm_num
  md := rowMarket 9 fun _ => 97
  params := { keelEnvCreate with deathSpiralToleranceBps := 100 }
  t := 8
  ag := { AgentState.initial 0 with
    positionSym := 0, positionQty := 1, entryPrice := 100, holdHours := 8 }
  long := by decide
  row := by decide
  entry_eq := rfl
  open_eq := rfl
  tolerance_eq := rfl
  overnight_eq := rfl
  stale_eq := rfl
  g := ⟨false, some { deathSpiralToleranceBps := 100 }⟩
  args := {}
  read := ⟨false, false⟩
  disk := saveBuys (Dict.empty.set "BTC" (.at 100 0)) ⟨none, []⟩
  now := 8 * 3600
  ts := 0
  symbol := "btc"
  override_eq := rfl
  base_eq := rfl
  noAtr := rfl
  readable := rfl
  clean := by
    refine clean_saveBuys fun key rec hrec => ?_
    rw [Dict.get?_set] at hrec
    split at hrec
    · exact ⟨100, 0, (Option.some.inj hrec).symm, by norm_num⟩
    · rw [Dict.get?_empty] at hrec
      cases hrec
  named := by decide
  record := by decide
  fresh := by norm_num [Guard.buyMemorySeconds, defaultBuyMemorySeconds]

/-- The simulator lets go what production refuses. -/
theorem guards_disagree_stale :
    staleSell.ag.holdHours = 8 ∧ staleSell.ProdRaises ∧ ¬staleSell.SimRefuses := by
  refine ⟨rfl, ?_, ?_⟩
  · rw [staleSell.prodRaises_iff]
    norm_num [staleSell]
  · rw [staleSell.simRefuses_iff]
    norm_num [staleSell]

/-! ## The exits -/

/-- A long that the simulator and the paper loop hold alike, and a bar that opens and closes at
`price`. The fill parameters are the same on both sides, and neither guard refuses. -/
structure ExitPair (S : PyStr) where
  price : ℚ
  low : ℚ
  high : ℚ
  qty : ℚ
  entry : ℚ
  price_pos : 0 < price
  low_le : low ≤ price
  le_high : price ≤ high
  qty_pos : 0 < qty
  -- the simulator
  md : MarketData
  params : Params
  t : ℤ
  ag : AgentState
  long : 0 ≤ ag.positionSym ∧ ag.positionSym < md.numSymbols
  row : 0 ≤ t ∧ t < md.numTimesteps
  open_eq : md.prices t.toNat ag.positionSym.toNat .pOpen = price
  qty_eq : ag.positionQty = qty
  entry_eq : ag.entryPrice = entry
  simGuard : deathSpiralRefused params price entry ag.holdHours false = false
  -- the paper loop
  cfg : TraderConfig
  g : Guard
  tick : Tick
  st : TraderState
  sym : String
  named : sym ≠ ""
  held : st.held.get? sym = some ⟨qty, entry⟩
  paperGuard : ∃ disk, guardSellAgainstDeathSpiral S g (tick.env sym).guardRead
    (tick.env sym).guardAt sym "sell" (.fin price) {} st.broker.disk = .ok () disk
  -- the fill parameters
  fee_eq : params.feeRate = cfg.feeRate
  slippage_eq : params.fillSlippageBps = cfg.slippageBps
  buffer_eq : params.fillBufferBps = cfg.fillBufferBps

namespace ExitPair

variable {S : PyStr} (x : ExitPair S)

/-- The bar. -/
def bar : Bar := ⟨x.price, x.high, x.low, x.price⟩

/-- `close_position` stays held, or closes for the proceeds. -/
def SimExits (proceeds : Option ℚ) : Prop :=
  ∃ ag' closed, closePosition x.md x.params x.t x.ag = .ok (ag', closed) ∧
    proceeds = if closed then some (ag'.cash - x.ag.cash) else none

/-- `_simulate_exit` stays held, or closes for the proceeds: what it realises, and the cost of the
entry that this is net of. -/
def PaperExits (proceeds : Option ℚ) : Prop :=
  ∃ fill st', simulateExit S x.g x.cfg x.tick x.sym x.bar x.price x.st = .ok fill st' ∧
    proceeds = if fill.isSome then
        some (st'.realizedPnl - x.st.realizedPnl + x.qty * x.entry * (1 + x.cfg.feeRate))
      else none

/-- The paper limit fills: the bar trades through the target, and the fill does not slip out of
it. -/
def Fills : Prop :=
  x.price * (1 + x.cfg.fillBufferBps / 10000) ≤ x.high ∧
    x.low ≤ x.price * (1 - x.cfg.slippageBps / 10000) ∧
    0 < x.price * (1 - x.cfg.slippageBps / 10000)

/-- The simulator always closes, with one haircut for fee and slippage. -/
lemma simExits_iff (proceeds : Option ℚ) : x.SimExits proceeds ↔
    proceeds = some (x.qty * x.price * (1 - (x.cfg.feeRate + x.cfg.slippageBps / 10000))) := by
  have hclose := closePosition_long (p := x.params) x.long x.row
  rw [x.open_eq, x.entry_eq, x.simGuard] at hclose
  have hcash : (x.ag.closedAt x.params false x.price).cash - x.ag.cash =
      x.qty * x.price * (1 - (x.cfg.feeRate + x.cfg.slippageBps / 10000)) := by
    simp only [AgentState.closedAt, x.fee_eq, x.slippage_eq, x.qty_eq, Bool.false_eq_true,
      if_false]
    ring
  unfold SimExits
  rw [← hcash, hclose]
  constructor
  · rintro ⟨ag', closed, h, rfl⟩
    cases h
    rfl
  · rintro rfl
    exact ⟨_, _, rfl, rfl⟩

/-- The fill of the paper exit. -/
lemma fill_eq : x.cfg.fill x.bar x.price false =
    if x.price * (1 + x.cfg.fillBufferBps / 10000) ≤ x.high ∧
        x.low ≤ x.price * (1 - x.cfg.slippageBps / 10000) then
      x.price * (1 - x.cfg.slippageBps / 10000)
    else 0 := by
  have hrange : barRange x.low x.high = (x.low, x.high) :=
    if_neg (not_lt.mpr (x.low_le.trans x.le_high))
  unfold TraderConfig.fill keelTestFillPrice limitFillPrice
  simp only [bar, hrange, Bool.false_eq_true, if_false]
  by_cases htrigger : x.high < x.price * (1 + x.cfg.fillBufferBps / 10000)
  · simp [htrigger, not_le.mpr htrigger]
  · by_cases hslip : x.price * (1 - x.cfg.slippageBps / 10000) < x.low
    · simp [htrigger, hslip, not_le.mpr hslip]
    · simp [htrigger, hslip, not_lt.mp htrigger, not_lt.mp hslip]

/-- The order of the exit goes through. -/
lemma order_ok : ∃ o b, submitOrder S x.g
    ⟨x.sym, "sell", .fin x.qty, .fin x.price, x.tick.env x.sym⟩ x.st.broker = .ok o b := by
  obtain ⟨disk, hguard⟩ := x.paperGuard
  have hvalid : (Call.order S
      ⟨x.sym, "sell", .fin x.qty, .fin x.price, x.tick.env x.sym⟩).Valid :=
    ⟨.inr S.norm_sell, x.named, decide_eq_true x.qty_pos, decide_eq_true x.price_pos⟩
  have hguardRun : onDisk (guardSellAgainstDeathSpiral S x.g (x.tick.env x.sym).guardRead
      (x.tick.env x.sym).guardAt x.sym (S.norm "sell") (.fin x.price) {}) x.st.broker =
      .ok () { x.st.broker with disk := disk } := by
    rw [S.norm_sell]
    exact Raising.on_eq_ok.mpr ⟨disk, hguard, rfl⟩
  have hsell : ¬S.norm "sell" = "buy" := by
    rw [S.norm_sell]
    decide
  rw [submitOrder_of_valid hvalid]
  unfold writeOrder
  rw [Raising.bind_of_eq_ok hguardRun, Raising.bind_of_eq_ok (execute_run _ _)]
  unfold rememberBuy
  rw [if_neg hsell]
  exact ⟨_, _, rfl⟩

/-- The paper exit closes where its limit fills, with the fee on the slipped price. -/
lemma paperExits_iff (proceeds : Option ℚ) : x.PaperExits proceeds ↔
    (x.Fills ∧ proceeds = some (x.qty * (x.price * (1 - x.cfg.slippageBps / 10000)) *
      (1 - x.cfg.feeRate))) ∨ (¬x.Fills ∧ proceeds = none) := by
  have hfill := x.fill_eq
  by_cases hfills : x.Fills
  · obtain ⟨htrigger, hslip, hpos⟩ := hfills
    rw [if_pos ⟨htrigger, hslip⟩] at hfill
    obtain ⟨o, b, horder⟩ := x.order_ok
    have hrun : simulateExit S x.g x.cfg x.tick x.sym x.bar x.price x.st =
        bookExit S x.g x.cfg x.tick x.sym x.price (x.price * (1 - x.cfg.slippageBps / 10000))
          x.st := by
      unfold simulateExit
      rw [hfill, if_neg (not_le.mpr hpos)]
    have hbooked : ∃ fill st', bookExit S x.g x.cfg x.tick x.sym x.price
        (x.price * (1 - x.cfg.slippageBps / 10000)) x.st = .ok (some fill) st' ∧
        st'.realizedPnl = x.st.realizedPnl +
          net x.cfg.feeRate x.qty x.entry (x.price * (1 - x.cfg.slippageBps / 10000)) := by
      unfold bookExit
      rw [Raising.bind_of_eq_ok (Raising.get_run x.st), x.held]
      dsimp only
      rw [Raising.bind_of_eq_ok (onBroker_eq_ok.mpr ⟨b, horder, rfl⟩)]
      exact ⟨_, _, rfl, rfl⟩
    obtain ⟨fill, st', hbook, hpnl⟩ := hbooked
    have hproceeds : st'.realizedPnl - x.st.realizedPnl + x.qty * x.entry * (1 + x.cfg.feeRate) =
        x.qty * (x.price * (1 - x.cfg.slippageBps / 10000)) * (1 - x.cfg.feeRate) := by
      rw [hpnl, net]
      ring
    have hyes : x.Fills := ⟨htrigger, hslip, hpos⟩
    unfold PaperExits
    rw [hrun, hbook, ← hproceeds]
    constructor
    · rintro ⟨fill', st'', h, rfl⟩
      cases h
      exact .inl ⟨hyes, rfl⟩
    · rintro (⟨-, rfl⟩ | ⟨hno, -⟩)
      · exact ⟨_, _, rfl, rfl⟩
      · exact absurd hyes hno
  · have hzero : x.cfg.fill x.bar x.price false ≤ 0 := by
      rw [hfill]
      split
      · next h => exact not_lt.mp fun hpos => hfills ⟨h.1, h.2, hpos⟩
      · exact le_rfl
    have hrun : simulateExit S x.g x.cfg x.tick x.sym x.bar x.price x.st = .ok none x.st := by
      unfold simulateExit
      rw [if_pos hzero]
      rfl
    unfold PaperExits
    rw [hrun]
    simp [hfills]

end ExitPair

/-- **The two exits** have the same outcome exactly when the paper limit fills and the fee or the
slippage is zero: the simulator closes on every bar, and takes the fee on the price before the
slippage. -/
theorem exits_agree_iff {S : PyStr} (x : ExitPair S) :
    ∃ sim paper, x.SimExits sim ∧ x.PaperExits paper ∧
      (∀ out, x.SimExits out → out = sim) ∧ (∀ out, x.PaperExits out → out = paper) ∧
      (sim = paper ↔ x.Fills ∧ x.cfg.feeRate * x.cfg.slippageBps = 0) := by
  have hqty : x.qty * x.price ≠ 0 := (mul_pos x.qty_pos x.price_pos).ne'
  by_cases hfills : x.Fills
  · refine ⟨_, _, (x.simExits_iff _).mpr rfl, (x.paperExits_iff _).mpr (.inl ⟨hfills, rfl⟩),
      fun out h => (x.simExits_iff out).mp h, fun out h => ?_, ?_⟩
    · rcases (x.paperExits_iff out).mp h with ⟨-, hout⟩ | ⟨hno, -⟩
      · exact hout
      · exact absurd hfills hno
    · have hgap : x.qty * x.price * (1 - (x.cfg.feeRate + x.cfg.slippageBps / 10000)) -
          x.qty * (x.price * (1 - x.cfg.slippageBps / 10000)) * (1 - x.cfg.feeRate) =
          -(x.qty * x.price * (x.cfg.feeRate * x.cfg.slippageBps)) / 10000 := by
        ring
      rw [Option.some.injEq, ← sub_eq_zero, hgap]
      simp [hfills, hqty]
  · refine ⟨_, none, (x.simExits_iff _).mpr rfl, (x.paperExits_iff _).mpr (.inr ⟨hfills, rfl⟩),
      fun out h => (x.simExits_iff out).mp h, fun out h => ?_, ?_⟩
    · rcases (x.paperExits_iff out).mp h with ⟨hyes, -⟩ | ⟨-, hout⟩
      · exact absurd hyes hfills
      · exact hout
    · simp [hfills]

/-- A long at `100`, on a bar that does not move, with the default fill parameters. -/
def quietBar : ExitPair .ascii where
  price := 100
  low := 100
  high := 100
  qty := 1
  entry := 100
  price_pos := by norm_num
  low_le := le_rfl
  le_high := le_rfl
  qty_pos := by norm_num
  md := rowMarket 1 fun _ => 100
  params := { keelEnvCreate with feeRate := 26 / 10000, fillSlippageBps := 10, fillBufferBps := 5 }
  t := 0
  ag := { AgentState.initial 0 with positionSym := 0, positionQty := 1, entryPrice := 100 }
  long := by decide
  row := by decide
  open_eq := rfl
  qty_eq := rfl
  entry_eq := rfl
  simGuard := by decide
  cfg := {}
  g := ⟨true, none⟩
  tick := .at 0 .empty fun _ _ => (0, 0)
  st := { TraderState.start ⟨none, []⟩ with held := Dict.empty.set "BTC" ⟨1, 100⟩ }
  sym := "BTC"
  named := by decide
  held := by decide
  paperGuard := ⟨_, guardSell_of_override rfl⟩
  fee_eq := rfl
  slippage_eq := rfl
  buffer_eq := rfl

/-- The simulator closes where the paper loop stays held. -/
theorem exits_disagree_quiet :
    quietBar.SimExits (some (100 * (1 - (26 / 10000 + 10 / 10000)))) ∧ quietBar.PaperExits none ∧
      ∀ out, quietBar.PaperExits out → out = none := by
  have hno : ¬quietBar.Fills := by
    rintro ⟨htrigger, -⟩
    norm_num [quietBar] at htrigger
  refine ⟨?_, (quietBar.paperExits_iff none).mpr (.inr ⟨hno, rfl⟩), fun out h => ?_⟩
  · rw [quietBar.simExits_iff]
    norm_num [quietBar]
  · rcases (quietBar.paperExits_iff out).mp h with ⟨hyes, -⟩ | ⟨-, hout⟩
    · exact absurd hyes hno
    · exact hout

end KeelTrader.Core
