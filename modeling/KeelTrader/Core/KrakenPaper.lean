import KeelTrader.Core.Broker
import KeelTrader.Models.Strategy
import KeelTrader.Sim.Trade

set_option relaxedAutoImplicit false
set_option autoImplicit false

/-!
# The Kraken paper trader

`core/kraken_paper.py`: one decision cycle turns a snapshot of live bars into target positions,
sells the names that are no longer wanted and buys the new ones. Every order goes through the
guarded broker; fills are simulated by the C engine and appended to a ledger.

## Main definitions

* `KeelTrader.Core.PaperFill`, `Held`, `TraderState` — the paper book and its state.
* `KeelTrader.Core.TraderConfig`, `Tick` — the configuration, and what one cycle is given.
* `KeelTrader.Core.simulateEntry`, `simulateExit` — one simulated leg.
* `KeelTrader.Core.step` — one decision cycle.
* `KeelTrader.Core.exitAttempt` — when a cycle attempts an exit, decided before it starts.

## Main results

* `KeelTrader.Core.exitRound_eq`, `enterRound_eq` — a round of each loop does nothing, or books
  one leg.
* `KeelTrader.Core.bookExit_eq_ok`, `bookExit_eq_error`, `bookEntry_eq_ok`,
  `bookEntry_eq_error` — everything a booked leg can do.

## Implementation notes

A cycle trades a symbol at most once, so the clock readings of its order are given for each
symbol. Of a snapshot only the bar is read; its live price decides nothing. The injected score
function may be any function of the symbol and its bars, and another one in each cycle.
-/

namespace KeelTrader.Core

open Models

/-! ## Data -/

/-- `Bar`, with the fields that decide a fill. -/
structure Bar where
  /-- `open`. -/
  openPrice : ℚ
  high : ℚ
  low : ℚ
  close : ℚ
  deriving DecidableEq, Repr

/-- `PaperFill`. -/
structure PaperFill where
  ts : ℚ
  symbol : String
  side : String
  qty : ℚ
  decisionPrice : ℚ
  fillPrice : ℚ
  realizedPnl : ℚ := 0
  deriving DecidableEq, Repr

/-- An entry of `_held`. -/
structure Held where
  qty : ℚ
  entryFill : ℚ
  deriving DecidableEq, Repr

/-- The configuration of a trader. -/
structure TraderConfig where
  strategyCfg : StrategyConfig := {}
  equity : ℚ := 10000
  slippageBps : ℚ := 10
  fillBufferBps : ℚ := 5
  feeRate : ℚ := 26 / 10000
  history : ℕ := 128

/-- The state of a trader, with its broker and its ledger file. -/
structure TraderState where
  bars : Dict String (List Bar)
  held : Dict String Held
  realizedPnl : ℚ
  fills : List PaperFill
  /-- The lines of the ledger file, each the JSON of a fill. -/
  ledger : List PaperFill
  broker : BrokerState

/-- What one cycle is given: the snapshot, the score function, and the outside world of the
order it may place in each symbol. -/
structure Tick where
  snapshot : Dict String Bar
  scoreFn : String → List Bar → ℚ × ℚ
  /-- Clock readings and read outcomes of the order. -/
  env : String → CallEnv
  /-- The time stamp of the fill. -/
  fillTs : String → ℚ

/-- A cycle at one moment, with no failing read. -/
def Tick.at (t : ℚ) (snapshot : Dict String Bar) (scoreFn : String → List Bar → ℚ × ℚ) : Tick :=
  ⟨snapshot, scoreFn, fun _ => ⟨t, t, t, t, ⟨false, false⟩, ⟨false, false⟩⟩, fun _ => t⟩

/-- The exceptions of a cycle. -/
inductive StepError where
  /-- The broker raised. -/
  | order (e : OrderError)
  /-- `ZeroDivisionError`, from the inverse volatilities. -/
  | divByZero
  /-- `KeyError`. -/
  | keyError (symbol : String)
  deriving DecidableEq, Repr

/-- A new trader: nothing held, nothing filled, an empty ledger. -/
def TraderState.start (disk : Disk) : TraderState :=
  ⟨.empty, .empty, 0, [], [], ⟨[], disk⟩⟩

/-- The order that a fill comes from. -/
def PaperFill.order (f : PaperFill) : Order := ⟨f.symbol, f.side, .fin f.qty, .fin f.decisionPrice⟩

/-- The exception is a refusal of the death-spiral guard. -/
def StepError.isDeathSpiral : StepError → Bool
  | .order e => e.isDeathSpiral
  | _ => false

/-! ## The legs -/

/-- `_fill`: the C engine's fill at `target` against the bar, `0` if it cannot fill. -/
def TraderConfig.fill (cfg : TraderConfig) (bar : Bar) (target : ℚ) (isBuy : Bool) : ℚ :=
  Sim.keelTestFillPrice bar.openPrice bar.high bar.low bar.close target cfg.fillBufferBps
    cfg.slippageBps isBuy

/-- The net result of a round trip: the price difference less the fee on both legs. -/
def net (feeRate qty entryFill sellFill : ℚ) : ℚ :=
  qty * (sellFill - entryFill) - feeRate * qty * (entryFill + sellFill)

/-- Run a computation on the broker. -/
def onBroker {α : Type} (x : Raising OrderError BrokerState α) : Raising StepError TraderState α :=
  Raising.mapError .order (Raising.on TraderState.broker (fun st b => { st with broker := b }) x)

section Step

variable (S : PyStr) (g : Guard) (cfg : TraderConfig)

/-- The lines of `_simulate_entry` after its fill check. -/
def bookEntry (tick : Tick) (sym : String) (qty price entryFill : ℚ) :
    Raising StepError TraderState (Option PaperFill) := do
  let _ ← onBroker (submitOrder S g ⟨sym, "buy", .fin qty, .fin price, tick.env sym⟩)
  modify fun st => { st with held := st.held.set sym ⟨qty, entryFill⟩ }
  pure (some ⟨tick.fillTs sym, sym, "buy", qty, price, entryFill, 0⟩)

/-- `_simulate_entry`. -/
def simulateEntry (tick : Tick) (sym : String) (qty : ℚ) (bar : Bar) (price : ℚ) :
    Raising StepError TraderState (Option PaperFill) :=
  if cfg.fill bar price true ≤ 0 then pure none
  else bookEntry S g tick sym qty price (cfg.fill bar price true)

/-- The lines of `_simulate_exit` after its fill check. -/
def bookExit (tick : Tick) (sym : String) (price sellFill : ℚ) :
    Raising StepError TraderState (Option PaperFill) := do
  match (← get).held.get? sym with
  | none => throw (.keyError sym)
  | some held =>
    let _ ← onBroker (submitOrder S g ⟨sym, "sell", .fin held.qty, .fin price, tick.env sym⟩)
    let pnl := net cfg.feeRate held.qty held.entryFill sellFill
    modify fun st => { st with
      held := st.held.erase sym
      realizedPnl := st.realizedPnl + pnl }
    pure (some ⟨tick.fillTs sym, sym, "sell", held.qty, price, sellFill, pnl⟩)

/-- `_simulate_exit`. -/
def simulateExit (tick : Tick) (sym : String) (bar : Bar) (price : ℚ) :
    Raising StepError TraderState (Option PaperFill) :=
  if cfg.fill bar price false ≤ 0 then pure none
  else bookExit S g cfg tick sym price (cfg.fill bar price false)

/-! ## The cycle -/

/-- Append the bars of the snapshot, keeping the newest `history` of each symbol. -/
def pushBars (history : ℕ) (snapshot : Dict String Bar) (bars : Dict String (List Bar)) :
    Dict String (List Bar) :=
  snapshot.entries.foldl (fun bars e =>
    let grown := (bars.get? e.1).getD [] ++ [e.2]
    bars.set e.1 (grown.drop (grown.length - history))) bars

/-- The signals of the symbols in the snapshot that have bars. -/
def signalsOf (tick : Tick) (bars : Dict String (List Bar)) : List SymbolSignal :=
  tick.snapshot.keys.filterMap fun sym =>
    match (bars.get? sym).getD [] with
    | [] => none
    | recent => some ⟨sym, (tick.scoreFn sym recent).1, (tick.scoreFn sym recent).2⟩

/-- `{p.symbol: p.weight for p in …}`. -/
def targetsOf (positions : List Position) : Dict String ℚ :=
  positions.foldl (fun d p => d.set p.symbol p.weight) .empty

/-- One round of the exit loop. -/
def exitRound (tick : Tick) (targets : Dict String ℚ) (sym : String) :
    Raising StepError TraderState (Option PaperFill) :=
  if sym ∈ targets.keys then pure none
  else
    match tick.snapshot.get? sym with
    | none => pure none
    | some bar => simulateExit S g cfg tick sym bar bar.close

/-- One round of the entry loop. -/
def enterRound (tick : Tick) (target : String × ℚ) :
    Raising StepError TraderState (Option PaperFill) := do
  let st ← get
  if target.1 ∈ st.held.keys then pure none
  else
    match tick.snapshot.get? target.1 with
    | none => throw (.keyError target.1)
    | some bar =>
      if bar.close ≤ 0 then pure none
      else simulateEntry S g cfg tick target.1 (target.2 * cfg.equity / bar.close) bar bar.close

/-- `_persist`, and the extension of `fills`. -/
def commit (events : List PaperFill) : Raising StepError TraderState Unit :=
  modify fun st => { st with
    ledger := st.ledger ++ events
    fills := st.fills ++ events }

/-- The targets of a cycle that starts in `st`, unless sizing divides by zero. -/
def targetsAt (tick : Tick) (st : TraderState) : Option (Dict String ℚ) :=
  let signals := signalsOf tick (pushBars cfg.history tick.snapshot st.bars)
  (cfg.strategyCfg.decide signals).map targetsOf

/-- The exits and the entries of a cycle, which is then committed. -/
def trade (tick : Tick) (targets : Dict String ℚ) :
    Raising StepError TraderState (List PaperFill) := do
  let exits ← Raising.forEach (exitRound S g cfg tick targets) (← get).held.keys
  let entries ← Raising.forEach (enterRound S g cfg tick) targets.entries
  commit (exits ++ entries)
  pure (exits ++ entries)

/-- `KrakenPaperTrader.step`. -/
def step (tick : Tick) : Raising StepError TraderState (List PaperFill) := do
  let targets := targetsAt cfg tick (← get)
  modify fun st => { st with bars := pushBars cfg.history tick.snapshot st.bars }
  match targets with
  | none => throw .divByZero
  | some targets => trade S g cfg tick targets

/-- One cycle after another. -/
def runTicks : List Tick → Raising StepError TraderState Unit
  | [] => pure ()
  | tick :: ticks => do
    let _ ← step S g cfg tick
    runTicks ticks

end Step

/-- A cycle pushes the bars of its snapshot, and then trades its targets, if sizing gives any. -/
lemma step_run (S : PyStr) (g : Guard) (cfg : TraderConfig) (tick : Tick) (st : TraderState) :
    step S g cfg tick st =
      match targetsAt cfg tick st with
      | none => .error .divByZero { st with bars := pushBars cfg.history tick.snapshot st.bars }
      | some targets => trade S g cfg tick targets
          { st with bars := pushBars cfg.history tick.snapshot st.bars } := by
  unfold step
  rw [Raising.bind_of_eq_ok (Raising.get_run st), Raising.bind_of_eq_ok (Raising.modify_run _ st)]
  cases targetsAt cfg tick st <;> rfl

/-! ## Rounds -/

section Rounds

variable {S : PyStr} {g : Guard} {cfg : TraderConfig} {tick : Tick} {targets : Dict String ℚ}

/-- The bar on which the cycle attempts to exit `sym`: the symbol is no target, is in the
snapshot, and its bar fills a sell. -/
def exitAttempt (cfg : TraderConfig) (tick : Tick) (targets : Dict String ℚ) (sym : String) :
    Option Bar :=
  if sym ∈ targets.keys then none
  else (tick.snapshot.get? sym).filter fun bar => decide (0 < cfg.fill bar bar.close false)

/-- A round of the exit loop does nothing, or books an exit. -/
theorem exitRound_eq (S : PyStr) (g : Guard) (cfg : TraderConfig) (tick : Tick)
    (targets : Dict String ℚ) (sym : String) :
    exitRound S g cfg tick targets sym =
      match exitAttempt cfg tick targets sym with
      | none => pure none
      | some bar => bookExit S g cfg tick sym bar.close (cfg.fill bar bar.close false) := by
  unfold exitRound exitAttempt
  by_cases htarget : sym ∈ targets.keys
  · simp [htarget]
  · cases hbar : tick.snapshot.get? sym with
    | none => simp [htarget]
    | some bar =>
      by_cases hfill : cfg.fill bar bar.close false ≤ 0
      · have hnot : ¬0 < cfg.fill bar bar.close false := not_lt.mpr hfill
        simp [htarget, simulateExit, hfill, hnot, Option.filter_some]
      · have hpos : 0 < cfg.fill bar bar.close false := not_le.mp hfill
        simp [htarget, simulateExit, hfill, hpos, Option.filter_some]

/-- A round of the entry loop does nothing, raises a `KeyError`, or books an entry of a symbol
that is not held. -/
theorem enterRound_eq (S : PyStr) (g : Guard) (cfg : TraderConfig) (tick : Tick)
    (target : String × ℚ) (st : TraderState) :
    enterRound S g cfg tick target st = .ok none st ∨
      enterRound S g cfg tick target st = .error (.keyError target.1) st ∨
      target.1 ∉ st.held.keys ∧ ∃ qty price entryFill,
        enterRound S g cfg tick target st = bookEntry S g tick target.1 qty price entryFill st := by
  unfold enterRound
  rw [Raising.bind_of_eq_ok (Raising.get_run st)]
  by_cases hheld : target.1 ∈ st.held.keys
  · exact Or.inl (by rw [if_pos hheld]; rfl)
  rw [if_neg hheld]
  cases hbar : tick.snapshot.get? target.1 with
  | none => exact Or.inr (Or.inl rfl)
  | some bar =>
    dsimp only
    by_cases hclose : bar.close ≤ 0
    · exact Or.inl (by rw [if_pos hclose]; rfl)
    rw [if_neg hclose, simulateEntry]
    by_cases hfill : cfg.fill bar bar.close true ≤ 0
    · exact Or.inl (by rw [if_pos hfill]; rfl)
    · rw [if_neg hfill]
      exact Or.inr (Or.inr ⟨hheld, _, _, _, rfl⟩)

/-! ## Legs -/

variable {st st' : TraderState} {sym : String} {price : ℚ}

/-- A broker call that returned changed the broker only. -/
lemma onBroker_eq_ok {α : Type} {x : Raising OrderError BrokerState α} {a : α} :
    onBroker x st = .ok a st' ↔ ∃ b, x st.broker = .ok a b ∧ st' = { st with broker := b } := by
  unfold onBroker
  rw [Raising.mapError_eq_ok, Raising.on_eq_ok]

/-- A broker call that raised changed the broker only. -/
lemma onBroker_eq_error {α : Type} {x : Raising OrderError BrokerState α} {e : StepError} :
    onBroker x st = .error e st' ↔
      ∃ e' b, x st.broker = .error e' b ∧ e = .order e' ∧ st' = { st with broker := b } := by
  unfold onBroker
  rw [Raising.mapError_eq_error]
  constructor
  · rintro ⟨e', h, rfl⟩
    obtain ⟨b, hb, rfl⟩ := Raising.on_eq_error.mp h
    exact ⟨e', b, hb, rfl, rfl⟩
  · rintro ⟨e', b, hb, rfl, rfl⟩
    exact ⟨e', Raising.on_eq_error.mpr ⟨b, hb, rfl⟩, rfl⟩

/-- What an entry that returned did. -/
theorem bookEntry_eq_ok {qty entryFill : ℚ} {ev : Option PaperFill}
    (h : bookEntry S g tick sym qty price entryFill st = .ok ev st') :
    ∃ b fill, ev = some fill ∧ fill = ⟨tick.fillTs sym, sym, "buy", qty, price, entryFill, 0⟩ ∧
      b.filled = st.broker.filled ++ [fill.order] ∧
      st' = { st with broker := b, held := st.held.set sym ⟨qty, entryFill⟩ } := by
  obtain ⟨o, t, horder, hrest⟩ := Raising.bind_eq_ok.mp h
  obtain ⟨b, hb, rfl⟩ := onBroker_eq_ok.mp horder
  obtain ⟨rfl, -, hfilled⟩ := submitOrder_eq_ok hb
  cases hrest
  refine ⟨b, _, rfl, rfl, ?_, rfl⟩
  rw [hfilled]
  simp [Call.order, PaperFill.order]

/-- What an exit that returned did. -/
theorem bookExit_eq_ok {sellFill : ℚ} {ev : Option PaperFill}
    (h : bookExit S g cfg tick sym price sellFill st = .ok ev st') :
    ∃ held b fill, st.held.get? sym = some held ∧ ev = some fill ∧
      fill = ⟨tick.fillTs sym, sym, "sell", held.qty, price, sellFill,
        net cfg.feeRate held.qty held.entryFill sellFill⟩ ∧
      b.filled = st.broker.filled ++ [fill.order] ∧
      st' = { st with
        broker := b
        held := st.held.erase sym
        realizedPnl := st.realizedPnl + fill.realizedPnl } := by
  unfold bookExit at h
  rw [Raising.bind_of_eq_ok (Raising.get_run st)] at h
  cases hheld : st.held.get? sym with
  | none =>
    rw [hheld] at h
    cases h
  | some held =>
    rw [hheld] at h
    obtain ⟨o, t, horder, hrest⟩ := Raising.bind_eq_ok.mp h
    obtain ⟨b, hb, rfl⟩ := onBroker_eq_ok.mp horder
    obtain ⟨rfl, -, hfilled⟩ := submitOrder_eq_ok hb
    cases hrest
    refine ⟨held, b, _, rfl, rfl, rfl, ?_, rfl⟩
    rw [hfilled]
    simp [Call.order, PaperFill.order]

/-- What an entry that raised did: its order raised. -/
theorem bookEntry_eq_error {qty entryFill : ℚ} {e : StepError}
    (h : bookEntry S g tick sym qty price entryFill st = .error e st') :
    ∃ e' b, submitOrder S g ⟨sym, "buy", .fin qty, .fin price, tick.env sym⟩ st.broker =
        .error e' b ∧ e = .order e' ∧ st' = { st with broker := b } := by
  rcases Raising.bind_eq_error.mp h with horder | ⟨o, t, -, hrest⟩
  · exact onBroker_eq_error.mp horder
  · cases hrest

/-- What an exit that raised did: the symbol is not held, or its order raised. -/
theorem bookExit_eq_error {sellFill : ℚ} {e : StepError}
    (h : bookExit S g cfg tick sym price sellFill st = .error e st') :
    e = .keyError sym ∧ st' = st ∨
      ∃ held e' b, st.held.get? sym = some held ∧
        submitOrder S g ⟨sym, "sell", .fin held.qty, .fin price, tick.env sym⟩ st.broker =
          .error e' b ∧ e = .order e' ∧ st' = { st with broker := b } := by
  unfold bookExit at h
  rw [Raising.bind_of_eq_ok (Raising.get_run st)] at h
  cases hheld : st.held.get? sym with
  | none =>
    rw [hheld] at h
    cases h
    exact Or.inl ⟨rfl, rfl⟩
  | some held =>
    rw [hheld] at h
    rcases Raising.bind_eq_error.mp h with horder | ⟨o, t, -, hrest⟩
    · obtain ⟨e', b, hb, he, hst⟩ := onBroker_eq_error.mp horder
      exact Or.inr ⟨held, e', b, rfl, hb, he, hst⟩
    · cases hrest

end Rounds

end KeelTrader.Core
