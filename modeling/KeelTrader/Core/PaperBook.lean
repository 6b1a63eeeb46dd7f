import KeelTrader.Core.KrakenPaper
import KeelTrader.Lib.Alternating

set_option relaxedAutoImplicit false
set_option autoImplicit false

/-!
# The paper book

What the fills of a paper trader say: which symbols are held and what has been realized. The
book read off the fills, the trader's own state, its ledger and the executor's log agree after
every run of cycles that return.

## Main definitions

* `KeelTrader.Core.lastFill`, `matchedPairs` — the latest fill of a symbol, and the round trips.
* `KeelTrader.Core.Book` — holdings and profit agree with a record of fills.
* `KeelTrader.Core.TraderState.Ok` — the invariant between cycles.

## Main results

* `KeelTrader.Core.Book.bought`, `Book.sold` — one leg keeps the book.
* `KeelTrader.Core.trade_spec` — a cycle keeps it, and what is left when it raises.
* `KeelTrader.Core.runTicks_book` — fills, ledger, executor log, holdings and profit agree after
  every run of cycles that return.
-/

namespace KeelTrader.Core

/-! ## Reading a record of fills -/

/-- The fill is a buy. -/
def PaperFill.IsBuy (f : PaperFill) : Prop := f.side = "buy"

/-- The fill is a sell. -/
def PaperFill.IsSell (f : PaperFill) : Prop := f.side = "sell"

/-- The sell closes the whole quantity of the buy. -/
def PaperFill.Closes (buy sell : PaperFill) : Prop := sell.qty = buy.qty

/-- The fills of one symbol. -/
def fillsOf (sym : String) (record : List PaperFill) : List PaperFill :=
  record.filter fun f => decide (f.symbol = sym)

/-- The latest fill of a symbol. -/
def lastFill (sym : String) (record : List PaperFill) : Option PaperFill :=
  lastOf PaperFill.symbol sym record

/-- The round trips of a record, newest fill first: each sell with the fill of its symbol before
it. -/
def pairsNewestFirst : List PaperFill → List (PaperFill × PaperFill)
  | [] => []
  | f :: older =>
    if f.side = "sell" then
      ((older.find? fun b => decide (b.symbol = f.symbol)).toList.map fun b => (b, f)) ++
        pairsNewestFirst older
    else pairsNewestFirst older

/-- The matched pairs of buys and sells in a record. -/
def matchedPairs (record : List PaperFill) : List (PaperFill × PaperFill) :=
  pairsNewestFirst record.reverse

/-- The net result of a matched pair: what the price made of the quantity, less the fee on both
legs. -/
def netOf (feeRate : ℚ) (pair : PaperFill × PaperFill) : ℚ :=
  pair.1.qty * (pair.2.fillPrice - pair.1.fillPrice) -
    feeRate * pair.1.qty * (pair.1.fillPrice + pair.2.fillPrice)

lemma matchedPairs_concat_buy {record : List PaperFill} {f : PaperFill} (h : f.IsBuy) :
    matchedPairs (record ++ [f]) = matchedPairs record := by
  have hnot : f.side ≠ "sell" := by
    rw [show f.side = "buy" from h]
    decide
  simp [matchedPairs, pairsNewestFirst, hnot]

lemma matchedPairs_concat_sell {record : List PaperFill} {b f : PaperFill} (h : f.IsSell)
    (hlast : lastFill f.symbol record = some b) :
    matchedPairs (record ++ [f]) = (b, f) :: matchedPairs record := by
  have hsell : f.side = "sell" := h
  have hfind : record.reverse.find? (fun b => decide (b.symbol = f.symbol)) = some b := hlast
  simp [matchedPairs, pairsNewestFirst, hsell, hfind]

/-! ## The book -/

/-- Holdings and realized profit agree with a record of fills. -/
structure Book (feeRate : ℚ) (record : List PaperFill) (held : Dict String Held) (pnl : ℚ) :
    Prop where
  /-- The fills of each symbol alternate between a buy and a sell of its quantity. -/
  alternates : ∀ sym,
    Alternating PaperFill.IsBuy PaperFill.IsSell PaperFill.Closes (fillsOf sym record)
  /-- What is held are the symbols whose latest fill is a buy, as that fill has it. -/
  held_iff : ∀ sym h, held.get? sym = some h ↔
    ∃ b, lastFill sym record = some b ∧ b.IsBuy ∧ h = ⟨b.qty, b.fillPrice⟩
  /-- What is realized is the net of the matched pairs. -/
  pnl_eq : pnl = ((matchedPairs record).map (netOf feeRate)).sum
  /-- What is realized is the sum over the fills. -/
  realized_eq : pnl = (record.map PaperFill.realizedPnl).sum

lemma Book.empty (feeRate : ℚ) : Book feeRate [] .empty 0 where
  alternates := fun _ => trivial
  held_iff := by simp [lastFill, lastOf]
  pnl_eq := rfl
  realized_eq := rfl

lemma fillsOf_concat_self {record : List PaperFill} (f : PaperFill) :
    fillsOf f.symbol (record ++ [f]) = fillsOf f.symbol record ++ [f] := by
  simp [fillsOf]

lemma fillsOf_concat_ne {record : List PaperFill} {f : PaperFill} {sym : String}
    (h : f.symbol ≠ sym) : fillsOf sym (record ++ [f]) = fillsOf sym record := by
  simp [fillsOf, h]

lemma lastFill_concat (sym : String) (record : List PaperFill) (f : PaperFill) :
    lastFill sym (record ++ [f]) = if f.symbol = sym then some f else lastFill sym record :=
  lastOf_concat _ _ _ _

section Book

variable {feeRate pnl : ℚ} {record : List PaperFill} {held : Dict String Held} {f : PaperFill}

/-- The last fill of a symbol that is not held is no buy. -/
lemma Book.not_isBuy (h : Book feeRate record held pnl) {sym : String}
    (hnot : sym ∉ held.keys) {b : PaperFill} (hb : lastFill sym record = some b) : ¬b.IsBuy := by
  intro hbuy
  refine hnot (Dict.mem_keys_iff.mpr ⟨⟨b.qty, b.fillPrice⟩, ?_⟩)
  exact (h.held_iff sym _).mpr ⟨b, hb, hbuy, rfl⟩

/-- **A buy of a symbol that is not held** is booked. -/
theorem Book.bought (h : Book feeRate record held pnl) (hbuy : f.IsBuy)
    (hpnl : f.realizedPnl = 0) (hnot : f.symbol ∉ held.keys) :
    Book feeRate (record ++ [f]) (held.set f.symbol ⟨f.qty, f.fillPrice⟩) pnl where
  alternates := by
    intro sym
    by_cases hsym : f.symbol = sym
    · subst hsym
      rw [fillsOf_concat_self]
      refine (h.alternates f.symbol).concat_open (fun b hb => ?_) hbuy
      rw [fillsOf, getLast?_filter_key] at hb
      exact h.not_isBuy hnot hb
    · rw [fillsOf_concat_ne hsym]
      exact h.alternates sym
  held_iff := by
    intro sym held'
    rw [Dict.get?_set, lastFill_concat]
    by_cases hsym : f.symbol = sym
    · subst hsym
      simp [hbuy, eq_comm]
    · rw [if_neg (Ne.symm hsym), if_neg hsym]
      exact h.held_iff sym held'
  pnl_eq := by
    rw [matchedPairs_concat_buy hbuy]
    exact h.pnl_eq
  realized_eq := by
    rw [List.map_append, List.sum_append, ← h.realized_eq]
    simp [hpnl]

/-- **A sell of what is held** is booked. -/
theorem Book.sold (h : Book feeRate record held pnl) (hsell : f.IsSell) {entry : Held}
    (hentry : held.get? f.symbol = some entry) (hqty : f.qty = entry.qty)
    (hpnl : f.realizedPnl = net feeRate entry.qty entry.entryFill f.fillPrice) :
    Book feeRate (record ++ [f]) (held.erase f.symbol) (pnl + f.realizedPnl) := by
  obtain ⟨b, hlast, hbuy, rfl⟩ := (h.held_iff f.symbol entry).mp hentry
  have hnotBoth : ∀ a : PaperFill, a.IsBuy → ¬a.IsSell := by
    intro a ha hs
    rw [PaperFill.IsSell, show a.side = "buy" from ha] at hs
    exact absurd hs (by decide)
  refine ⟨fun sym => ?_, fun sym held' => ?_, ?_, ?_⟩
  · by_cases hsym : f.symbol = sym
    · subst hsym
      rw [fillsOf_concat_self]
      refine (h.alternates f.symbol).concat_close hnotBoth (a := b) ?_ hbuy hsell hqty
      rw [fillsOf, getLast?_filter_key]
      exact hlast
    · rw [fillsOf_concat_ne hsym]
      exact h.alternates sym
  · rw [Dict.get?_erase, lastFill_concat]
    by_cases hsym : f.symbol = sym
    · subst hsym
      have hnotBuy : ¬f.IsBuy := fun hb => hnotBoth f hb hsell
      simp [hnotBuy]
    · rw [if_neg (Ne.symm hsym), if_neg hsym]
      exact h.held_iff sym held'
  · rw [matchedPairs_concat_sell hsell hlast, List.map_cons, List.sum_cons, ← h.pnl_eq, hpnl]
    exact add_comm _ _
  · rw [List.map_append, List.sum_append, ← h.realized_eq]
    simp

end Book

/-! ## One cycle -/

/-- The state during a cycle: the fills and the ledger are still those of its start, and with
the events so far they agree with the book and with the executor's log. -/
structure Mid (feeRate : ℚ) (fills ledger events : List PaperFill) (st : TraderState) : Prop where
  fills_eq : st.fills = fills
  ledger_eq : st.ledger = ledger
  book : Book feeRate (fills ++ events) st.held st.realizedPnl
  filled_eq : st.broker.filled = (fills ++ events).map PaperFill.order

/-- The state that a cycle leaves when it raises `e` after the given events: they are in the
book and in the executor's log, but not in the fills nor in the ledger. -/
structure AbortedAfter (feeRate : ℚ) (fills ledger events : List PaperFill) (e : StepError)
    (st : TraderState) : Prop where
  fills_eq : st.fills = fills
  ledger_eq : st.ledger = ledger
  book : Book feeRate (fills ++ events) st.held st.realizedPnl
  filled_prefix : (fills ++ events).map PaperFill.order <+: st.broker.filled
  filled_of_refused : e.isDeathSpiral = true →
    st.broker.filled = (fills ++ events).map PaperFill.order

/-- The state that a cycle leaves when it raises. -/
def Aborted (feeRate : ℚ) (fills ledger : List PaperFill) (e : StepError) (st : TraderState) :
    Prop :=
  ∃ events, AbortedAfter feeRate fills ledger events e st

/-- The invariant between cycles: the ledger has the fills, which agree with the book and with
the executor's log. -/
structure TraderState.Ok (feeRate : ℚ) (st : TraderState) : Prop where
  ledger_eq : st.ledger = st.fills
  book : Book feeRate st.fills st.held st.realizedPnl
  filled_eq : st.broker.filled = st.fills.map PaperFill.order

section Cycle

variable {S : PyStr} {g : Guard} {cfg : TraderConfig} {tick : Tick} {targets : Dict String ℚ}
  {fills ledger events : List PaperFill} {st : TraderState} {sym : String}

/-- Nothing more was booked when an exception left the state as it was. -/
lemma Mid.aborted (h : Mid cfg.feeRate fills ledger events st) (e : StepError) :
    AbortedAfter cfg.feeRate fills ledger events e st :=
  ⟨h.fills_eq, h.ledger_eq, h.book, by rw [h.filled_eq], fun _ => h.filled_eq⟩

/-- Nothing more was booked when an order raised. -/
lemma Mid.aborted_order (h : Mid cfg.feeRate fills ledger events st) {c : Call} {e : OrderError}
    {b : BrokerState} (hraise : submitOrder S g c st.broker = .error e b) :
    AbortedAfter cfg.feeRate fills ledger events (.order e) { st with broker := b } := by
  refine ⟨h.fills_eq, h.ledger_eq, h.book, ?_, fun he => ?_⟩
  · rw [← h.filled_eq]
    exact filled_prefix_of_error hraise
  · rw [← h.filled_eq]
    exact (refused_of_error hraise he).2

/-- An exit keeps the book. -/
lemma bookExit_spec (S : PyStr) (g : Guard) (cfg : TraderConfig) (tick : Tick)
    (fills ledger events : List PaperFill) (sym : String) (price sellFill : ℚ) :
    Raising.Spec (Mid cfg.feeRate fills ledger events) (bookExit S g cfg tick sym price sellFill)
      (fun ev => Mid cfg.feeRate fills ledger (events ++ ev.toList))
      (AbortedAfter cfg.feeRate fills ledger events) := by
  refine Raising.Spec.intro (fun st ev st' h hrun => ?_) (fun st e st' h hrun => ?_)
  · obtain ⟨held, b, fill, hheld, rfl, hfill, hfilled, rfl⟩ := bookExit_eq_ok hrun
    refine ⟨h.fills_eq, h.ledger_eq, ?_, ?_⟩
    · rw [Option.toList_some, ← List.append_assoc]
      subst hfill
      exact h.book.sold (f := ⟨tick.fillTs sym, sym, "sell", _, _, _, _⟩) rfl hheld rfl rfl
    · show b.filled = _
      simp [hfilled, h.filled_eq]
  · rcases bookExit_eq_error hrun with ⟨-, rfl⟩ | ⟨held, e', b, -, hraise, rfl, rfl⟩
    · exact h.aborted e
    · exact h.aborted_order hraise

/-- An entry of a symbol that is not held keeps the book. -/
lemma bookEntry_spec (S : PyStr) (g : Guard) (cfg : TraderConfig) (tick : Tick)
    (fills ledger events : List PaperFill) (sym : String) (qty price entryFill : ℚ) :
    Raising.Spec (fun st => Mid cfg.feeRate fills ledger events st ∧ sym ∉ st.held.keys)
      (bookEntry S g tick sym qty price entryFill)
      (fun ev => Mid cfg.feeRate fills ledger (events ++ ev.toList))
      (AbortedAfter cfg.feeRate fills ledger events) := by
  refine Raising.Spec.intro (fun st ev st' h hrun => ?_) (fun st e st' h hrun => ?_)
  · obtain ⟨b, fill, rfl, hfill, hfilled, rfl⟩ := bookEntry_eq_ok hrun
    refine ⟨h.1.fills_eq, h.1.ledger_eq, ?_, ?_⟩
    · rw [Option.toList_some, ← List.append_assoc]
      subst hfill
      exact h.1.book.bought (f := ⟨tick.fillTs sym, sym, "buy", _, _, _, _⟩) rfl rfl h.2
    · show b.filled = _
      simp [hfilled, h.1.filled_eq]
  · obtain ⟨e', b, hraise, rfl, rfl⟩ := bookEntry_eq_error hrun
    exact h.1.aborted_order hraise

/-- A round of the exit loop keeps the book. -/
lemma exitRound_spec (S : PyStr) (g : Guard) (cfg : TraderConfig) (tick : Tick)
    (targets : Dict String ℚ) (fills ledger events : List PaperFill) (sym : String) :
    Raising.Spec (Mid cfg.feeRate fills ledger events) (exitRound S g cfg tick targets sym)
      (fun ev => Mid cfg.feeRate fills ledger (events ++ ev.toList))
      (AbortedAfter cfg.feeRate fills ledger events) := by
  rw [exitRound_eq]
  cases exitAttempt cfg tick targets sym with
  | none =>
    refine Raising.Spec.pure fun st h => ?_
    simpa using h
  | some bar => exact bookExit_spec S g cfg tick fills ledger events sym _ _

/-- A round of the entry loop keeps the book. -/
lemma enterRound_spec (S : PyStr) (g : Guard) (cfg : TraderConfig) (tick : Tick)
    (fills ledger events : List PaperFill) (target : String × ℚ) :
    Raising.Spec (Mid cfg.feeRate fills ledger events) (enterRound S g cfg tick target)
      (fun ev => Mid cfg.feeRate fills ledger (events ++ ev.toList))
      (AbortedAfter cfg.feeRate fills ledger events) := by
  intro st h
  rcases enterRound_eq S g cfg tick target st with hrun | hrun | ⟨hnot, qty, price, fill, hrun⟩
  · rw [hrun]
    simpa using h
  · rw [hrun]
    exact h.aborted _
  · rw [hrun]
    exact bookEntry_spec S g cfg tick fills ledger events _ _ _ _ st ⟨h, hnot⟩

/-- The exit loop keeps the book. -/
lemma exitLoop_spec (S : PyStr) (g : Guard) (cfg : TraderConfig) (tick : Tick)
    (targets : Dict String ℚ) (fills ledger : List PaperFill) (syms : List String) :
    Raising.Spec (Mid cfg.feeRate fills ledger [])
      (Raising.forEach (exitRound S g cfg tick targets) syms)
      (fun exits => Mid cfg.feeRate fills ledger exits) (Aborted cfg.feeRate fills ledger) :=
  Raising.Spec.forEach (I := fun _ out => Mid cfg.feeRate fills ledger out)
    fun _ sym _ out _ => (exitRound_spec S g cfg tick targets fills ledger out sym).conseq
      (fun _ h => h) (fun _ _ h => h) fun _ _ h => ⟨out, h⟩

/-- The entry loop keeps the book. -/
lemma entryLoop_spec (S : PyStr) (g : Guard) (cfg : TraderConfig) (tick : Tick)
    (fills ledger exits : List PaperFill) (targets : List (String × ℚ)) :
    Raising.Spec (Mid cfg.feeRate fills ledger exits)
      (Raising.forEach (enterRound S g cfg tick) targets)
      (fun entries => Mid cfg.feeRate fills ledger (exits ++ entries))
      (Aborted cfg.feeRate fills ledger) := by
  have hloop : Raising.Spec (Mid cfg.feeRate fills ledger (exits ++ []))
      (Raising.forEach (enterRound S g cfg tick) targets)
      (fun entries => Mid cfg.feeRate fills ledger (exits ++ entries))
      (Aborted cfg.feeRate fills ledger) :=
    Raising.Spec.forEach (I := fun _ out => Mid cfg.feeRate fills ledger (exits ++ out))
      fun _ target _ out _ =>
        (enterRound_spec S g cfg tick fills ledger (exits ++ out) target).conseq
          (fun _ h => h) (fun _ _ h => by rwa [List.append_assoc] at h)
          fun _ _ h => ⟨exits ++ out, h⟩
  simpa using hloop

/-- A commit brings fills and ledger up to date. -/
lemma Mid.commit (h : Mid cfg.feeRate fills fills events st) :
    TraderState.Ok cfg.feeRate
      { st with ledger := st.ledger ++ events, fills := st.fills ++ events } := by
  refine ⟨?_, ?_, ?_⟩
  · show st.ledger ++ events = st.fills ++ events
    rw [h.ledger_eq, h.fills_eq]
  · show Book cfg.feeRate (st.fills ++ events) st.held st.realizedPnl
    rw [h.fills_eq]
    exact h.book
  · show st.broker.filled = (st.fills ++ events).map PaperFill.order
    rw [h.filled_eq, h.fills_eq]

/-- **A cycle**, once its targets are known: it commits what it booked, or raises after booking
some of it. -/
theorem trade_spec (S : PyStr) (g : Guard) (cfg : TraderConfig) (tick : Tick)
    (targets : Dict String ℚ) (fills : List PaperFill) :
    Raising.Spec (Mid cfg.feeRate fills fills []) (trade S g cfg tick targets)
      (fun _ => TraderState.Ok cfg.feeRate) (Aborted cfg.feeRate fills fills) := by
  intro st h
  unfold trade
  rw [Raising.bind_of_eq_ok (Raising.get_run st)]
  have hexits := exitLoop_spec S g cfg tick targets fills fills st.held.keys
  refine Raising.Spec.bind hexits (fun exits => ?_) st h
  have hentries := entryLoop_spec S g cfg tick fills fills exits targets.entries
  refine Raising.Spec.bind hentries fun entries => ?_
  intro t ht
  exact ht.commit

/-- **Step.** A cycle that returns keeps the invariant; one that raises has booked some events
that it did not commit. -/
theorem step_spec (S : PyStr) (g : Guard) (cfg : TraderConfig) (tick : Tick)
    (fills : List PaperFill) :
    Raising.Spec (fun st => st.Ok cfg.feeRate ∧ st.fills = fills) (step S g cfg tick)
      (fun _ => TraderState.Ok cfg.feeRate) (Aborted cfg.feeRate fills fills) := by
  rintro st ⟨h, rfl⟩
  have hmid : Mid cfg.feeRate st.fills st.fills []
      { st with bars := pushBars cfg.history tick.snapshot st.bars } :=
    ⟨rfl, h.ledger_eq, by simpa using h.book, by simpa using h.filled_eq⟩
  rw [step_run]
  cases targetsAt cfg tick st with
  | none => exact ⟨[], hmid.aborted _⟩
  | some targets => exact trade_spec S g cfg tick targets st.fills _ hmid

end Cycle

/-! ## Runs of cycles that return -/

/-- A new trader satisfies the invariant. -/
lemma TraderState.Ok.start (feeRate : ℚ) (disk : Disk) : (TraderState.start disk).Ok feeRate :=
  ⟨rfl, Book.empty feeRate, rfl⟩

/-- **Run.** Cycles that return keep the invariant. -/
theorem runTicks_ok {S : PyStr} {g : Guard} {cfg : TraderConfig} {ticks : List Tick}
    {st st' : TraderState} (h : st.Ok cfg.feeRate)
    (hrun : runTicks S g cfg ticks st = .ok () st') : st'.Ok cfg.feeRate := by
  induction ticks generalizing st with
  | nil =>
    cases hrun
    exact h
  | cons tick ticks ih =>
    obtain ⟨events, t, hstep, hrest⟩ := Raising.bind_eq_ok.mp hrun
    exact ih ((step_spec S g cfg tick st.fills).of_ok ⟨h, rfl⟩ hstep) hrest

/-- **Paper book, ledger and profit agree.** After any cycles that all return, from a new
trader: the executor's log and the ledger have the fills in their order; the fills of each
symbol alternate, each sell closing the quantity of the buy before it; what is held are exactly
the symbols whose latest fill is a buy, with its quantity and fill price; and the realized
profit is the sum over all matched pairs of what the price made of the quantity, less the fee on
both legs. -/
theorem runTicks_book (S : PyStr) (g : Guard) (cfg : TraderConfig) (disk : Disk)
    (ticks : List Tick) (st : TraderState)
    (hrun : runTicks S g cfg ticks (TraderState.start disk) = .ok () st) :
    st.broker.filled = st.fills.map PaperFill.order ∧ st.ledger = st.fills ∧
      (∀ sym, Alternating PaperFill.IsBuy PaperFill.IsSell PaperFill.Closes
        (fillsOf sym st.fills)) ∧
      (∀ sym h, st.held.get? sym = some h ↔
        ∃ b, lastFill sym st.fills = some b ∧ b.IsBuy ∧ h = ⟨b.qty, b.fillPrice⟩) ∧
      st.realizedPnl = ((matchedPairs st.fills).map fun (buy, sell) =>
        buy.qty * (sell.fillPrice - buy.fillPrice) -
          cfg.feeRate * buy.qty * (buy.fillPrice + sell.fillPrice)).sum := by
  have h := runTicks_ok (TraderState.Ok.start cfg.feeRate disk) hrun
  exact ⟨h.filled_eq, h.ledger_eq, h.book.alternates, h.book.held_iff, h.book.pnl_eq⟩

/-- A buy at 100 and a sell at 99, an hour apart: 34 units bought at 100.1 and sold at 98.901 lose
40.766 on the price and 17.5916884 on the fees. -/
theorem runTicks_book_round_trip :
    let buy := Tick.at 0 ⟨[("BTC/USD", ⟨100, 101, 99, 100⟩)], by decide⟩ fun _ _ => (1, 1 / 50)
    let sell := Tick.at 3600 ⟨[("BTC/USD", ⟨99, 100, 98, 99⟩)], by decide⟩ fun _ _ => (-1, 1 / 50)
    ∃ st, runTicks .ascii ⟨false, none⟩ {} [buy, sell] (TraderState.start ⟨none, []⟩) = .ok () st ∧
      st.fills.length = 2 ∧ st.realizedPnl = -(40766 / 1000 + 175916884 / 10000000) ∧
      ((matchedPairs st.fills).map fun (buy, sell) =>
        buy.qty * (sell.fillPrice - buy.fillPrice) -
          26 / 10000 * buy.qty * (buy.fillPrice + sell.fillPrice)).sum =
        -(40766 / 1000 + 175916884 / 10000000) := by
  intro buy sell
  obtain ⟨_, st, hrun, htest⟩ := Raising.exists_of_returnsWith
    (show Raising.returnsWith (runTicks .ascii ⟨false, none⟩ {} [buy, sell])
      (TraderState.start ⟨none, []⟩) (fun _ st => decide (st.fills.length = 2) &&
        decide (st.realizedPnl = -(40766 / 1000 + 175916884 / 10000000))) = true by
      decide +kernel)
  rw [Bool.and_eq_true, decide_eq_true_eq, decide_eq_true_eq] at htest
  have hbook := runTicks_book .ascii ⟨false, none⟩ {} ⟨none, []⟩ [buy, sell] st hrun
  exact ⟨st, hrun, htest.1, htest.2, hbook.2.2.2.2.symm.trans htest.2⟩

end KeelTrader.Core
