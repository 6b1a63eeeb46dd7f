import KeelTrader.Core.BuyMemory
import KeelTrader.Core.PaperRunner

set_option relaxedAutoImplicit false
set_option autoImplicit false

/-!
# The floor of the paper runner

The paper runner on the guard and the buy memory of one account. Nothing but the guard looks at
the price of a sell, and the guard passes over a price that is not positive, as `record_buy_price`
does. The floor of the latest buy is kept in every run whose sells are checked against that buy.

## Main definitions

* `KeelTrader.Core.Account`, `World` — the account, and the outside world of a run.
* `KeelTrader.Core.accountSpine` — the guard and the recording of buys on the account.
* `KeelTrader.Core.PaperRunner.FloorKept` — every sell respects the floor of the latest buy.
* `KeelTrader.Core.PaperRunner.Checked` — a sell meets the record of the latest buy.
* `KeelTrader.Core.Account.Ok` — the invariant.

## Main results

* `KeelTrader.Core.guardSell_keeps`, `recordBuyPrice_keeps` — whatever the price, both keep what
  the files remember.
* `KeelTrader.Core.PaperRunner.step_floor` — a cycle keeps the invariant.
* `KeelTrader.Core.PaperRunner.runCycles_floor` — the floor is kept by every run whose sells are
  all checked.
* `KeelTrader.Core.PaperRunner.not_floorKept_zero_price` — a quote of zero sells below the floor.

## Implementation notes

Every clock reading of a run is one of a stream of readings: a check takes one, a recorded buy
two. An order is stamped with the newest reading.
-/

namespace KeelTrader.Core

open Models

/-! ## The account -/

/-- A submitted order, with the clock reading at which it was checked or recorded. -/
structure TimedOrder where
  order : PaperOrder
  time : ℚ
  deriving DecidableEq, Repr

/-- The account of a paper runner. -/
structure Account where
  /-- The files of the buy memory. -/
  disk : Disk
  /-- The number of clock readings so far. -/
  ticks : ℕ
  /-- What was submitted, oldest first. -/
  log : List TimedOrder

/-- The outside world of a run. -/
structure World where
  /-- The clock readings, in the order made. -/
  clock : ℕ → ℚ
  /-- How the operating system answers when the files are loaded after a number of readings. -/
  reads : ℕ → ReadOutcome

/-- An account on which nothing was submitted yet. -/
def Account.start (disk : Disk) : Account := ⟨disk, 0, []⟩

/-- Run an operation of the buy memory that takes `readings` clock readings. -/
def onFiles (readings : ℕ) (x : Raising OrderError Disk Unit) : Raising OrderError Account Unit :=
  Raising.on Account.disk
    (fun acct disk => { acct with disk := disk, ticks := acct.ticks + readings }) x

/-- The guard, the recording of buys and a `submit` that logs every order. -/
def accountSpine (S : PyStr) (g : Guard) (w : World) : Spine OrderError Account where
  guardSell sym price := do
    let ticks := (← get).ticks
    onFiles 1 (guardSellAgainstDeathSpiral S g (w.reads ticks) (w.clock ticks) sym "sell" price {})
  recordBuy sym price := do
    let ticks := (← get).ticks
    onFiles 2 (recordBuyPrice S g (w.reads ticks) (w.clock ticks) (w.clock (ticks + 1)) sym price)
  submit order := modify fun acct =>
    { acct with log := acct.log ++ [⟨order, w.clock (acct.ticks - 1)⟩] }

/-! ## The latest buys -/

/-- The order is a buy of `sym`. -/
def TimedOrder.isBuyOf (sym : String) (e : TimedOrder) : Bool :=
  decide (e.order.side = "buy" ∧ e.order.symbol = sym)

/-- The latest submitted buy of a symbol. -/
def latestBuy (sym : String) (log : List TimedOrder) : Option TimedOrder :=
  log.reverse.find? (TimedOrder.isBuyOf sym)

/-- The order is a buy that `record_buy_price` does not pass over. -/
def TimedOrder.isRecorded (e : TimedOrder) : Bool :=
  decide (e.order.side = "buy" ∧ e.order.symbol ≠ "") && e.order.price.isFinite &&
    PyFloat.lt (.fin 0) e.order.price

/-- The memory after an order, if nothing expired. -/
def TimedOrder.write (S : PyStr) (m : Expiring.Memory String PyFloat ℚ) (e : TimedOrder) :
    Expiring.Memory String PyFloat ℚ :=
  if e.isRecorded then Expiring.write (S.upper e.order.symbol) e.order.price e.time m else m

/-- What was last recorded under each key, over what the files held before. -/
def lastRecorded (S : PyStr) (disk₀ : Disk) (log : List TimedOrder) :
    Expiring.Memory String PyFloat ℚ :=
  log.foldl (TimedOrder.write S) disk₀.remembered

lemma latestBuy_concat (sym : String) (log : List TimedOrder) (e : TimedOrder) :
    latestBuy sym (log ++ [e]) = if e.isBuyOf sym then some e else latestBuy sym log := by
  unfold latestBuy
  rw [List.reverse_append, List.reverse_singleton, List.singleton_append, List.find?_cons]
  cases e.isBuyOf sym <;> rfl

lemma lastRecorded_concat (S : PyStr) (disk₀ : Disk) (log : List TimedOrder) (e : TimedOrder) :
    lastRecorded S disk₀ (log ++ [e]) = e.write S (lastRecorded S disk₀ log) := by
  simp [lastRecorded]

/-- A sell is no buy. -/
lemma latestBuy_concat_sell {log : List TimedOrder} {e : TimedOrder} (h : e.order.side = "sell")
    (sym : String) : latestBuy sym (log ++ [e]) = latestBuy sym log := by
  simp [latestBuy_concat, TimedOrder.isBuyOf, h]

/-- A sell records nothing. -/
lemma lastRecorded_concat_sell {S : PyStr} {disk₀ : Disk} {log : List TimedOrder} {e : TimedOrder}
    (h : e.order.side = "sell") :
    lastRecorded S disk₀ (log ++ [e]) = lastRecorded S disk₀ log := by
  simp [lastRecorded_concat, TimedOrder.write, TimedOrder.isRecorded, h]

/-! ## The operations at any price -/

section Operations

variable {S : PyStr} {g : Guard} {r : ReadOutcome} {disk : Disk} {now t : ℚ} {symbol : String}
  {price : PyFloat} {last : Expiring.Memory String PyFloat ℚ}

/-- The files can be read, and remember the last writes that are inside the window. -/
def Disk.Keeps (g : Guard) (now : ℚ) (last : Expiring.Memory String PyFloat ℚ) (disk : Disk) :
    Prop :=
  disk.Clean ∧ Expiring.Remembers (g.buyMemorySeconds : ℚ) now last disk.remembered

lemma Disk.Keeps.mono (h : disk.Keeps g now last) (hle : now ≤ t) : disk.Keeps g t last :=
  ⟨h.1, h.2.mono hle⟩

/-- A pruned disk keeps the last writes. -/
lemma Disk.Keeps.pruned (h : disk.Keeps g now last) {disk' : Disk}
    (hpruned : disk.PrunedTo g t disk') (hle : now ≤ t) : disk'.Keeps g t last := by
  refine ⟨hpruned.clean, ?_⟩
  rw [hpruned.remembered h.1]
  exact h.2.prune hle

/-- A symbol and a price are passed over, or the symbol has a name and the price is a positive
rational. -/
lemma skipped_or_pos (symbol : String) (price : PyFloat) :
    (symbol = "" ∨ price.isFinite = false ∨ price.le (.fin 0) = true) ∨
      symbol ≠ "" ∧ ∃ p : ℚ, price = .fin p ∧ 0 < p := by
  by_cases hsymbol : symbol = ""
  · exact .inl (.inl hsymbol)
  cases price with
  | fin p =>
    rcases le_or_gt p 0 with hp | hp
    · exact .inl (.inr (.inr (by simpa using hp)))
    · exact .inr ⟨hsymbol, p, rfl, hp⟩
  | inf | negInf | nan => exact .inl (.inr (.inl rfl))

/-- **The guard at any price.** It keeps what the files remember; a sell that it lets through is
not refused, if it looks at it at all. -/
theorem guardSell_keeps (S : PyStr) (symbol : String) (price : PyFloat)
    (hoverride : g.override = false)
    (hr : r.readFails = false) (hkeeps : disk.Keeps g now last) (hle : now ≤ t) :
    Raising.Spec (· = disk) (guardSellAgainstDeathSpiral S g r t symbol "sell" price {})
      (fun _ disk' => disk'.Keeps g t last ∧ ∀ p : ℚ, symbol ≠ "" → price = .fin p → 0 < p →
        ¬g.Refuses t disk {} (S.upper symbol) p)
      (fun _ disk' => disk'.Keeps g t last) := by
  rcases skipped_or_pos symbol price with hskip | ⟨hsymbol, p, rfl, hp⟩
  · rw [guardSell_of_skipped hskip]
    refine Raising.Spec.pure ?_
    rintro s rfl
    refine ⟨hkeeps.mono hle, ?_⟩
    rintro p hsymbol rfl hp
    have hnot : ¬p ≤ 0 := not_le.mpr hp
    simp [hsymbol, hnot] at hskip
  · refine (guardSell_spec hoverride hr hkeeps.1 hsymbol hp t {}).conseq (fun _ hs => hs)
      (fun _ disk' h => ⟨hkeeps.pruned h.1 hle, ?_⟩) fun _ disk' h => hkeeps.pruned h.1 hle
    rintro p' - heq -
    cases heq
    exact h.2

/-- **Recording at any price.** It does not raise, and the files remember the buy, unless it is
passed over. -/
theorem recordBuyPrice_keeps (S : PyStr) (symbol : String) (price : PyFloat) (weight : ℚ)
    (hr : r.readFails = false) (hkeeps : disk.Keeps g now last) (hle : now ≤ t) {stampAt : ℚ}
    (hstamp : t ≤ stampAt) :
    Raising.Spec (· = disk) (recordBuyPrice S g r t stampAt symbol price)
      (fun _ disk' =>
        disk'.Keeps g stampAt (TimedOrder.write S last ⟨⟨symbol, "buy", price, weight⟩, stampAt⟩))
      (fun _ _ => False) := by
  rcases skipped_or_pos symbol price with hskip | ⟨hsymbol, p, rfl, hp⟩
  · rw [recordBuyPrice_of_skipped hskip]
    refine Raising.Spec.pure ?_
    rintro s rfl
    have hwrite : TimedOrder.write S last ⟨⟨symbol, "buy", price, weight⟩, stampAt⟩ = last := by
      unfold TimedOrder.write TimedOrder.isRecorded
      rcases hskip with h | h | h
      · simp [h]
      · simp [h]
      · cases price with
        | fin p =>
          have hnot : ¬0 < p := not_lt.mpr (by simpa using h)
          simp [hnot]
        | inf | negInf | nan => simp [PyFloat.isFinite]
    rw [hwrite]
    exact hkeeps.mono (hle.trans hstamp)
  · refine (recordBuyPrice_spec hr hkeeps.1 hsymbol hp t stampAt).conseq (fun _ hs => hs)
      (fun _ disk' h => ⟨h.clean, ?_⟩) fun _ _ h => h
    have hwrite : TimedOrder.write S last ⟨⟨symbol, "buy", .fin p, weight⟩, stampAt⟩ =
        Expiring.write (S.upper symbol) (.fin p) stampAt last := by
      simp [TimedOrder.write, TimedOrder.isRecorded, hsymbol, hp]
    rw [h.remembered hkeeps.1, hwrite]
    exact ((hkeeps.2.prune hle).mono hstamp).write (S.upper symbol) (.fin p) stampAt

end Operations

/-! ## The floor -/

namespace PaperRunner

/-- Every submitted sell is at or above the floor of the latest submitted buy of its symbol, if
that buy is inside the memory window. -/
def FloorKept (g : Guard) (log : List TimedOrder) : Prop :=
  ∀ before e after, log = before ++ e :: after → e.order.side = "sell" →
    ∀ b, latestBuy e.order.symbol before = some b → e.time - b.time ≤ g.buyMemorySeconds →
      ∀ price buyPrice : ℚ, e.order.price = .fin price → b.order.price = .fin buyPrice →
        price ≥ buyPrice * (1 - g.baseBps {} / 10000)

/-- A sell of `sym` at `price` meets the record of the latest buy: unless that buy has left the
memory window, the symbol has a name, the price is positive, and what was last recorded under the
upper-cased symbol is that buy, or a buy for nothing whose floor is not above zero. -/
def Checked (S : PyStr) (g : Guard) (w : World) (disk₀ : Disk) (acct : Account) (sym : String)
    (price : PyFloat) : Prop :=
  ∀ b ∈ latestBuy sym acct.log, w.clock acct.ticks - b.time ≤ g.buyMemorySeconds →
    sym ≠ "" ∧ price.isFinite = true ∧ PyFloat.lt (.fin 0) price = true ∧
      (lastRecorded S disk₀ acct.log (S.upper sym) = some (b.order.price, b.time) ∨
        b.order.price.le (.fin 0) = true ∧ g.baseBps {} ≤ 10000)

/-- Every sell that the cycle may submit meets the record of the latest buy. -/
def CheckedCycle (S : PyStr) (g : Guard) (w : World) (disk₀ : Disk) (cfg : StrategyConfig)
    (st : RunnerState Account) (cycle : RunnerCycle) : Prop :=
  ∀ targets ∈ targetWeights cfg cycle.signals, ∀ sym ∈ st.held.keys, sym ∉ targets.keys →
    ∀ price ∈ cycle.prices.get? sym, Checked S g w disk₀ st.outside sym price

/-- The floor is kept by one more order when that order keeps it. -/
lemma FloorKept.concat {g : Guard} {log : List TimedOrder} {e : TimedOrder} (h : FloorKept g log)
    (he : e.order.side = "sell" →
      ∀ b, latestBuy e.order.symbol log = some b → e.time - b.time ≤ g.buyMemorySeconds →
        ∀ price buyPrice : ℚ, e.order.price = .fin price → b.order.price = .fin buyPrice →
          price ≥ buyPrice * (1 - g.baseBps {} / 10000)) : FloorKept g (log ++ [e]) :=
  forall_split_concat h he

end PaperRunner

/-- **The invariant.** The files remember what was recorded, and the floor was kept. -/
structure Account.Ok (S : PyStr) (g : Guard) (w : World) (disk₀ : Disk) (acct : Account) :
    Prop where
  /-- The files can be read, and remember the last recorded buys until they expire. -/
  keeps : acct.disk.Keeps g (w.clock acct.ticks) (lastRecorded S disk₀ acct.log)
  /-- Every sell so far respected the floor. -/
  floor : PaperRunner.FloorKept g acct.log

namespace PaperRunner

section Floor

variable {S : PyStr} {g : Guard} {w : World} {disk₀ : Disk} {acct : Account} {sym : String}
  {price : PyFloat}

/-- A checked sell that the guard lets through respects the floor. -/
lemma floor_of_checked (h : acct.Ok S g w disk₀) (hclock : Monotone w.clock) {ticks₀ : ℕ}
    (hticks : ticks₀ ≤ acct.ticks) (hchecked : Checked S g w disk₀ ⟨acct.disk, ticks₀, acct.log⟩
      sym price)
    (hpass : ∀ p : ℚ, sym ≠ "" → price = .fin p → 0 < p →
      ¬g.Refuses (w.clock acct.ticks) acct.disk {} (S.upper sym) p)
    {b : TimedOrder} (hlast : latestBuy sym acct.log = some b)
    (hin : w.clock acct.ticks - b.time ≤ g.buyMemorySeconds) {p q : ℚ} (hp : price = .fin p)
    (hq : b.order.price = .fin q) : p ≥ q * (1 - g.baseBps {} / 10000) := by
  have hstart : w.clock ticks₀ - b.time ≤ g.buyMemorySeconds := by
    have hle := hclock hticks
    linarith
  obtain ⟨hname, -, hpos, hrecorded | ⟨hle, htol⟩⟩ := hchecked b hlast hstart
  · -- the files still remember the buy, so the guard compared the sell with it
    have hmem := h.keeps.2.complete _ _ hrecorded hin
    obtain ⟨buyPrice, hbuyPrice, hget⟩ := h.keeps.1.remembered_eq_some.mp hmem
    have heq : q = buyPrice := PyFloat.fin.inj (hq.symm.trans hbuyPrice)
    by_contra hlow
    rw [hp] at hpos
    refine hpass p hname hp (by simpa using hpos) ⟨buyPrice, b.time, hget, hin, ?_⟩
    rw [← heq]
    exact not_le.mp hlow
  · -- the floor is not above zero
    rw [hq] at hle
    rw [hp] at hpos
    have hq0 : q ≤ 0 := by simpa using hle
    have hp0 : 0 < p := by simpa using hpos
    have hfactor : 0 ≤ 1 - g.baseBps {} / 10000 := by
      have hone : g.baseBps {} / 10000 ≤ 1 := by
        rw [div_le_one (by norm_num)]
        exact htol
      linarith
    have hfloor : q * (1 - g.baseBps {} / 10000) ≤ 0 := mul_nonpos_of_nonpos_of_nonneg hq0 hfactor
    linarith

/-! ## One leg -/

variable {acct' : Account} {e : OrderError}

lemma onFiles_eq_ok {readings : ℕ} {x : Raising OrderError Disk Unit} :
    onFiles readings x acct = .ok () acct' ↔
      ∃ disk, x acct.disk = .ok () disk ∧ acct' = ⟨disk, acct.ticks + readings, acct.log⟩ :=
  Raising.on_eq_ok

lemma onFiles_eq_error {readings : ℕ} {x : Raising OrderError Disk Unit} :
    onFiles readings x acct = .error e acct' ↔
      ∃ disk, x acct.disk = .error e disk ∧ acct' = ⟨disk, acct.ticks + readings, acct.log⟩ :=
  Raising.on_eq_error

/-- The check of a sell takes the next clock reading. -/
lemma accountSpine_guardSell : (accountSpine S g w).guardSell sym price acct =
    onFiles 1 (guardSellAgainstDeathSpiral S g (w.reads acct.ticks) (w.clock acct.ticks) sym
      "sell" price {}) acct := rfl

/-- The recording of a buy takes the next two. -/
lemma accountSpine_recordBuy : (accountSpine S g w).recordBuy sym price acct =
    onFiles 2 (recordBuyPrice S g (w.reads acct.ticks) (w.clock acct.ticks)
      (w.clock (acct.ticks + 1)) sym price) acct := rfl

/-- The invariant of the exit loop: nothing was bought since the cycle started. -/
structure Exiting (S : PyStr) (g : Guard) (w : World) (disk₀ : Disk) (acct₀ acct : Account) :
    Prop where
  ok : acct.Ok S g w disk₀
  latest : ∀ sym, latestBuy sym acct.log = latestBuy sym acct₀.log
  recorded : lastRecorded S disk₀ acct.log = lastRecorded S disk₀ acct₀.log
  ticks_le : acct₀.ticks ≤ acct.ticks

/-- A sell that was checked at the start of the cycle is checked when it is submitted. -/
lemma Exiting.checked {acct₀ : Account} (h : Exiting S g w disk₀ acct₀ acct)
    (hchecked : Checked S g w disk₀ acct₀ sym price) :
    Checked S g w disk₀ ⟨acct.disk, acct₀.ticks, acct.log⟩ sym price := by
  unfold Checked at hchecked ⊢
  rw [h.latest, h.recorded]
  exact hchecked

section Legs

variable {acct₀ : Account} (hclock : Monotone w.clock) (hoverride : g.override = false)
  (hreads : ∀ n, (w.reads n).readFails = false)

include hclock hoverride hreads in
/-- **A sell** that was checked at the start of the cycle keeps the invariant. -/
theorem sell_floor (hchecked : Checked S g w disk₀ acct₀ sym price) :
    Raising.Spec (fun st => Exiting S g w disk₀ acct₀ st.outside)
      (sell (accountSpine S g w) sym price)
      (fun _ st => Exiting S g w disk₀ acct₀ st.outside)
      (fun _ st => st.outside.Ok S g w disk₀) := by
  have hspec (acct : Account) (h : acct.Ok S g w disk₀) :=
    guardSell_keeps S sym price hoverride (hreads acct.ticks) h.keeps
      (le_refl (w.clock acct.ticks))
  refine Raising.Spec.intro (fun st ev st' h hrun => ?_) fun st e st' h hrun => ?_
  · obtain ⟨o, o', hguard, hsubmit, -, rfl⟩ := sell_eq_ok hrun
    rw [accountSpine_guardSell] at hguard
    obtain ⟨disk, hdisk, rfl⟩ := onFiles_eq_ok.mp hguard
    cases hsubmit
    obtain ⟨hkeeps, hpass⟩ := (hspec st.outside h.ok).of_ok rfl hdisk
    refine ⟨⟨?_, ?_⟩, fun sym' => ?_, ?_, ?_⟩
    · rw [lastRecorded_concat_sell rfl]
      exact hkeeps.mono (hclock (Nat.le_succ _))
    · refine h.ok.floor.concat fun _ b hlast hin p q hp hq => ?_
      exact floor_of_checked h.ok hclock h.ticks_le (h.checked hchecked) hpass hlast hin hp hq
    · exact (latestBuy_concat_sell rfl sym').trans (h.latest sym')
    · exact (lastRecorded_concat_sell rfl).trans h.recorded
    · exact h.ticks_le.trans (Nat.le_succ _)
  · obtain ⟨e', o, rfl, hguard | ⟨o₁, -, hsubmit⟩⟩ := sell_eq_error hrun
    · rw [accountSpine_guardSell] at hguard
      obtain ⟨disk, hdisk, rfl⟩ := onFiles_eq_error.mp hguard
      have hkeeps := (hspec st.outside h.ok).of_error rfl hdisk
      exact ⟨hkeeps.mono (hclock (Nat.le_succ _)), h.ok.floor⟩
    · cases hsubmit

include hclock hreads in
/-- **A buy** keeps the invariant. -/
theorem buy_floor (weight : ℚ) :
    Raising.Spec (fun st => st.outside.Ok S g w disk₀)
      (buy (accountSpine S g w) sym weight price) (fun _ st => st.outside.Ok S g w disk₀)
      (fun _ st => st.outside.Ok S g w disk₀) := by
  have hspec (acct : Account) (h : acct.Ok S g w disk₀) :=
    recordBuyPrice_keeps S sym price weight (hreads acct.ticks) h.keeps
      (le_refl (w.clock acct.ticks)) (hclock (Nat.le_succ acct.ticks))
  refine Raising.Spec.intro (fun st ev st' h hrun => ?_) fun st e st' h hrun => ?_
  · obtain ⟨o, o', hrecord, hsubmit, -, rfl⟩ := buy_eq_ok hrun
    rw [accountSpine_recordBuy] at hrecord
    obtain ⟨disk, hdisk, rfl⟩ := onFiles_eq_ok.mp hrecord
    cases hsubmit
    have hkeeps := (hspec st.outside h).of_ok rfl hdisk
    refine ⟨?_, ?_⟩
    · rw [lastRecorded_concat]
      exact hkeeps.mono (hclock (Nat.le_succ _))
    · refine h.floor.concat fun hsell => ?_
      exact absurd hsell (by simp)
  · obtain ⟨e', o, rfl, hrecord | ⟨o₁, -, hsubmit⟩⟩ := buy_eq_error hrun
    · rw [accountSpine_recordBuy] at hrecord
      obtain ⟨disk, hdisk, rfl⟩ := onFiles_eq_error.mp hrecord
      exact ((hspec st.outside h).of_error rfl hdisk).elim
    · cases hsubmit

include hclock hoverride hreads in
/-- **Step.** A cycle whose sells are all checked keeps the invariant, whether it returns or
raises. -/
theorem step_floor {cfg : StrategyConfig} {cycle : RunnerCycle} {st : RunnerState Account}
    (h : st.outside.Ok S g w disk₀) (hchecked : CheckedCycle S g w disk₀ cfg st cycle) :
    ((step (accountSpine S g w) cfg cycle).after st).outside.Ok S g w disk₀ := by
  suffices hspec : Raising.Spec (· = st) (step (accountSpine S g w) cfg cycle)
      (fun _ st => st.outside.Ok S g w disk₀) (fun _ st => st.outside.Ok S g w disk₀) from
    hspec.after rfl
  rintro s rfl
  have hstart : Exiting S g w disk₀ s.outside s.outside := ⟨h, fun _ => rfl, rfl, le_rfl⟩
  unfold step
  cases htargets : targetWeights cfg cycle.signals with
  | none => exact h
  | some targets =>
    dsimp only
    unfold trade
    rw [Raising.bind_of_eq_ok (Raising.get_run s)]
    refine Raising.Spec.bind (exitLoop_spec
      (J := fun _ st => Exiting S g w disk₀ s.outside st.outside) s.held.nodup ?_)
      (fun exits => ?_) s ⟨hstart, fun _ hsym => hsym⟩
    · intro sym hsym hnot price hprice out
      exact (sell_floor hclock hoverride hreads
        (hchecked targets htargets sym hsym hnot price hprice)).conseq (fun _ hs => hs.1)
        (fun _ _ hs => hs) fun _ _ hs => hs
    · have hentries : Raising.Spec (fun st => st.outside.Ok S g w disk₀)
          (Raising.forEach (enterRound (accountSpine S g w) cycle.prices) targets.entries)
          (fun _ st => st.outside.Ok S g w disk₀) (fun _ st => st.outside.Ok S g w disk₀) := by
        refine entryLoop_spec (J := fun _ (st : RunnerState Account) => st.outside.Ok S g w disk₀)
          ?_ ?_ exits
        · intro target _ price _ out
          exact (buy_floor hclock hreads target.2).conseq (fun _ hs => hs.1) (fun _ _ hs => hs)
            fun _ _ hs => hs
        · exact fun _ st _ _ hs _ => hs
      refine Raising.Spec.bind (hentries.conseq (fun _ hs => hs.ok) (fun _ _ hs => hs)
        fun _ _ hs => hs) fun entries => ?_
      exact Raising.Spec.pure fun _ hs => hs

end Legs

/-! ## Runs -/

/-- Nothing was submitted on a clean account. -/
lemma ok_start (S : PyStr) (g : Guard) (w : World) (hclean : disk₀.Clean) :
    (Account.start disk₀).Ok S g w disk₀ := by
  refine ⟨⟨hclean, fun _ _ h => h, fun _ _ h _ => h⟩, ?_⟩
  intro before e after heq
  simp [Account.start] at heq

/-- **Run.** Cycles whose sells are all checked keep the invariant. -/
theorem runCycles_floorOk (hclock : Monotone w.clock) (hoverride : g.override = false)
    (hreads : ∀ n, (w.reads n).readFails = false) {cfg : StrategyConfig}
    {cycles : List RunnerCycle} {st : RunnerState Account} (h : st.outside.Ok S g w disk₀)
    (hchecked : ∀ before cycle after, cycles = before ++ cycle :: after →
      CheckedCycle S g w disk₀ cfg (runCycles (accountSpine S g w) cfg before st) cycle) :
    (runCycles (accountSpine S g w) cfg cycles st).outside.Ok S g w disk₀ := by
  induction cycles generalizing st with
  | nil => exact h
  | cons cycle cycles ih =>
    have hstep := step_floor hclock hoverride hreads h (hchecked [] cycle cycles rfl)
    refine ih hstep fun before cycle' after heq => ?_
    exact hchecked (cycle :: before) cycle' after (by rw [heq]; rfl)

/-- **The floor of the paper runner.** Whatever the price feed delivers, at nondecreasing clock
readings, without the override, on files that can be read: in every run whose sells all meet the
record of the latest buy, every submitted sell is at or above the floor of the latest submitted
buy of its symbol, if that buy is inside the memory window. -/
theorem runCycles_floor (S : PyStr) (g : Guard) (w : World) (disk₀ : Disk) (cfg : StrategyConfig)
    (cycles : List RunnerCycle) (hclean : disk₀.Clean) (hclock : Monotone w.clock)
    (hoverride : g.override = false) (hreads : ∀ n, (w.reads n).readFails = false)
    (hchecked : ∀ before cycle after, cycles = before ++ cycle :: after →
      CheckedCycle S g w disk₀ cfg
        (runCycles (accountSpine S g w) cfg before (.start (.start disk₀))) cycle) :
    FloorKept g
      (runCycles (accountSpine S g w) cfg cycles (.start (.start disk₀))).outside.log :=
  (runCycles_floorOk hclock hoverride hreads (ok_start S g w hclean) hchecked).floor

/-- A quote of one symbol that the strategy wants. -/
def wanted (sym : String) (price : ℚ) : RunnerCycle :=
  ⟨[⟨sym, 1, 1 / 50⟩], ⟨[(sym, .fin price)], by simp⟩⟩

/-- A quote of one symbol that the strategy no longer wants. -/
def unwanted (sym : String) (price : ℚ) : RunnerCycle :=
  ⟨[], ⟨[(sym, .fin price)], by simp⟩⟩

/-- A buy at 100 and a sell at 99. -/
theorem runCycles_floor_round_trip :
    FloorKept ⟨false, none⟩ (runCycles
      (accountSpine .ascii ⟨false, none⟩ ⟨fun _ => 0, fun _ => ⟨false, false⟩⟩) {}
      [wanted "BTC" 100, unwanted "BTC" 99] (.start (.start ⟨none, []⟩))).outside.log := by
  refine runCycles_floor .ascii ⟨false, none⟩ ⟨fun _ => 0, fun _ => ⟨false, false⟩⟩ ⟨none, []⟩ {}
    _ ⟨by simp, by simp [Disk.memory]⟩ monotone_const rfl (fun _ => rfl) ?_
  intro before cycle after heq
  rcases before with _ | ⟨first, _ | ⟨second, rest⟩⟩
  · cases heq
    intro targets _ sym hsym
    simp [runCycles, RunnerState.start, Dict.keys, Dict.empty] at hsym
  · cases heq
    unfold CheckedCycle Checked
    decide +kernel
  · simp at heq

/-- **A sell at a quote of zero.** The name was bought at 100 at the same moment, so its floor is
97. The guard passes over the quote, and the sell is submitted. -/
theorem not_floorKept_zero_price :
    ¬FloorKept ⟨false, none⟩ (runCycles
      (accountSpine .ascii ⟨false, none⟩ ⟨fun _ => 0, fun _ => ⟨false, false⟩⟩) {}
      [wanted "BTC" 100, unwanted "BTC" 0] (.start (.start ⟨none, []⟩))).outside.log := by
  have hlog : (runCycles
      (accountSpine .ascii ⟨false, none⟩ ⟨fun _ => 0, fun _ => ⟨false, false⟩⟩) {}
      [wanted "BTC" 100, unwanted "BTC" 0] (.start (.start ⟨none, []⟩))).outside.log =
      [⟨⟨"BTC", "buy", .fin 100, 34 / 100⟩, 0⟩] ++ ⟨⟨"BTC", "sell", .fin 0, 0⟩, 0⟩ :: [] := by
    decide +kernel
  intro h
  have hfloor := h _ _ _ hlog rfl ⟨⟨"BTC", "buy", .fin 100, 34 / 100⟩, 0⟩ (by decide +kernel)
    (by decide +kernel) 0 100 rfl rfl
  norm_num [Guard.baseBps, defaultDeathSpiralToleranceBps] at hfloor

end Floor

end PaperRunner

end KeelTrader.Core
