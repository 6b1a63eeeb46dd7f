import KeelTrader.Core.Broker
import KeelTrader.Lib.Alternating

set_option relaxedAutoImplicit false
set_option autoImplicit false

/-!
# Order histories

Any number of calls of `submit_order`, one after another on one account. The invariant that
carries them says that the buys file implements an expiring memory which remembers the last
executed buy of every symbol; the death-spiral floor over the whole history follows.

## Main definitions

* `KeelTrader.Core.Execution`, `Run`, `submitAll` — what was executed, and a history of calls.
* `KeelTrader.Core.clockReadings` — the clock readings of a history, in the order made.
* `KeelTrader.Core.lastBuy` — the latest executed buy of a symbol.
* `KeelTrader.Core.Run.Ok` — the invariant.

## Main results

* `KeelTrader.Core.Run.Ok.next` — one call keeps the invariant.
* `KeelTrader.Core.submitAll_ok` — it holds after every history.
* `KeelTrader.Core.submitAll_guarded` — no executed sell is below the floor of the latest buy
  inside the memory window; every executed order is well formed; a call that raises changes
  neither the executor's log nor an unexpired record.
-/

namespace KeelTrader.Core

/-! ## Histories -/

/-- An executed order, with the outside world of the call it came from. -/
structure Execution where
  order : Order
  env : CallEnv

/-- A history of calls: the state it has reached, and what it executed, oldest first. -/
structure Run where
  state : BrokerState
  executed : List Execution

/-- One more call. A call that raises leaves the state at its exception. -/
def Run.next (S : PyStr) (g : Guard) (run : Run) (c : Call) : Run :=
  match submitOrder S g c run.state with
  | .ok order s => ⟨s, run.executed ++ [⟨order, c.env⟩]⟩
  | .error _ s => ⟨s, run.executed⟩

/-- All calls, one after another, on an empty executor log and the given files. -/
def submitAll (S : PyStr) (g : Guard) (disk : Disk) (calls : List Call) : Run :=
  calls.foldl (Run.next S g) ⟨⟨[], disk⟩, []⟩

/-- The clock readings of one call, in the order made. -/
def CallEnv.readings (env : CallEnv) : List ℚ := [env.guardAt, env.execAt, env.pruneAt, env.stampAt]

/-- The clock readings of a history, in the order made. -/
def clockReadings (calls : List Call) : List ℚ := calls.flatMap fun c => c.env.readings

/-- The execution is a buy of the symbol whose upper-cased name is `key`. -/
def Execution.isBuyOf (S : PyStr) (key : String) (e : Execution) : Bool :=
  decide (e.order.side = "buy" ∧ S.upper e.order.symbol = key)

/-- The latest executed buy of a symbol. -/
def lastBuy (S : PyStr) (key : String) (executed : List Execution) : Option Execution :=
  executed.reverse.find? (Execution.isBuyOf S key)

/-- The files hold no buy: there is no file, or an empty object. -/
def Disk.Empty (disk : Disk) : Prop := disk.buys = none ∨ disk.buys = some (.object .empty)

/-- Nothing keeps the call from reading the buys file. -/
def CallEnv.Readable (env : CallEnv) : Prop :=
  env.guardRead.readFails = false ∧ env.recordRead.readFails = false

lemma submitAll_concat (S : PyStr) (g : Guard) (disk : Disk) (calls : List Call) (c : Call) :
    submitAll S g disk (calls ++ [c]) = (submitAll S g disk calls).next S g c := by
  simp [submitAll]

/-! ## The latest buy -/

/-- The prices and stamps of the latest buys, as a memory that never expires. -/
def lastBuys (S : PyStr) (executed : List Execution) : Expiring.Memory String PyFloat ℚ :=
  fun key => (lastBuy S key executed).map fun e => (e.order.price, e.env.stampAt)

lemma lastBuy_concat (S : PyStr) (key : String) (executed : List Execution) (e : Execution) :
    lastBuy S key (executed ++ [e]) =
      if e.isBuyOf S key then some e else lastBuy S key executed := by
  unfold lastBuy
  rw [List.reverse_append, List.reverse_singleton, List.singleton_append, List.find?_cons]
  cases e.isBuyOf S key <;> rfl

/-- An execution that is no buy changes no latest buy. -/
lemma lastBuys_concat_sell {S : PyStr} {executed : List Execution} {e : Execution}
    (h : e.order.side ≠ "buy") : lastBuys S (executed ++ [e]) = lastBuys S executed := by
  funext key
  have hnot : e.isBuyOf S key = false := by simp [Execution.isBuyOf, h]
  simp [lastBuys, lastBuy_concat, hnot]

/-- A buy is the latest of its symbol. -/
lemma lastBuys_concat_buy {S : PyStr} {executed : List Execution} {e : Execution}
    (h : e.order.side = "buy") :
    lastBuys S (executed ++ [e]) = Expiring.write (S.upper e.order.symbol) e.order.price
      e.env.stampAt (lastBuys S executed) := by
  funext key
  by_cases hkey : key = S.upper e.order.symbol
  · subst hkey
    simp [lastBuys, lastBuy_concat, Execution.isBuyOf, h, Expiring.write]
  · have hnot : e.isBuyOf S key = false := by simp [Execution.isBuyOf, Ne.symm hkey]
    simp [lastBuys, lastBuy_concat, hnot, Expiring.write, hkey]

/-! ## The invariant -/

/-- The order is well formed, with a finite quantity and price. -/
structure Order.Sound (o : Order) : Prop where
  side : o.side = "buy" ∨ o.side = "sell"
  symbol : o.symbol ≠ ""
  qty : ∃ q : ℚ, o.qty = .fin q ∧ 0 < q
  price : ∃ p : ℚ, o.price = .fin p ∧ 0 < p

/-- Every sell is at or above the floor of the latest earlier buy of its symbol, if that buy is
inside the memory window. -/
def FloorKept (S : PyStr) (g : Guard) (executed : List Execution) : Prop :=
  ∀ before e after b, executed = before ++ e :: after → e.order.side = "sell" →
    lastBuy S (S.upper e.order.symbol) before = some b →
    e.env.execAt - b.env.execAt ≤ g.buyMemorySeconds →
    ∃ price buyPrice : ℚ, e.order.price = .fin price ∧ b.order.price = .fin buyPrice ∧
      price ≥ buyPrice * (1 - g.baseBps {} / 10000)

/-- **The invariant of a history**, at a time that no clock reading exceeds. -/
structure Run.Ok (S : PyStr) (g : Guard) (now : ℚ) (run : Run) : Prop where
  /-- The buys file can be read, and its records are well formed. -/
  clean : run.state.disk.Clean
  /-- The file remembers the latest buys. -/
  remembers : Expiring.Remembers (g.buyMemorySeconds : ℚ) now (lastBuys S run.executed)
    run.state.disk.remembered
  /-- The executor's log is what was executed. -/
  filled : run.state.filled = run.executed.map Execution.order
  /-- Every executed order is well formed. -/
  sound : ∀ e ∈ run.executed, e.order.Sound
  /-- A buy is stamped after it was executed. -/
  stamped : ∀ e ∈ run.executed, e.env.execAt ≤ e.env.stampAt
  /-- The floor was kept. -/
  floor : FloorKept S g run.executed

lemma Run.Ok.mono {S : PyStr} {g : Guard} {run : Run} {now t : ℚ} (h : run.Ok S g now)
    (hle : now ≤ t) : run.Ok S g t :=
  { h with remembers := h.remembers.mono hle }

/-- An empty history on empty files. -/
lemma Run.Ok.start {S : PyStr} {g : Guard} {disk : Disk} (h : disk.Empty) (now : ℚ) :
    Run.Ok S g now ⟨⟨[], disk⟩, []⟩ := by
  have hmemory : disk.memory = .empty := by
    rcases h with h | h <;> simp [Disk.memory, h]
  refine ⟨⟨?_, ?_⟩, ?_, rfl, ?_, ?_, ?_⟩
  · intro content hcontent
    rcases h with h | h
    · rw [h] at hcontent
      cases hcontent
    · rw [h] at hcontent
      exact ⟨.empty, (Option.some.inj hcontent).symm⟩
  · simp [hmemory]
  · have hremembered : disk.remembered = fun _ => none := by
      funext key
      simp [Disk.remembered, hmemory]
    show Expiring.Remembers _ _ (lastBuys S []) disk.remembered
    rw [hremembered]
    exact Expiring.Remembers.empty
  · simp
  · simp
  · intro before e after b heq
    simp at heq

/-- The floor is kept by one more execution when that execution keeps it. -/
lemma FloorKept.concat {S : PyStr} {g : Guard} {executed : List Execution} {e : Execution}
    (h : FloorKept S g executed)
    (he : e.order.side = "sell" → ∀ b, lastBuy S (S.upper e.order.symbol) executed = some b →
      e.env.execAt - b.env.execAt ≤ g.buyMemorySeconds →
      ∃ price buyPrice : ℚ, e.order.price = .fin price ∧ b.order.price = .fin buyPrice ∧
        price ≥ buyPrice * (1 - g.baseBps {} / 10000)) : FloorKept S g (executed ++ [e]) := by
  have hsplit := forall_split_concat (R := fun before e => e.order.side = "sell" →
    ∀ b, lastBuy S (S.upper e.order.symbol) before = some b →
      e.env.execAt - b.env.execAt ≤ g.buyMemorySeconds →
      ∃ price buyPrice : ℚ, e.order.price = .fin price ∧ b.order.price = .fin buyPrice ∧
        price ≥ buyPrice * (1 - g.baseBps {} / 10000))
    (fun before e after heq hsell b => h before e after b heq hsell) he
  exact fun before e' after b heq hsell => hsplit before e' after heq hsell b

/-! ## One call -/

section Step

variable {S : PyStr} {g : Guard} {now : ℚ} {run : Run} {c : Call}

/-- A finite order that passes the validation is well formed. -/
lemma Order.Valid.sound {o : Order} (h : o.Valid) (hqty : o.qty.isFinite = true)
    (hprice : o.price.isFinite = true) : o.Sound :=
  ⟨h.side, h.symbol, PyFloat.eq_fin_of_pos hqty h.qty, PyFloat.eq_fin_of_pos hprice h.price⟩

/-- A sell that the guard let through respects the floor of the latest buy, as long as the buy
is inside the window: the file still remembers it. -/
lemma Run.Ok.floor_of_not_refuses (h : run.Ok S g now) {key : String} {guardAt execAt price : ℚ}
    (hnow : now ≤ guardAt) (hexec : guardAt ≤ execAt)
    (hpass : ¬g.Refuses guardAt run.state.disk {} key price) {b : Execution}
    (hlast : lastBuy S key run.executed = some b)
    (hin : execAt - b.env.execAt ≤ g.buyMemorySeconds) :
    ∃ buyPrice : ℚ, b.order.price = .fin buyPrice ∧
      price ≥ buyPrice * (1 - g.baseBps {} / 10000) := by
  have hmem : b ∈ run.executed := by
    have := List.mem_of_find?_eq_some hlast
    rwa [List.mem_reverse] at this
  have hstamp := h.stamped b hmem
  have hwindow : guardAt - b.env.stampAt ≤ g.buyMemorySeconds := by linarith
  have hremembered : run.state.disk.remembered key = some (b.order.price, b.env.stampAt) := by
    refine h.remembers.complete key _ ?_ (by linarith)
    simp [lastBuys, hlast]
  obtain ⟨buyPrice, hprice, hget⟩ := h.clean.remembered_eq_some.mp hremembered
  refine ⟨buyPrice, hprice, ?_⟩
  by_contra hlow
  exact hpass ⟨buyPrice, b.env.stampAt, hget, hwindow, not_le.mp hlow⟩

/-- The clock readings of one call are in order. -/
lemma CallEnv.ordered {env : CallEnv} (h : env.readings.Pairwise (· ≤ ·)) :
    env.guardAt ≤ env.execAt ∧ env.execAt ≤ env.pruneAt ∧ env.pruneAt ≤ env.stampAt := by
  simp only [CallEnv.readings, List.pairwise_cons, List.mem_cons] at h
  exact ⟨h.1 _ (by simp), h.2.1 _ (by simp), h.2.2.1 _ (by simp)⟩

/-- One more execution: what its files remember, and that it kept the floor, is left to show. -/
lemma Run.Ok.concat (h : run.Ok S g now) {s' : BrokerState} {e : Execution} {t : ℚ}
    (hclean : s'.disk.Clean)
    (hremembers : Expiring.Remembers (g.buyMemorySeconds : ℚ) t (lastBuys S (run.executed ++ [e]))
      s'.disk.remembered)
    (hfilled : s'.filled = run.state.filled ++ [e.order]) (hsound : e.order.Sound)
    (hstamped : e.env.execAt ≤ e.env.stampAt) (hfloor : FloorKept S g (run.executed ++ [e])) :
    Run.Ok S g t ⟨s', run.executed ++ [e]⟩ where
  clean := hclean
  remembers := hremembers
  filled := by
    show s'.filled = _
    rw [hfilled, h.filled, List.map_append]
    rfl
  sound := by
    intro e' he
    rcases List.mem_append.mp he with he | he
    · exact h.sound e' he
    · rw [List.mem_singleton.mp he]
      exact hsound
  stamped := by
    intro e' he
    rcases List.mem_append.mp he with he | he
    · exact h.stamped e' he
    · rw [List.mem_singleton.mp he]
      exact hstamped
  floor := hfloor

/-- An executed buy is remembered: the invariant holds again once it is stamped. -/
lemma Run.Ok.bought (h : run.Ok S g now) {s' : BrokerState} {price : ℚ}
    (hside : (c.order S).side = "buy") (hsound : (c.order S).Sound) (hprice : c.price = .fin price)
    (hnow : now ≤ c.env.guardAt) (hclock : c.env.readings.Pairwise (· ≤ ·))
    (hfilled : s'.filled = run.state.filled ++ [c.order S])
    (hrecorded : run.state.disk.Recorded g c.env.pruneAt (S.upper c.symbol) price c.env.stampAt
      s'.disk) :
    Run.Ok S g c.env.stampAt ⟨s', run.executed ++ [⟨c.order S, c.env⟩]⟩ := by
  obtain ⟨hexec, hprune, hstamp⟩ := CallEnv.ordered hclock
  refine h.concat hrecorded.clean ?_ hfilled hsound (le_trans hprune hstamp) ?_
  · rw [lastBuys_concat_buy hside, hrecorded.remembered h.clean]
    have hwritten := ((h.remembers.prune (by linarith : now ≤ c.env.pruneAt)).mono hstamp).write
      (S.upper c.symbol) (.fin price) c.env.stampAt
    rwa [← hprice] at hwritten ⊢
  · refine h.floor.concat fun hsell => ?_
    rw [show (c.order S).side = "buy" from hside] at hsell
    simp at hsell

/-- An executed sell respects the floor: the invariant holds again. -/
lemma Run.Ok.sold (h : run.Ok S g now) {s' : BrokerState} {price : ℚ}
    (hside : (c.order S).side = "sell") (hsound : (c.order S).Sound)
    (hprice : c.price = .fin price)
    (hnow : now ≤ c.env.guardAt) (hclock : c.env.readings.Pairwise (· ≤ ·))
    (hfilled : s'.filled = run.state.filled ++ [c.order S])
    (hpruned : run.state.disk.PrunedTo g c.env.guardAt s'.disk)
    (hpass : ¬g.Refuses c.env.guardAt run.state.disk {} (S.upper c.symbol) price) :
    Run.Ok S g c.env.stampAt ⟨s', run.executed ++ [⟨c.order S, c.env⟩]⟩ := by
  obtain ⟨hexec, hprune, hstamp⟩ := CallEnv.ordered hclock
  refine h.concat hpruned.clean ?_ hfilled hsound (le_trans hprune hstamp) ?_
  · have hnotBuy : (c.order S).side ≠ "buy" := by simp [hside]
    rw [lastBuys_concat_sell hnotBuy, hpruned.remembered h.clean]
    exact (h.remembers.prune hnow).mono (by linarith)
  · refine h.floor.concat fun _ b hlast hin => ?_
    obtain ⟨buyPrice, hbuy, hfloor⟩ := h.floor_of_not_refuses hnow hexec hpass hlast hin
    exact ⟨price, buyPrice, hprice, hbuy, hfloor⟩

/-- A refused sell left the fresh records: the invariant holds again. -/
lemma Run.Ok.refused (h : run.Ok S g now) {s' : BrokerState} (hnow : now ≤ c.env.guardAt)
    (hclock : c.env.readings.Pairwise (· ≤ ·)) (hfilled : s'.filled = run.state.filled)
    (hpruned : run.state.disk.PrunedTo g c.env.guardAt s'.disk) :
    Run.Ok S g c.env.stampAt ⟨s', run.executed⟩ := by
  obtain ⟨hexec, hprune, hstamp⟩ := CallEnv.ordered hclock
  refine ⟨hpruned.clean, ?_, hfilled.trans h.filled, h.sound, h.stamped, h.floor⟩
  rw [hpruned.remembered h.clean]
  exact (h.remembers.prune hnow).mono (by linarith)

/-- **Step.** One call keeps the invariant, whatever it asks for. -/
theorem Run.Ok.next (h : run.Ok S g now) (hoverride : g.override = false)
    (hqty : c.qty.isFinite = true) (hfin : c.price.isFinite = true) (hread : c.env.Readable)
    (hnow : now ≤ c.env.guardAt) (hclock : c.env.readings.Pairwise (· ≤ ·)) :
    (run.next S g c).Ok S g c.env.stampAt := by
  obtain ⟨hexec, hprune, hstamp⟩ := CallEnv.ordered hclock
  unfold Run.next
  by_cases hvalid : (c.order S).Valid
  · obtain ⟨price, hprice, -⟩ := PyFloat.eq_fin_of_pos hfin hvalid.price
    have hsound := hvalid.sound hqty hfin
    rcases hvalid.side with hbuy | hsell
    · have hspec := submitOrder_buy_spec (g := g) hvalid hbuy hprice hread.2 h.clean
      cases hrun : submitOrder S g c run.state with
      | ok o s' =>
        obtain ⟨rfl, hfilled, hrecorded⟩ := hspec.of_ok rfl hrun
        exact h.bought hbuy hsound hprice hnow hclock hfilled hrecorded
      | error e s' => exact (hspec.of_error rfl hrun).elim
    · have hspec := submitOrder_sell_spec hvalid hsell hprice hoverride hread.1 h.clean
      cases hrun : submitOrder S g c run.state with
      | ok o s' =>
        obtain ⟨rfl, hfilled, hpruned, hpass⟩ := hspec.of_ok rfl hrun
        exact h.sold hsell hsound hprice hnow hclock hfilled hpruned hpass
      | error e s' =>
        obtain ⟨hfilled, hpruned, -⟩ := hspec.of_error rfl hrun
        exact h.refused hnow hclock hfilled hpruned
  · obtain ⟨e, herr, -⟩ := submitOrder_of_not_valid (g := g) (s := run.state) hvalid
    rw [herr]
    exact h.mono (by linarith)

/-- A call that raises changes neither the executor's log nor a record that is fresh at the
clock reading of its guard. -/
lemma Run.Ok.of_error (h : run.Ok S g now) (hoverride : g.override = false)
    (hfin : c.price.isFinite = true) (hread : c.env.Readable) {e : OrderError} {s' : BrokerState}
    (herr : submitOrder S g c run.state = .error e s') :
    s'.filled = run.state.filled ∧ ∀ key rec,
      BuyRecord.fresh c.env.guardAt g.buyMemorySeconds rec = true →
        (s'.disk.memory.get? key = some rec ↔ run.state.disk.memory.get? key = some rec) := by
  by_cases hvalid : (c.order S).Valid
  · obtain ⟨price, hprice, -⟩ := PyFloat.eq_fin_of_pos hfin hvalid.price
    rcases hvalid.side with hbuy | hsell
    · have hspec := submitOrder_buy_spec (g := g) hvalid hbuy hprice hread.2 h.clean
      exact (hspec.of_error rfl herr).elim
    · have hspec := submitOrder_sell_spec hvalid hsell hprice hoverride hread.1 h.clean
      obtain ⟨hfilled, hpruned, -⟩ := hspec.of_error rfl herr
      refine ⟨hfilled, fun key rec hfresh => ?_⟩
      rw [hpruned.get? key, Option.filter_eq_some_iff]
      exact ⟨fun hrec => hrec.1, fun hrec => ⟨hrec, hfresh⟩⟩
  · obtain ⟨e', herr', -⟩ := submitOrder_of_not_valid (g := g) (s := run.state) hvalid
    rw [herr'] at herr
    cases herr
    exact ⟨rfl, fun _ _ _ => Iff.rfl⟩

end Step

/-! ## Whole histories -/

section Histories

variable {S : PyStr} {g : Guard} {disk : Disk} {calls : List Call}

/-- **Run.** The invariant holds after every history, at every later time. -/
theorem submitAll_ok (hempty : disk.Empty) (hoverride : g.override = false)
    (hclock : (clockReadings calls).Pairwise (· ≤ ·))
    (hfinite : ∀ c ∈ calls, c.qty.isFinite = true ∧ c.price.isFinite = true)
    (hread : ∀ c ∈ calls, c.env.Readable) {now : ℚ}
    (hnow : ∀ t ∈ clockReadings calls, t ≤ now) : (submitAll S g disk calls).Ok S g now := by
  induction calls using List.reverseRecOn generalizing now with
  | nil => exact Run.Ok.start hempty now
  | append_singleton calls c ih =>
    have hsplit : clockReadings (calls ++ [c]) = clockReadings calls ++ c.env.readings := by
      simp [clockReadings]
    rw [hsplit] at hclock hnow
    obtain ⟨hbefore, hlast, hle⟩ := List.pairwise_append.mp hclock
    have hc : c ∈ calls ++ [c] := by simp
    have hprev : (submitAll S g disk calls).Ok S g c.env.guardAt := by
      refine ih hbefore (fun c' h' => hfinite c' (by simp [h']))
        (fun c' h' => hread c' (by simp [h'])) fun t ht => ?_
      exact hle t ht _ (by simp [CallEnv.readings])
    rw [submitAll_concat]
    have hstep := hprev.next hoverride (hfinite c hc).1 (hfinite c hc).2 (hread c hc) le_rfl hlast
    exact hstep.mono (hnow _ (by simp [CallEnv.readings]))

/-- **The death-spiral floor over whole histories.** After any calls with finite quantities and
prices, made at nondecreasing clock readings on empty, readable files and without the override:

* every executed sell respects the floor of the latest executed buy of its symbol, if that buy
  is inside the memory window (`FloorKept`);
* every order in the executor's log is a buy or sell of a named symbol, with positive quantity
  and price;
* each call that raises leaves the executor's log, and every record that is unexpired when its
  guard looks, unchanged. -/
theorem submitAll_guarded (S : PyStr) (g : Guard) (disk : Disk) (calls : List Call)
    (hempty : disk.Empty) (hoverride : g.override = false)
    (hclock : (clockReadings calls).Pairwise (· ≤ ·))
    (hfinite : ∀ c ∈ calls, c.qty.isFinite = true ∧ c.price.isFinite = true)
    (hread : ∀ c ∈ calls, c.env.Readable) :
    ((submitAll S g disk calls).state.filled =
        (submitAll S g disk calls).executed.map Execution.order ∧
      FloorKept S g (submitAll S g disk calls).executed) ∧
    (∀ o ∈ (submitAll S g disk calls).state.filled, o.Sound) ∧
    ∀ before c after, calls = before ++ c :: after →
      ∀ e s', submitOrder S g c (submitAll S g disk before).state = .error e s' →
        s'.filled = (submitAll S g disk before).state.filled ∧ ∀ key rec,
          BuyRecord.fresh c.env.guardAt g.buyMemorySeconds rec = true →
            (s'.disk.memory.get? key = some rec ↔
              (submitAll S g disk before).state.disk.memory.get? key = some rec) := by
  obtain ⟨now, hnow⟩ : ∃ now, ∀ t ∈ clockReadings calls, t ≤ now := by
    obtain ⟨now, hbound⟩ := (clockReadings calls).toFinset.bddAbove
    exact ⟨now, fun t ht => hbound (by simpa using ht)⟩
  have hok := submitAll_ok (S := S) hempty hoverride hclock hfinite hread hnow
  refine ⟨⟨hok.filled, hok.floor⟩, fun o ho => ?_, ?_⟩
  · rw [hok.filled] at ho
    obtain ⟨e, he, rfl⟩ := List.mem_map.mp ho
    exact hok.sound e he
  · rintro before c after rfl e s' herr
    have hsplit : clockReadings (before ++ c :: after) =
        clockReadings before ++ (c.env.readings ++ clockReadings after) := by
      simp [clockReadings]
    rw [hsplit] at hclock
    obtain ⟨hbefore, -, hle⟩ := List.pairwise_append.mp hclock
    have hprev : (submitAll S g disk before).Ok S g c.env.guardAt := by
      refine submitAll_ok hempty hoverride hbefore (fun c' h' => hfinite c' (by simp [h']))
        (fun c' h' => hread c' (by simp [h'])) fun t ht => ?_
      exact hle t ht _ (by simp [CallEnv.readings])
    exact hprev.of_error hoverride (hfinite c (by simp)).2 (hread c (by simp)) herr

/-- A buy at 100, a sell at 99 and a refused sell at 96, a minute apart. -/
theorem submitAll_guarded_round_trip :
    let calls := [Call.at 0 "btc" " Buy" 1 100, .at 60 "BTC" "sell" 1 99, .at 120 "Btc" "sell" 1 96]
    FloorKept .ascii ⟨false, none⟩ (submitAll .ascii ⟨false, none⟩ ⟨none, []⟩ calls).executed ∧
      (submitAll .ascii ⟨false, none⟩ ⟨none, []⟩ calls).state.filled.map Order.price =
        [.fin 100, .fin 99] := by
  intro calls
  refine ⟨(submitAll_guarded .ascii ⟨false, none⟩ ⟨none, []⟩ calls (Or.inl rfl) rfl ?_ ?_ ?_).1.2,
    by decide +kernel⟩
  · decide +kernel
  · decide
  · intro c hc
    simp only [calls, List.mem_cons, List.not_mem_nil, or_false] at hc
    rcases hc with rfl | rfl | rfl <;> exact ⟨rfl, rfl⟩

end Histories

end KeelTrader.Core
