import KeelTrader.Core.BuyMemory

set_option relaxedAutoImplicit false
set_option autoImplicit false

/-!
# The broker

`core/broker.py`: the single order-write surface, over a paper executor. An order is validated,
passes the death-spiral guard, reaches the executor, and a buy is then remembered.

## Main definitions

* `KeelTrader.Core.Order`, `BrokerState` — orders, and the executor's log with the files.
* `KeelTrader.Core.Call` — one call of `submit_order` with what the outside answers during it.
* `KeelTrader.Core.submitOrder` — the call.
* `KeelTrader.Core.Order.Valid` — what every executed order satisfies.

## Main results

* `KeelTrader.Core.submitOrder_buy_spec`, `submitOrder_sell_spec` — a call on a clean disk.
* `KeelTrader.Core.submitOrder_eq_ok` — a call that returns appended its order, on any disk.
* `KeelTrader.Core.guardRefuses_iff` — the guard, as a property of the remembered buys.
* `KeelTrader.Core.submitOrder_eq_error` — everything a call that raises can have done.

## Implementation notes

The executor is the paper recorder here. Live executors, live brokers and the gate of their
construction are in `LiveGate`.
-/

namespace KeelTrader.Core

/-- `Order`. -/
structure Order where
  symbol : String
  side : String
  qty : PyFloat
  price : PyFloat
  deriving DecidableEq, Repr

/-- The executor's log and the account's files. -/
structure BrokerState where
  /-- `PaperExecutor.filled`. -/
  filled : List Order
  /-- The files of the account. -/
  disk : Disk

/-- The clock readings and the read outcomes of one call, in the order they are made. -/
structure CallEnv where
  /-- The reading of the guard's prune. -/
  guardAt : ℚ
  /-- The time of execution. -/
  execAt : ℚ
  /-- The reading of the prune before a buy is recorded. -/
  pruneAt : ℚ
  /-- The reading stamped on a recorded buy. -/
  stampAt : ℚ
  /-- The guard's read of the buys file. -/
  guardRead : ReadOutcome
  /-- The recording's read of the buys file. -/
  recordRead : ReadOutcome

/-- One call of `submit_order`. -/
structure Call where
  symbol : String
  side : String
  qty : PyFloat
  price : PyFloat
  env : CallEnv

/-- A call at one moment, with finite numbers and no failing read. -/
def Call.at (t : ℚ) (symbol side : String) (qty price : ℚ) : Call :=
  ⟨symbol, side, .fin qty, .fin price, ⟨t, t, t, t, ⟨false, false⟩, ⟨false, false⟩⟩⟩

/-- Run a computation on the files of the account. -/
def onDisk {α : Type} : Raising OrderError Disk α → Raising OrderError BrokerState α :=
  Raising.on BrokerState.disk fun s disk => { s with disk := disk }

/-- `PaperExecutor.execute`. -/
def execute (order : Order) : Raising OrderError BrokerState Unit :=
  modify fun s => { s with filled := s.filled ++ [order] }

@[simp] lemma onDisk_pure {α : Type} (a : α) (s : BrokerState) :
    onDisk (pure a) s = .ok a s := rfl

@[simp] lemma execute_run (order : Order) (s : BrokerState) :
    execute order s = .ok () { s with filled := s.filled ++ [order] } := rfl

/-- The order that a call asks for, with its side normalised. -/
def Call.order (S : PyStr) (c : Call) : Order := ⟨c.symbol, S.norm c.side, c.qty, c.price⟩

/-- The last lines of `submit_order`: a buy is remembered, after a successful execution. -/
def rememberBuy (S : PyStr) (g : Guard) (c : Call) : Raising OrderError BrokerState Unit :=
  if S.norm c.side = "buy" then
    onDisk (recordBuyPrice S g c.env.recordRead c.env.pruneAt c.env.stampAt c.symbol c.price)
  else pure ()

/-- `submit_order` after its validation: guard first, then execute. -/
def writeOrder (S : PyStr) (g : Guard) (c : Call) : Raising OrderError BrokerState Order := do
  onDisk (guardSellAgainstDeathSpiral S g c.env.guardRead c.env.guardAt c.symbol
    (S.norm c.side) c.price {})
  execute (c.order S)
  rememberBuy S g c
  pure (c.order S)

/-- `Broker.submit_order`. -/
def submitOrder (S : PyStr) (g : Guard) (c : Call) : Raising OrderError BrokerState Order :=
  if S.norm c.side ≠ "buy" ∧ S.norm c.side ≠ "sell" then throw (.invalidSide c.side)
  else if c.symbol = "" then throw .missingSymbol
  else if ¬(PyFloat.fin 0).lt c.qty then throw (.badQty c.qty)
  else if ¬(PyFloat.fin 0).lt c.price then throw (.badPrice c.price)
  else writeOrder S g c

/-- The guard refuses the call, on the given files. -/
def guardRefuses (S : PyStr) (g : Guard) (c : Call) (disk : Disk) : Bool :=
  match guardSellAgainstDeathSpiral S g c.env.guardRead c.env.guardAt c.symbol (S.norm c.side)
      c.price {} disk with
  | .ok _ _ => false
  | .error e _ => e.isDeathSpiral

/-! ## Validation -/

/-- What every executed order satisfies: it is a buy or a sell of a named symbol, with a
quantity and a price that compare above zero. -/
structure Order.Valid (o : Order) : Prop where
  side : o.side = "buy" ∨ o.side = "sell"
  symbol : o.symbol ≠ ""
  qty : (PyFloat.fin 0).lt o.qty = true
  price : (PyFloat.fin 0).lt o.price = true

section Validation

variable {S : PyStr} {g : Guard} {c : Call} {s s' : BrokerState}

/-- A valid order is a buy or a sell. -/
lemma Call.buy_or_sell (h : (c.order S).Valid) : S.norm c.side = "buy" ∨ S.norm c.side = "sell" :=
  h.side

/-- A valid order is written. -/
lemma submitOrder_of_valid (h : (c.order S).Valid) : submitOrder S g c = writeOrder S g c := by
  obtain ⟨hside, hsymbol, hqty, hprice⟩ := h
  have hnotInvalid : ¬(S.norm c.side ≠ "buy" ∧ S.norm c.side ≠ "sell") := by
    rintro ⟨hbuy, hsell⟩
    exact hside.elim hbuy hsell
  unfold submitOrder
  rw [if_neg hnotInvalid]
  exact (if_neg hsymbol).trans <|
    (if_neg (not_not.mpr hqty)).trans (if_neg (not_not.mpr hprice))

/-- An invalid order is rejected before anything is touched. -/
lemma rejected_of_not_valid (h : ¬(c.order S).Valid) :
    ∃ e, submitOrder S g c s = .error e s ∧ e.isRejected = true := by
  unfold submitOrder
  by_cases hside : S.norm c.side ≠ "buy" ∧ S.norm c.side ≠ "sell"
  · exact ⟨_, by rw [if_pos hside]; rfl, rfl⟩
  by_cases hsymbol : c.symbol = ""
  · exact ⟨_, by rw [if_neg hside, if_pos hsymbol]; rfl, rfl⟩
  by_cases hqty : ¬(PyFloat.fin 0).lt c.qty
  · exact ⟨_, by rw [if_neg hside, if_neg hsymbol, if_pos hqty]; rfl, rfl⟩
  by_cases hprice : ¬(PyFloat.fin 0).lt c.price
  · exact ⟨_, by rw [if_neg hside, if_neg hsymbol, if_neg hqty, if_pos hprice]; rfl, rfl⟩
  refine absurd ⟨?_, hsymbol, not_not.mp hqty, not_not.mp hprice⟩ h
  show S.norm c.side = "buy" ∨ S.norm c.side = "sell"
  tauto

/-- An invalid order raises no refusal of the guard. -/
lemma submitOrder_of_not_valid (h : ¬(c.order S).Valid) :
    ∃ e, submitOrder S g c s = .error e s ∧ e.isDeathSpiral = false := by
  obtain ⟨e, herr, hrejected⟩ := rejected_of_not_valid (g := g) (s := s) h
  exact ⟨e, herr, OrderError.not_isDeathSpiral_of_isRejected hrejected⟩

/-! ## Valid orders -/

/-- A valid buy passes the guard, is executed, and then remembered. -/
lemma submitOrder_buy (hvalid : (c.order S).Valid) (hside : S.norm c.side = "buy") :
    submitOrder S g c s =
      match recordBuyPrice S g c.env.recordRead c.env.pruneAt c.env.stampAt c.symbol c.price
          s.disk with
      | .ok _ disk => .ok (c.order S) ⟨s.filled ++ [c.order S], disk⟩
      | .error e disk => .error e ⟨s.filled ++ [c.order S], disk⟩ := by
  rw [submitOrder_of_valid hvalid, writeOrder, rememberBuy, if_pos hside, hside, guardSell_of_buy,
    Raising.bind_of_eq_ok (onDisk_pure () s), Raising.bind_of_eq_ok (execute_run _ s)]
  cases hrecord : recordBuyPrice S g c.env.recordRead c.env.pruneAt c.env.stampAt c.symbol c.price
      s.disk with
  | ok _ disk => exact Raising.bind_of_eq_ok (Raising.on_eq_ok.mpr ⟨disk, hrecord, rfl⟩)
  | error e disk => exact Raising.bind_of_eq_error (Raising.on_eq_error.mpr ⟨disk, hrecord, rfl⟩)

/-- A valid sell is executed if it passes the guard. -/
lemma submitOrder_sell (hvalid : (c.order S).Valid) (hside : S.norm c.side = "sell") :
    submitOrder S g c s =
      match guardSellAgainstDeathSpiral S g c.env.guardRead c.env.guardAt c.symbol "sell" c.price {}
          s.disk with
      | .ok _ disk => .ok (c.order S) ⟨s.filled ++ [c.order S], disk⟩
      | .error e disk => .error e { s with disk := disk } := by
  have hforget : rememberBuy S g c = pure () := by
    rw [rememberBuy, hside]
    rfl
  rw [submitOrder_of_valid hvalid, writeOrder, hforget, hside]
  cases hguard : guardSellAgainstDeathSpiral S g c.env.guardRead c.env.guardAt c.symbol "sell"
      c.price {} s.disk with
  | ok _ disk =>
    refine (Raising.bind_of_eq_ok (Raising.on_eq_ok.mpr ⟨disk, hguard, rfl⟩)).trans ?_
    rw [Raising.bind_of_eq_ok (execute_run _ _)]
    rfl
  | error e disk => exact Raising.bind_of_eq_error (Raising.on_eq_error.mpr ⟨disk, hguard, rfl⟩)

/-! ## Any disk -/

/-- A call that returned appended its order, which was valid. -/
theorem submitOrder_eq_ok {o : Order} (h : submitOrder S g c s = .ok o s') :
    o = c.order S ∧ o.Valid ∧ s'.filled = s.filled ++ [o] := by
  by_cases hvalid : (c.order S).Valid
  · rcases Call.buy_or_sell hvalid with hside | hside
    · rw [submitOrder_buy hvalid hside] at h
      split at h <;> cases h
      exact ⟨rfl, hvalid, rfl⟩
    · rw [submitOrder_sell hvalid hside] at h
      split at h <;> cases h
      exact ⟨rfl, hvalid, rfl⟩
  · obtain ⟨e, herr, -⟩ := submitOrder_of_not_valid (g := g) (s := s) hvalid
    rw [herr] at h
    cases h

/-- Everything a call that raised can have done: its order was invalid and nothing was touched,
its guard raised and only the files were touched, or it is a buy that was executed and could
not be remembered. -/
theorem submitOrder_eq_error {e : OrderError} (h : submitOrder S g c s = .error e s') :
    (e.isDeathSpiral = false ∧ s' = s) ∨
    (∃ disk, guardSellAgainstDeathSpiral S g c.env.guardRead c.env.guardAt c.symbol
        (S.norm c.side) c.price {} s.disk = .error e disk ∧ s' = { s with disk := disk }) ∨
    (S.norm c.side = "buy" ∧ e = .malformedRecord ∧ s'.filled = s.filled ++ [c.order S]) := by
  by_cases hvalid : (c.order S).Valid
  · rcases Call.buy_or_sell hvalid with hside | hside
    · rw [submitOrder_buy hvalid hside] at h
      split at h
      · cases h
      · next _ disk hrecord =>
        cases h
        exact Or.inr (Or.inr ⟨hside, recordBuyPrice_error hrecord, rfl⟩)
    · rw [submitOrder_sell hvalid hside] at h
      split at h
      · cases h
      · next _ disk hguard =>
        cases h
        rw [hside]
        exact Or.inr (Or.inl ⟨disk, hguard, rfl⟩)
  · obtain ⟨e', herr, hnot⟩ := submitOrder_of_not_valid (g := g) (s := s) hvalid
    rw [herr] at h
    cases h
    exact Or.inl ⟨hnot, rfl⟩

/-- A call that raised lost nothing from the executor's log. -/
lemma filled_prefix_of_error {e : OrderError} (h : submitOrder S g c s = .error e s') :
    s.filled <+: s'.filled := by
  rcases submitOrder_eq_error h with ⟨-, rfl⟩ | ⟨disk, -, rfl⟩ | ⟨-, -, hfilled⟩
  · exact List.prefix_rfl
  · exact List.prefix_rfl
  · rw [hfilled]
    exact List.prefix_append _ _

/-- A refused call was refused by its guard, which touched only the files. -/
lemma refused_of_error {e : OrderError} (h : submitOrder S g c s = .error e s')
    (he : e.isDeathSpiral = true) : guardRefuses S g c s.disk = true ∧ s'.filled = s.filled := by
  rcases submitOrder_eq_error h with ⟨hnot, -⟩ | ⟨disk, hguard, rfl⟩ | ⟨-, rfl, -⟩
  · rw [hnot] at he
    cases he
  · refine ⟨?_, rfl⟩
    unfold guardRefuses
    rw [hguard]
    exact he
  · cases he

/-- A valid call whose guard refuses it raises that refusal, and touches only the files. -/
lemma error_of_guardRefuses (hvalid : (c.order S).Valid)
    (h : guardRefuses S g c s.disk = true) :
    ∃ e disk, submitOrder S g c s = .error e { s with disk := disk } ∧ e.isDeathSpiral = true := by
  unfold guardRefuses at h
  rw [submitOrder_of_valid hvalid]
  cases hguard : guardSellAgainstDeathSpiral S g c.env.guardRead c.env.guardAt c.symbol
      (S.norm c.side) c.price {} s.disk with
  | ok a disk =>
    rw [hguard] at h
    cases h
  | error e disk =>
    rw [hguard] at h
    exact ⟨e, disk, Raising.bind_of_eq_error (Raising.on_eq_error.mpr ⟨disk, hguard, rfl⟩), h⟩

/-- The guard never refuses a buy. -/
lemma guardRefuses_buy (disk : Disk) (hside : S.norm c.side = "buy") :
    guardRefuses S g c disk = false := by
  unfold guardRefuses
  rw [hside, guardSell_of_buy]
  rfl

/-! ## Clean disks -/

/-- **A buy on a clean disk.** It returns; the executor receives the order, and its price is
remembered under the upper-cased symbol. -/
theorem submitOrder_buy_spec {price : ℚ} (hvalid : (c.order S).Valid)
    (hside : S.norm c.side = "buy") (hprice : c.price = .fin price)
    (hread : c.env.recordRead.readFails = false) (hclean : s.disk.Clean) :
    Raising.Spec (· = s) (submitOrder S g c)
      (fun o s' => o = c.order S ∧ s'.filled = s.filled ++ [o] ∧
        s.disk.Recorded g c.env.pruneAt (S.upper c.symbol) price c.env.stampAt s'.disk)
      (fun _ _ => False) := by
  have hpos : 0 < price := by simpa [Call.order, hprice] using hvalid.price
  have hrecord := recordBuyPrice_spec (S := S) (g := g) hread hclean hvalid.symbol hpos
    c.env.pruneAt c.env.stampAt
  rintro t rfl
  rw [submitOrder_buy hvalid hside, hprice]
  cases hrun : recordBuyPrice S g c.env.recordRead c.env.pruneAt c.env.stampAt c.symbol
      (.fin price) t.disk with
  | ok a disk => exact ⟨rfl, rfl, hrecord.of_ok rfl hrun⟩
  | error e disk => exact (hrecord.of_error rfl hrun).elim

/-- **A sell on a clean disk.** It returns, and the executor receives the order, exactly when
the guard does not refuse it; either way the fresh records stay. -/
theorem submitOrder_sell_spec {price : ℚ} (hvalid : (c.order S).Valid)
    (hside : S.norm c.side = "sell") (hprice : c.price = .fin price)
    (hoverride : g.override = false) (hread : c.env.guardRead.readFails = false)
    (hclean : s.disk.Clean) :
    Raising.Spec (· = s) (submitOrder S g c)
      (fun o s' => o = c.order S ∧ s'.filled = s.filled ++ [o] ∧
        s.disk.PrunedTo g c.env.guardAt s'.disk ∧
        ¬g.Refuses c.env.guardAt s.disk {} (S.upper c.symbol) price)
      (fun e s' => s'.filled = s.filled ∧ s.disk.PrunedTo g c.env.guardAt s'.disk ∧
        g.Refuses c.env.guardAt s.disk {} (S.upper c.symbol) price ∧
        ∃ buyPrice floor tol basis,
          e = .deathSpiral c.symbol (.fin price) buyPrice floor tol basis) := by
  have hpos : 0 < price := by simpa [Call.order, hprice] using hvalid.price
  have hguard := guardSell_spec (S := S) hoverride hread hclean hvalid.symbol hpos
    c.env.guardAt {}
  rintro t rfl
  rw [submitOrder_sell hvalid hside, hprice]
  cases hrun : guardSellAgainstDeathSpiral S g c.env.guardRead c.env.guardAt c.symbol "sell"
      (.fin price) {} t.disk with
  | ok a disk =>
    obtain ⟨hpruned, hnot⟩ := hguard.of_ok rfl hrun
    exact ⟨rfl, rfl, hpruned, hnot⟩
  | error e disk => exact ⟨rfl, hguard.of_error rfl hrun⟩

/-- On a clean disk the guard refuses a valid sell exactly when it is below the floor of a
remembered buy. -/
theorem guardRefuses_iff {price : ℚ} (hvalid : (c.order S).Valid) (hside : S.norm c.side = "sell")
    (hprice : c.price = .fin price) (hoverride : g.override = false)
    (hread : c.env.guardRead.readFails = false) (hclean : s.disk.Clean) :
    guardRefuses S g c s.disk = true ↔
      g.Refuses c.env.guardAt s.disk {} (S.upper c.symbol) price := by
  have hpos : 0 < price := by simpa [Call.order, hprice] using hvalid.price
  have hguard := guardSell_spec (S := S) hoverride hread hclean hvalid.symbol hpos
    c.env.guardAt {}
  unfold guardRefuses
  rw [hside, hprice]
  cases hrun : guardSellAgainstDeathSpiral S g c.env.guardRead c.env.guardAt c.symbol "sell"
      (.fin price) {} s.disk with
  | ok a disk => exact iff_of_false Bool.false_ne_true (hguard.of_ok rfl hrun).2
  | error e disk =>
    obtain ⟨-, hrefuses, _, _, _, _, rfl⟩ := hguard.of_error rfl hrun
    exact ⟨fun _ => hrefuses, fun _ => rfl⟩

end Validation

end KeelTrader.Core
