import KeelTrader.Core.Broker
import KeelTrader.Lib.PyJson

set_option relaxedAutoImplicit false
set_option autoImplicit false

/-!
# The trading server

`core/trading_server.py`, without its socket: a payload is converted to an order, which the guarded
broker receives. The payload is converted with `float`, the broker compares quantity and price with
zero, and the buy memory takes finite prices only. Positive infinity passes the first two: it is
executed, and leaves no price.

## Main definitions

* `KeelTrader.Core.handleOrder` — `TradingServer.handle_order`.
* `KeelTrader.Core.FiniteAndRemembered` — what was executed is finite, and a buy left its price.
* `KeelTrader.Core.Call.Sound` — the calls after which this holds.

## Main results

* `KeelTrader.Core.guardPasses_iff` — when a valid call passes its guard, as a property of the
  records.
* `KeelTrader.Core.finiteAndRemembered_iff` — for every payload and every state, the call is sound
  exactly when this holds.
-/

namespace KeelTrader.Core

/-- The exceptions that leave the order surface. -/
inductive ServerError where
  /-- `OrderRequestError`: "payload must be a JSON object". -/
  | notObject
  /-- `OrderRequestError`: "missing/invalid order field: …". -/
  | badField (cause : PyExc)
  /-- An exception of the broker. -/
  | broker (e : OrderError)
  /-- An exception of the interpreter. -/
  | builtin (e : PyExc)
  deriving DecidableEq, Repr

/-- `except (KeyError, TypeError, ValueError)`. -/
def isFieldError : PyExc → Bool
  | .keyError | .typeError | .valueError => true
  | .overflowError | .recursionError => false

/-- The conversions of the four fields, in their order. -/
def orderFields (P : PyInterp) (env : CallEnv) (members : List (String × Json)) :
    Except PyExc Call := do
  let symbol ← (← Json.getItem members "symbol").toStr P
  let side ← (← Json.getItem members "side").toStr P
  let qty ← (← Json.getItem members "qty").toFloat P
  let price ← (← Json.getItem members "price").toFloat P
  pure ⟨symbol, side, qty, price, env⟩

/-- The call of `submit_order` that a payload asks for. -/
def callOf (P : PyInterp) (env : CallEnv) : Json → Except ServerError Call
  | .obj members =>
    match orderFields P env members with
    | .ok c => .ok c
    | .error e => .error (if isFieldError e then .badField e else .builtin e)
  | _ => .error .notObject

/-- The dictionary that `handle_order` returns. -/
structure OrderResult where
  status : String
  symbol : String
  side : String
  qty : PyFloat
  price : PyFloat
  deriving DecidableEq, Repr

/-- The result of an accepted order. -/
def Order.result (o : Order) : OrderResult := ⟨"accepted", o.symbol, o.side, o.qty, o.price⟩

/-- `TradingServer.handle_order`. -/
def handleOrder (P : PyInterp) (S : PyStr) (g : Guard) (env : CallEnv) (payload : Json) :
    Raising ServerError BrokerState OrderResult := do
  let c ← Raising.ofExcept (callOf P env payload)
  let order ← Raising.mapError .broker (submitOrder S g c)
  pure order.result

/-- The orders that the executor received between two states. -/
def executed (s s' : BrokerState) : List Order := s'.filled.drop s.filled.length

/-- The key has a record with this price. -/
def Disk.Carries (disk : Disk) (key : String) (price : PyFloat) : Prop :=
  ∃ ts, disk.memory.get? key = some (.record (.number price) ts)

/-- Every order that was executed has a finite positive quantity and a finite positive price, and
if it is a buy, its price is the one on record. -/
def FiniteAndRemembered (S : PyStr) (s s' : BrokerState) : Prop :=
  ∀ o ∈ executed s s', (∃ q, o.qty = .fin q ∧ 0 < q) ∧ (∃ p, o.price = .fin p ∧ 0 < p) ∧
    (o.side = "buy" → s'.disk.Carries (S.upper o.symbol) o.price)

/-- The guard lets the call pass. -/
def GuardPasses (S : PyStr) (g : Guard) (c : Call) (disk : Disk) : Prop :=
  ∃ disk', guardSellAgainstDeathSpiral S g c.env.guardRead c.env.guardAt c.symbol (S.norm c.side)
    c.price {} disk = .ok () disk'

/-- The call is a sell at a finite price, without the override, and a record is malformed or the
price is below the floor of the fresh record of its symbol. -/
def Call.Stopped (S : PyStr) (g : Guard) (c : Call) (disk : Disk) : Prop :=
  S.norm c.side = "sell" ∧ c.price.isFinite = true ∧ g.override = false ∧
    (GuardStumbles g c.env.guardRead c.env.guardAt (S.upper c.symbol) disk ∨
      GuardUndercut g {} c.env.guardRead c.env.guardAt (S.upper c.symbol) c.price disk)

/-- If the call is valid and not stopped, then its numbers are finite; and if it is a buy, then no
time stamp among the records is malformed, or its price is already on record. -/
def Call.Sound (S : PyStr) (g : Guard) (c : Call) (disk : Disk) : Prop :=
  (c.order S).Valid → ¬c.Stopped S g disk →
    c.qty ≠ .inf ∧ c.price ≠ .inf ∧
      (S.norm c.side = "buy" → hasBadTs (loadBuys c.env.recordRead disk).1 = false ∨
        disk.Carries (S.upper c.symbol) c.price)

section Handle

variable {P : PyInterp} {S : PyStr} {g : Guard} {env : CallEnv} {payload : Json} {c : Call}
  {s : BrokerState} {disk disk' : Disk}

/-! ## What a call leaves -/

/-- A payload that is an order leaves what its call leaves. -/
lemma after_handleOrder_of_ok (h : callOf P env payload = .ok c) :
    (handleOrder P S g env payload).after s = (submitOrder S g c).after s := by
  unfold handleOrder
  rw [h, Raising.after_bind_of_eq_ok (Raising.ofExcept_ok c s), Raising.after_bind_pure,
    Raising.after_mapError]

/-- Any other payload leaves everything as it is. -/
lemma after_handleOrder_of_error {e : ServerError} (h : callOf P env payload = .error e) :
    (handleOrder P S g env payload).after s = s := by
  unfold handleOrder
  rw [h, Raising.after_bind_of_eq_error (Raising.ofExcept_error e s)]

/-- A buy passes its guard. -/
lemma guardPasses_of_buy (hside : S.norm c.side = "buy") (disk : Disk) :
    GuardPasses S g c disk := by
  rw [GuardPasses, hside, guardSell_of_buy]
  exact ⟨disk, rfl⟩

/-- A valid call passes its guard exactly when it is not stopped. -/
theorem guardPasses_iff (hvalid : (c.order S).Valid) (disk : Disk) :
    GuardPasses S g c disk ↔ ¬c.Stopped S g disk := by
  rcases Call.buy_or_sell hvalid with hside | hside
  · refine iff_of_true (guardPasses_of_buy hside disk) ?_
    rintro ⟨hsell, -⟩
    rw [hside] at hsell
    revert hsell
    decide
  · have herror := guardSell_error_iff hvalid.symbol hvalid.price S g c.env.guardRead
      c.env.guardAt {} disk
    have hstopped : c.Stopped S g disk ↔ _ := (and_iff_right hside).trans herror.symm
    rw [hstopped, GuardPasses, hside]
    change (∃ disk', guardSellAgainstDeathSpiral S g c.env.guardRead c.env.guardAt c.symbol "sell"
      c.price {} disk = .ok () disk') ↔ ¬∃ e disk', guardSellAgainstDeathSpiral S g c.env.guardRead
        c.env.guardAt c.symbol "sell" c.price {} disk = .error e disk'
    cases guardSellAgainstDeathSpiral S g c.env.guardRead c.env.guardAt c.symbol "sell" c.price {}
      disk <;> simp

/-- A call that is not valid, or does not pass its guard, executes nothing. -/
lemma filled_of_not_passes (h : (c.order S).Valid → ¬GuardPasses S g c s.disk) :
    ((submitOrder S g c).after s).filled = s.filled := by
  rw [Raising.after]
  by_cases hvalid : (c.order S).Valid
  · rcases Call.buy_or_sell hvalid with hside | hside
    · exact absurd (guardPasses_of_buy hside s.disk) (h hvalid)
    · rw [submitOrder_sell hvalid hside]
      cases hguard : guardSellAgainstDeathSpiral S g c.env.guardRead c.env.guardAt c.symbol "sell"
          c.price {} s.disk with
      | ok _ disk =>
        rw [← hside] at hguard
        exact absurd ⟨disk, hguard⟩ (h hvalid)
      | error e disk => rfl
  · obtain ⟨e, herr, -⟩ := submitOrder_of_not_valid (g := g) (s := s) hvalid
    rw [herr]

/-- A valid buy is executed, and leaves what its recording leaves. -/
lemma after_submitOrder_buy (hvalid : (c.order S).Valid) (hside : S.norm c.side = "buy") :
    (submitOrder S g c).after s = ⟨s.filled ++ [c.order S],
      (recordBuyPrice S g c.env.recordRead c.env.pruneAt c.env.stampAt c.symbol c.price).after
        s.disk⟩ := by
  rw [Raising.after, submitOrder_buy hvalid hside, Raising.after]
  cases recordBuyPrice S g c.env.recordRead c.env.pruneAt c.env.stampAt c.symbol c.price s.disk <;>
    rfl

/-- A valid sell that passes its guard is executed. -/
lemma filled_of_sell (hvalid : (c.order S).Valid) (hside : S.norm c.side = "sell")
    (hpasses : GuardPasses S g c s.disk) :
    ((submitOrder S g c).after s).filled = s.filled ++ [c.order S] := by
  obtain ⟨disk, hguard⟩ := hpasses
  rw [hside] at hguard
  rw [Raising.after, submitOrder_sell hvalid hside, hguard]

/-! ## What is on record -/

/-- A recorded buy leaves its price, unless a time stamp is malformed: then nothing is written. -/
theorem carries_recordBuyPrice_iff {symbol : String} {p : ℚ} (hsymbol : symbol ≠ "") (hp : 0 < p)
    (S : PyStr) (g : Guard) (r : ReadOutcome) (pruneAt stampAt : ℚ) (disk : Disk) :
    ((recordBuyPrice S g r pruneAt stampAt symbol (.fin p)).after disk).Carries
        (S.upper symbol) (.fin p) ↔
      hasBadTs (loadBuys r disk).1 = false ∨ disk.Carries (S.upper symbol) (.fin p) := by
  have hrun := recordBuyPrice_of_pos hsymbol hp S g r pruneAt stampAt disk
  cases hbad : hasBadTs (loadBuys r disk).1 with
  | true =>
    rw [pruneBuys_of_hasBadTs hbad] at hrun
    rw [Raising.after, hrun]
    dsimp only
    rw [loadBuys_of_hasBadTs hbad]
    exact ⟨Or.inr, fun h => h.resolve_left Bool.noConfusion⟩
  | false =>
    rw [pruneBuys_of_not_hasBadTs hbad] at hrun
    refine iff_of_true ⟨.number (.fin stampAt), ?_⟩ (.inl rfl)
    rw [Raising.after, hrun]
    dsimp only
    rw [memory_saveBuys, Dict.get?_set, if_pos rfl, BuyRecord.at]

/-! ## Finite and remembered -/

/-- Nothing was executed. -/
lemma finiteAndRemembered_of_filled {s' : BrokerState} (h : s'.filled = s.filled) :
    FiniteAndRemembered S s s' := by
  intro o ho
  rw [executed, h, List.drop_length] at ho
  cases ho

/-- One order was executed. -/
lemma finiteAndRemembered_concat_iff {s' : BrokerState} {o : Order}
    (h : s'.filled = s.filled ++ [o]) : FiniteAndRemembered S s s' ↔
      (∃ q, o.qty = .fin q ∧ 0 < q) ∧ (∃ p, o.price = .fin p ∧ 0 < p) ∧
        (o.side = "buy" → s'.disk.Carries (S.upper o.symbol) o.price) := by
  unfold FiniteAndRemembered executed
  rw [h, List.drop_left, List.forall_mem_singleton]

/-- **Calls.** What a call executed is finite and remembered exactly when the call is sound. -/
theorem finiteAndRemembered_submitOrder_iff (S : PyStr) (g : Guard) (c : Call) (s : BrokerState) :
    FiniteAndRemembered S s ((submitOrder S g c).after s) ↔ c.Sound S g s.disk := by
  by_cases hruns : (c.order S).Valid ∧ GuardPasses S g c s.disk
  · obtain ⟨hvalid, hpasses⟩ := hruns
    have hqty := PyFloat.pos_iff_ne_inf hvalid.qty
    have hprice := PyFloat.pos_iff_ne_inf hvalid.price
    have hnot := (guardPasses_iff hvalid s.disk).mp hpasses
    have hsound : c.Sound S g s.disk ↔ c.qty ≠ .inf ∧ c.price ≠ .inf ∧
        (S.norm c.side = "buy" → hasBadTs (loadBuys c.env.recordRead s.disk).1 = false ∨
          s.disk.Carries (S.upper c.symbol) c.price) :=
      ⟨fun h => h hvalid hnot, fun h _ _ => h⟩
    rw [hsound]
    rcases Call.buy_or_sell hvalid with hside | hside
    · rw [after_submitOrder_buy hvalid hside, finiteAndRemembered_concat_iff rfl, hqty, hprice]
      refine and_congr_right fun _ => and_congr_right fun hfinite => ?_
      obtain ⟨p, hp, hpos⟩ := hprice.mpr hfinite
      refine imp_congr Iff.rfl ?_
      change c.price = _ at hp
      change Disk.Carries _ (S.upper c.symbol) c.price ↔ _
      rw [hp]
      exact carries_recordBuyPrice_iff hvalid.symbol hpos S g _ _ _ _
    · have hsell : S.norm c.side ≠ "buy" := by
        rw [hside]
        decide
      rw [finiteAndRemembered_concat_iff (filled_of_sell hvalid hside hpasses), hqty, hprice]
      refine and_congr_right fun _ => and_congr_right fun _ => ?_
      exact iff_of_true (fun h => absurd h hsell) fun h => absurd h hsell
  · have hfilled := filled_of_not_passes (g := g) (s := s) fun hvalid hpasses =>
      hruns ⟨hvalid, hpasses⟩
    exact iff_of_true (finiteAndRemembered_of_filled hfilled) fun hvalid hnot =>
      absurd ⟨hvalid, (guardPasses_iff hvalid s.disk).mpr hnot⟩ hruns

/-- **Payloads.** For every payload and every state, what `handle_order` executed is finite and
remembered exactly when the call that the payload asks for, if any, is sound. -/
theorem finiteAndRemembered_iff (P : PyInterp) (S : PyStr) (g : Guard) (env : CallEnv)
    (payload : Json) (s : BrokerState) :
    FiniteAndRemembered S s ((handleOrder P S g env payload).after s) ↔
      ∀ c, callOf P env payload = .ok c → c.Sound S g s.disk := by
  cases hcall : callOf P env payload with
  | ok c =>
    rw [after_handleOrder_of_ok hcall, finiteAndRemembered_submitOrder_iff]
    constructor
    · rintro h _ ⟨⟩
      exact h
    · intro h
      exact h c rfl
  | error e =>
    rw [after_handleOrder_of_error hcall]
    refine iff_of_true (finiteAndRemembered_of_filled rfl) ?_
    rintro _ ⟨⟩

end Handle

/-! ## An infinite price -/

/-- A call at time `0`, with no failing read. -/
def CallEnv.zero : CallEnv := ⟨0, 0, 0, 0, ⟨false, false⟩, ⟨false, false⟩⟩

/-- The order `{"symbol": "BTC/USD", "side": "buy", "qty": 1, "price": Infinity}`. -/
def infinitePrice : Json :=
  .obj [("symbol", .str "BTC/USD"), ("side", .str "buy"), ("qty", .int 1), ("price", .float .inf)]

/-- A buy at an infinite price is executed. -/
theorem not_finiteAndRemembered_infinitePrice :
    let s : BrokerState := ⟨[], ⟨none, []⟩⟩
    let s' := (handleOrder .plain .ascii ⟨false, none⟩ .zero infinitePrice).after s
    executed s s' = [⟨"BTC/USD", "buy", .fin 1, .inf⟩] ∧ ¬FiniteAndRemembered .ascii s s' := by
  intro s s'
  have hexecuted : executed s s' = [⟨"BTC/USD", "buy", .fin 1, .inf⟩] := by decide +kernel
  refine ⟨hexecuted, fun h => ?_⟩
  obtain ⟨-, ⟨p, hp, -⟩, -⟩ := h _ (hexecuted ▸ List.mem_singleton_self _)
  cases hp

end KeelTrader.Core
