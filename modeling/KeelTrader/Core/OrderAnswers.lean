import KeelTrader.Core.TradingServer

set_option relaxedAutoImplicit false
set_option autoImplicit false

/-!
# Answers to order requests

`do_POST` of `core/trading_server.py`. The length of the body is read outside of the `try`; inside,
the body is decoded and the order handled. Two clauses catch: `OrderRequestError` and
`OrderRejectedError` are answered with 400, and then every other `RuntimeError` with 409. A
`JSONDecodeError` is no `OrderRequestError`, and neither is what `float` raises on a record or on an
integer that is too large, so these leave the request without an answer.

## Main definitions

* `KeelTrader.Core.PostRequest`, `Reply`, `ServerState` — the messages, and the broker with the
  replies that were sent.
* `KeelTrader.Core.doPOST` — `_Handler.do_POST`.
* `KeelTrader.Core.Answered` — one reply is sent, and it is the right one.
* `KeelTrader.Core.Answerable` — the requests for which this holds.

## Main results

* `KeelTrader.Core.guardSell_malformed_iff` — when the guard stumbles over a record.
* `KeelTrader.Core.submitOrder_malformed_iff` — when a valid call does.
* `KeelTrader.Core.answered_iff` — for every request and every state, the request is answered
  exactly when it is answerable.
-/

namespace KeelTrader.Core

/-! ## Requests and replies -/

/-- What a POST request carries. -/
structure PostRequest where
  path : String
  /-- The `Content-Length` header, if there is one. -/
  contentLength : Option String
  /-- The bytes that follow the headers, until the client stops sending. -/
  body : List UInt8

/-- A reply, with what its body tells. -/
inductive Reply where
  /-- 404: "not found". -/
  | notFound
  /-- 400, with the text of the exception. -/
  | badRequest (e : ServerError)
  /-- 409, with the text of the exception. -/
  | refused (e : ServerError)
  /-- 200, with the result of the order. -/
  | accepted (result : OrderResult)
  deriving DecidableEq, Repr

/-- The status code. -/
def Reply.code : Reply → ℕ
  | .notFound => 404
  | .badRequest _ => 400
  | .refused _ => 409
  | .accepted _ => 200

/-- The broker, and the replies sent so far. -/
structure ServerState where
  broker : BrokerState
  sent : List Reply

/-- `_send`. -/
def send (reply : Reply) : Raising ServerError ServerState Unit :=
  modify fun s => { s with sent := s.sent ++ [reply] }

/-- `int(self.headers.get("Content-Length", 0) or 0)`. -/
def PostRequest.length (P : PyInterp) (req : PostRequest) : Except PyExc ℤ :=
  match req.contentLength with
  | none => .ok 0
  | some text =>
    if text = "" then .ok 0
    else
      match P.int text with
      | some n => .ok n
      | none => .error .valueError

/-- `self.rfile.read(n)`. -/
def readBytes (P : PyInterp) (n : ℤ) (bytes : List UInt8) : Except PyExc (List UInt8) :=
  if P.maxRead < |n| then .error .overflowError
  else if n < -1 then .error .valueError
  else if n = -1 then .ok bytes
  else .ok (bytes.take n.toNat)

/-- The bytes that are decoded: those of the body, or `b"{}"` if there are none. -/
def PostRequest.raw (P : PyInterp) (req : PostRequest) : Except PyExc (List UInt8) := do
  let n ← req.length P
  let raw ← if n = 0 then pure [] else readBytes P n req.body
  pure (if raw = [] then [123, 125] else raw)

/-- `except (OrderRequestError, OrderRejectedError)`. -/
def ServerError.isRequestFault : ServerError → Bool
  | .notObject | .badField _ => true
  | .broker e => e.isRejected
  | .builtin _ => false

/-- `except RuntimeError`. -/
def ServerError.isRuntimeError : ServerError → Bool
  | .broker e => e.isRejected || e.isDeathSpiral
  | .builtin e => e = .recursionError
  | .notObject | .badField _ => false

/-- The body of the `try`. -/
def attempt (P : PyInterp) (S : PyStr) (g : Guard) (env : CallEnv) (raw : List UInt8) :
    Raising ServerError BrokerState OrderResult := do
  let payload ← Raising.ofExcept ((P.loads raw).mapError .builtin)
  handleOrder P S g env payload

/-- The `except` clauses, in their order. -/
def exceptClauses (e : ServerError) : Raising ServerError ServerState Unit :=
  if e.isRequestFault then send (.badRequest e)
  else if e.isRuntimeError then send (.refused e)
  else throw e

/-- Run a computation on the broker. -/
def withBroker {α : Type} : Raising ServerError BrokerState α → Raising ServerError ServerState α :=
  Raising.on ServerState.broker fun s broker => { s with broker := broker }

/-- `_Handler.do_POST`. -/
def doPOST (P : PyInterp) (S : PyStr) (g : Guard) (env : CallEnv) (req : PostRequest) :
    Raising ServerError ServerState Unit := do
  if req.path ≠ "/order" then send .notFound
  else
    let raw ← Raising.ofExcept ((req.raw P).mapError .builtin)
    Raising.handle (withBroker (attempt P S g env raw)) (fun result => send (.accepted result))
      exceptClauses

/-! ## Answers -/

/-- The request asks for this call: its body decodes to a payload, the payload converts to the
call, and the broker takes its order. -/
def Asks (P : PyInterp) (S : PyStr) (env : CallEnv) (req : PostRequest) (c : Call) : Prop :=
  ∃ raw payload, req.raw P = .ok raw ∧ P.loads raw = .ok payload ∧ callOf P env payload = .ok c ∧
    (c.order S).Valid

/-- The reply tells what has been done between two states. -/
structure Truthful (P : PyInterp) (S : PyStr) (g : Guard) (env : CallEnv) (req : PostRequest)
    (s s' : BrokerState) (reply : Reply) : Prop where
  /-- It is 200 exactly when the executor received an order. -/
  accepted : reply.code = 200 ↔ ∃ o, s'.filled = s.filled ++ [o]
  /-- Otherwise the executor received nothing. -/
  untouched : reply.code ≠ 200 → s'.filled = s.filled
  /-- A wrong path is 404. -/
  wrongPath : req.path ≠ "/order" → reply.code = 404
  /-- A body that asks for no call is 400. -/
  malformed : req.path = "/order" → (∀ c, ¬Asks P S env req c) → reply.code = 400
  /-- A refusal of the guard is 409. -/
  refused : req.path = "/order" → ∀ c, Asks P S env req c → guardRefuses S g c s.disk = true →
    reply.code = 409

/-- The request is answered: one reply is sent, it is truthful, and no exception escapes. -/
def Answered (P : PyInterp) (S : PyStr) (g : Guard) (env : CallEnv) (req : PostRequest)
    (s : ServerState) : Prop :=
  ∃ reply s', doPOST P S g env req s = .ok () s' ∧ s'.sent = s.sent ++ [reply] ∧
    Truthful P S g env req s.broker s'.broker reply

/-- A call meets a field that `float` raises on, in its guard or after its execution. -/
def Call.Stumbles (S : PyStr) (g : Guard) (c : Call) (disk : Disk) : Prop :=
  c.price.isFinite = true ∧
    if S.norm c.side = "buy" then hasBadTs (loadBuys c.env.recordRead disk).1 = true
    else g.override = false ∧
      GuardStumbles g c.env.guardRead c.env.guardAt (S.upper c.symbol) disk

/-- The body can be read and decoded, its payload is converted without an overflow or a recursion
that is too deep, and the call that is asked for, if any, meets no malformed record. -/
def Answerable (P : PyInterp) (S : PyStr) (g : Guard) (env : CallEnv) (req : PostRequest)
    (disk : Disk) : Prop :=
  req.path = "/order" → ∃ raw payload, req.raw P = .ok raw ∧ P.loads raw = .ok payload ∧
    (∀ e, callOf P env payload ≠ .error (.builtin e)) ∧
    ∀ c, callOf P env payload = .ok c → (c.order S).Valid → ¬c.Stumbles S g disk

/-! ## Malformed records -/

section Malformed

variable {S : PyStr} {g : Guard} {r : ReadOutcome} {disk disk' : Disk} {now : ℚ}
  {symbol : String} {p : ℚ} {c : Call} {s s' : BrokerState}

/-- The comparison raises at a record without a price, and otherwise only refuses. -/
lemma checkFloor_malformed_iff {args : GuardArgs} {price : PyFloat} {rec : Option BuyRecord} :
    (∃ disk', checkFloor g args symbol price rec disk = .error .malformedRecord disk') ↔
      rec = some .notDict ∨ ∃ ts, rec = some (.record .malformed ts) := by
  cases rec with
  | none => simp [checkFloor]
  | some rec =>
    cases rec with
    | notDict => simp [checkFloor]
    | record recPrice ts =>
      cases recPrice with
      | malformed => simp [checkFloor, JsonNumber.toFloat, Raising.bind_eq_error]
      | absent =>
        simp only [checkFloor, JsonNumber.toFloat]
        rw [Raising.bind_of_eq_ok (Raising.ofExcept_ok _ disk)]
        simp
      | number x =>
        simp only [checkFloor, JsonNumber.toFloat]
        rw [Raising.bind_of_eq_ok (Raising.ofExcept_ok _ disk)]
        split_ifs <;> simp

/-- **The guard.** A sell raises at a malformed record exactly when its price is finite, it is not
overridden, and the guard stumbles. -/
theorem guardSell_malformed_iff {price : PyFloat} (hsymbol : symbol ≠ "")
    (hprice : (PyFloat.fin 0).lt price = true) (S : PyStr) (g : Guard) (r : ReadOutcome) (now : ℚ)
    (args : GuardArgs) (disk : Disk) :
    (∃ disk', guardSellAgainstDeathSpiral S g r now symbol "sell" price args disk =
        .error .malformedRecord disk') ↔
      price.isFinite = true ∧ g.override = false ∧
        GuardStumbles g r now (S.upper symbol) disk := by
  have hraises := guardSell_raises_iff args (g := g) (Q := fun e => e = .malformedRecord)
    (fun _ _ => by simpa using checkFloor_malformed_iff) hsymbol hprice S r now disk
  simp only [exists_comm (α := OrderError), exists_eq_right] at hraises
  rw [hraises, GuardStumbles]
  refine and_congr_right fun _ => and_congr_right fun _ => ?_
  cases hasBadTs (loadBuys r disk).1 <;>
    simp [Option.filter_eq_some_iff, BuyRecord.fresh]

/-- **The memory.** Recording a buy raises exactly when its price is finite and a time stamp is
malformed. -/
theorem recordBuyPrice_malformed_iff {price : PyFloat} (hsymbol : symbol ≠ "")
    (hprice : (PyFloat.fin 0).lt price = true) (S : PyStr) (g : Guard) (r : ReadOutcome)
    (pruneAt stampAt : ℚ) (disk : Disk) :
    (∃ disk', recordBuyPrice S g r pruneAt stampAt symbol price disk =
        .error .malformedRecord disk') ↔
      price.isFinite = true ∧ hasBadTs (loadBuys r disk).1 = true := by
  cases hfinite : price.isFinite with
  | false =>
    rw [recordBuyPrice_of_skipped (.inr (.inl hfinite))]
    simp
  | true =>
    obtain ⟨p, rfl, hp⟩ := PyFloat.eq_fin_of_pos hfinite hprice
    rw [recordBuyPrice_of_pos hsymbol hp]
    cases hbad : hasBadTs (loadBuys r disk).1 with
    | true =>
      rw [pruneBuys_of_hasBadTs hbad]
      exact iff_of_true ⟨_, rfl⟩ ⟨rfl, rfl⟩
    | false =>
      rw [pruneBuys_of_not_hasBadTs hbad]
      simp

/-- An exception of the comparison is a refusal, or a malformed record. -/
lemma checkFloor_error {args : GuardArgs} {price : PyFloat} {rec : Option BuyRecord}
    {e : OrderError} (h : checkFloor g args symbol price rec disk = .error e disk') :
    e.isDeathSpiral = true ∨ e = .malformedRecord := by
  unfold checkFloor at h
  split at h
  · cases h
  · cases h
    exact .inr rfl
  · next recPrice ts =>
    rcases Raising.bind_eq_error.mp h with hprice | ⟨buyPrice, t, -, hcompare⟩
    · cases recPrice <;> cases hprice
      exact .inr rfl
    · split at hcompare
      · cases hcompare
      · dsimp only at hcompare
        split at hcompare
        · cases hcompare
          exact .inl rfl
        · cases hcompare

/-- An exception of the guard at a sell is a refusal, or a malformed record. -/
lemma guardSell_error {price : PyFloat} {args : GuardArgs} {e : OrderError}
    (h : guardSellAgainstDeathSpiral S g r now symbol "sell" price args disk = .error e disk') :
    e.isDeathSpiral = true ∨ e = .malformedRecord := by
  unfold guardSellAgainstDeathSpiral at h
  split_ifs at h
  any_goals cases h
  rw [Raising.bind_of_eq_ok (Raising.get_run disk),
    Raising.bind_of_eq_ok (Raising.set_run disk _)] at h
  rcases Raising.bind_eq_error.mp h with hprune | ⟨pruned, t, -, hcheck⟩
  · exact .inr (pruneBuys_error (Raising.ofExcept_eq_error.mp hprune).1)
  · split at hcheck
    · rcases Raising.bind_eq_error.mp hcheck with hsave | ⟨_, u, -, hcheck⟩
      · cases hsave
      · exact checkFloor_error hcheck
    · exact checkFloor_error hcheck

/-- A valid call that raises was refused and executed nothing, or met a malformed record. -/
lemma submitOrder_error_of_valid {e : OrderError} (hvalid : (c.order S).Valid)
    (h : submitOrder S g c s = .error e s') :
    (e.isDeathSpiral = true ∧ s'.filled = s.filled) ∨ e = .malformedRecord := by
  rcases Call.buy_or_sell hvalid with hside | hside
  · rw [submitOrder_buy hvalid hside] at h
    split at h
    · cases h
    · next _ disk hrecord =>
      cases h
      exact .inr (recordBuyPrice_error hrecord)
  · rw [submitOrder_sell hvalid hside] at h
    split at h
    · cases h
    · next _ disk hguard =>
      cases h
      exact (guardSell_error hguard).imp_left fun hspiral => ⟨hspiral, rfl⟩

/-- **Calls.** A valid call raises at a malformed record exactly when it stumbles. -/
theorem submitOrder_malformed_iff (hvalid : (c.order S).Valid) :
    (∃ s', submitOrder S g c s = .error .malformedRecord s') ↔ c.Stumbles S g s.disk := by
  rcases Call.buy_or_sell hvalid with hside | hside
  · rw [Call.Stumbles, if_pos hside]
    refine Iff.trans ?_ (recordBuyPrice_malformed_iff hvalid.symbol hvalid.price S g _
      c.env.pruneAt c.env.stampAt s.disk)
    rw [submitOrder_buy hvalid hside]
    change _ ↔ ∃ disk', recordBuyPrice S g c.env.recordRead c.env.pruneAt c.env.stampAt c.symbol
      c.price s.disk = .error .malformedRecord disk'
    cases recordBuyPrice S g c.env.recordRead c.env.pruneAt c.env.stampAt c.symbol c.price
      s.disk <;> simp
  · have hnot : S.norm c.side ≠ "buy" := by
      rw [hside]
      decide
    rw [Call.Stumbles, if_neg hnot]
    refine Iff.trans ?_ (guardSell_malformed_iff hvalid.symbol hvalid.price S g _
      c.env.guardAt {} s.disk)
    rw [submitOrder_sell hvalid hside]
    change _ ↔ ∃ disk', guardSellAgainstDeathSpiral S g c.env.guardRead c.env.guardAt c.symbol
      "sell" c.price {} s.disk = .error .malformedRecord disk'
    cases guardSellAgainstDeathSpiral S g c.env.guardRead c.env.guardAt c.symbol "sell" c.price {}
      s.disk <;> simp

end Malformed

/-! ## Runs of the handler -/

section Runs

variable {P : PyInterp} {S : PyStr} {g : Guard} {env : CallEnv} {req : PostRequest}
  {s : ServerState} {b broker : BrokerState} {raw : List UInt8} {payload : Json} {c : Call}
  {e : ServerError}

/-- A body that does not decode. -/
lemma attempt_of_loads_error {exc : PyExc} (h : P.loads raw = .error exc) :
    attempt P S g env raw b = .error (.builtin exc) b := by
  rw [attempt, h]
  exact Raising.bind_of_eq_error rfl

/-- A payload that does not convert. -/
lemma attempt_of_callOf_error (hloads : P.loads raw = .ok payload)
    (h : callOf P env payload = .error e) : attempt P S g env raw b = .error e b := by
  rw [attempt, hloads]
  refine (Raising.bind_of_eq_ok rfl).trans ?_
  rw [handleOrder, h]
  exact Raising.bind_of_eq_error rfl

/-- A payload that converts to a call is submitted. -/
lemma attempt_of_callOf_ok (hloads : P.loads raw = .ok payload)
    (h : callOf P env payload = .ok c) :
    attempt P S g env raw b =
      match submitOrder S g c b with
      | .ok o t => .ok o.result t
      | .error e t => .error (.broker e) t := by
  rw [attempt, hloads]
  refine (Raising.bind_of_eq_ok rfl).trans ?_
  rw [handleOrder, h]
  refine (Raising.bind_of_eq_ok rfl).trans ?_
  cases hsubmit : submitOrder S g c b with
  | ok o t => exact Raising.bind_of_eq_ok (Raising.mapError_eq_ok.mpr hsubmit)
  | error e t => exact Raising.bind_of_eq_error (Raising.mapError_eq_error.mpr ⟨e, hsubmit, rfl⟩)

/-- A wrong path. -/
lemma doPOST_of_wrongPath (hpath : req.path ≠ "/order") :
    doPOST P S g env req s = .ok () ⟨s.broker, s.sent ++ [.notFound]⟩ := by
  rw [doPOST, if_pos hpath]
  rfl

/-- A body that cannot be read. -/
lemma doPOST_of_raw_error {exc : PyExc} (hpath : req.path = "/order")
    (hraw : req.raw P = .error exc) : doPOST P S g env req s = .error (.builtin exc) s := by
  rw [doPOST, if_neg (not_not.mpr hpath), hraw]
  exact Raising.bind_of_eq_error rfl

/-- An order that returned. -/
lemma doPOST_of_ok {result : OrderResult} (hpath : req.path = "/order") (hraw : req.raw P = .ok raw)
    (h : attempt P S g env raw s.broker = .ok result broker) :
    doPOST P S g env req s = .ok () ⟨broker, s.sent ++ [.accepted result]⟩ := by
  rw [doPOST, if_neg (not_not.mpr hpath), hraw]
  refine (Raising.bind_of_eq_ok rfl).trans ?_
  exact Raising.handle_of_eq_ok (Raising.on_eq_ok.mpr ⟨broker, h, rfl⟩)

/-- An exception reaches the clauses. -/
lemma doPOST_of_error (hpath : req.path = "/order") (hraw : req.raw P = .ok raw)
    (h : attempt P S g env raw s.broker = .error e broker) :
    doPOST P S g env req s = exceptClauses e ⟨broker, s.sent⟩ := by
  rw [doPOST, if_neg (not_not.mpr hpath), hraw]
  refine (Raising.bind_of_eq_ok rfl).trans ?_
  exact Raising.handle_of_eq_error (Raising.on_eq_error.mpr ⟨broker, h, rfl⟩)

/-! ## Truthful answers -/

/-- A run with one reply answers the request if the reply is truthful. -/
lemma answered_iff_truthful {reply : Reply}
    (h : doPOST P S g env req s = .ok () ⟨broker, s.sent ++ [reply]⟩) :
    Answered P S g env req s ↔ Truthful P S g env req s.broker broker reply := by
  constructor
  · rintro ⟨reply', s', hrun, hsent, htruthful⟩
    rw [h] at hrun
    cases hrun
    cases List.append_cancel_left hsent
    exact htruthful
  · intro htruthful
    exact ⟨reply, _, h, rfl, htruthful⟩

/-- A run that raises answers nothing. -/
lemma not_answered_of_raises {s' : ServerState} (h : doPOST P S g env req s = .error e s') :
    ¬Answered P S g env req s := by
  rintro ⟨reply, t, hrun, -⟩
  rw [h] at hrun
  cases hrun

/-- A reply other than 200, when the executor received nothing. -/
lemma truthful_of_untouched {reply : Reply} (hfilled : broker.filled = b.filled)
    (hcode : reply.code ≠ 200) (hpath : req.path ≠ "/order" → reply.code = 404)
    (hmalformed : req.path = "/order" → (∀ c, ¬Asks P S env req c) → reply.code = 400)
    (hrefused : req.path = "/order" → ∀ c, Asks P S env req c →
      guardRefuses S g c b.disk = true → reply.code = 409) :
    Truthful P S g env req b broker reply where
  accepted := by
    refine iff_of_false hcode ?_
    rintro ⟨o, ho⟩
    rw [hfilled] at ho
    simp at ho
  untouched _ := hfilled
  wrongPath := hpath
  malformed := hmalformed
  refused := hrefused

/-- A request that asks for no call, and whose exception is a fault of the request. -/
lemma answered_of_requestFault (hpath : req.path = "/order") (hraw : req.raw P = .ok raw)
    (hasks : ∀ c, ¬Asks P S env req c) (h : attempt P S g env raw s.broker = .error e s.broker)
    (he : e.isRequestFault = true) : Answered P S g env req s := by
  have hrun : doPOST P S g env req s = .ok () ⟨s.broker, s.sent ++ [.badRequest e]⟩ := by
    rw [doPOST_of_error hpath hraw h, exceptClauses, if_pos he]
    rfl
  rw [answered_iff_truthful hrun]
  exact truthful_of_untouched rfl (by simp [Reply.code]) (fun hne => absurd hpath hne)
    (fun _ _ => rfl) fun _ c hc => absurd hc (hasks c)

/-- A request that asks for no call, and whose exception is one of the interpreter. -/
lemma not_answered_of_builtin {exc : PyExc} (hpath : req.path = "/order")
    (hraw : req.raw P = .ok raw) (hasks : ∀ c, ¬Asks P S env req c)
    (h : attempt P S g env raw s.broker = .error (.builtin exc) broker) :
    ¬Answered P S g env req s := by
  have hrun := doPOST_of_error hpath hraw h
  by_cases hexc : exc = .recursionError
  · -- this one is a `RuntimeError`, and gets the code of a refusal
    subst hexc
    have hreply : doPOST P S g env req s =
        .ok () ⟨broker, s.sent ++ [.refused (.builtin .recursionError)]⟩ := hrun
    rw [answered_iff_truthful hreply]
    intro htruthful
    have hcode := htruthful.malformed hpath hasks
    cases hcode
  · have hescapes : exceptClauses (.builtin exc) = throw (.builtin exc) := by
      cases exc <;> first | rfl | exact absurd rfl hexc
    rw [hescapes] at hrun
    exact not_answered_of_raises hrun

/-- A body decodes to one payload. -/
lemma payload_unique {raw' : List UInt8} {payload' : Json} (hraw : req.raw P = .ok raw)
    (hloads : P.loads raw = .ok payload) (hraw' : req.raw P = .ok raw')
    (hloads' : P.loads raw' = .ok payload') : payload' = payload := by
  rw [hraw] at hraw'
  cases hraw'
  rw [hloads] at hloads'
  cases hloads'
  rfl

/-- The calls that a request asks for, where its payload converts. -/
lemma asks_iff {c' : Call} (hraw : req.raw P = .ok raw) (hloads : P.loads raw = .ok payload)
    (hcall : callOf P env payload = .ok c) :
    Asks P S env req c' ↔ c' = c ∧ (c.order S).Valid := by
  constructor
  · rintro ⟨raw', payload', hraw', hloads', hcall', hvalid⟩
    obtain rfl := payload_unique hraw hloads hraw' hloads'
    rw [hcall] at hcall'
    cases hcall'
    exact ⟨rfl, hvalid⟩
  · rintro ⟨rfl, hvalid⟩
    exact ⟨raw, payload, hraw, hloads, hcall, hvalid⟩

/-- Where the body decodes, what is left to ask of its payload. -/
lemma answerable_iff {disk : Disk} (hpath : req.path = "/order") (hraw : req.raw P = .ok raw)
    (hloads : P.loads raw = .ok payload) : Answerable P S g env req disk ↔
      (∀ exc, callOf P env payload ≠ .error (.builtin exc)) ∧
        ∀ c, callOf P env payload = .ok c → (c.order S).Valid → ¬c.Stumbles S g disk := by
  constructor
  · intro h
    obtain ⟨raw', payload', hraw', hloads', hrest⟩ := h hpath
    obtain rfl := payload_unique hraw hloads hraw' hloads'
    exact hrest
  · intro hrest _
    exact ⟨raw, payload, hraw, hloads, hrest⟩

/-- **Valid calls.** A request for a valid call is answered exactly when the call meets no malformed
record. -/
lemma answered_of_valid_iff (hpath : req.path = "/order") (hraw : req.raw P = .ok raw)
    (hloads : P.loads raw = .ok payload) (hcall : callOf P env payload = .ok c)
    (hvalid : (c.order S).Valid) :
    Answered P S g env req s ↔ ¬c.Stumbles S g s.broker.disk := by
  have hasks : Asks P S env req c := (asks_iff hraw hloads hcall).mpr ⟨rfl, hvalid⟩
  have hattempt := attempt_of_callOf_ok (S := S) (g := g) (b := s.broker) hloads hcall
  rw [← submitOrder_malformed_iff hvalid]
  cases hsubmit : submitOrder S g c s.broker with
  | ok o t =>
    rw [hsubmit] at hattempt
    obtain ⟨-, -, hfilled⟩ := submitOrder_eq_ok hsubmit
    rw [answered_iff_truthful (doPOST_of_ok hpath hraw hattempt)]
    refine iff_of_true ?_ (by simp)
    refine ⟨iff_of_true rfl ⟨o, hfilled⟩, fun hne => absurd rfl hne, fun hne => absurd hpath hne,
      fun _ hnone => absurd hasks (hnone c), ?_⟩
    intro _ c' hc' hrefuses
    obtain ⟨rfl, -⟩ := (asks_iff hraw hloads hcall).mp hc'
    obtain ⟨e, disk, herr, -⟩ := error_of_guardRefuses hvalid hrefuses
    rw [hsubmit] at herr
    cases herr
  | error e t =>
    rw [hsubmit] at hattempt
    have hrun := doPOST_of_error hpath hraw hattempt
    rcases submitOrder_error_of_valid hvalid hsubmit with ⟨hspiral, hfilled⟩ | rfl
    · have hreply : doPOST P S g env req s = .ok () ⟨t, s.sent ++ [.refused (.broker e)]⟩ := by
        rw [hrun]
        cases e <;> first | rfl | cases hspiral
      rw [answered_iff_truthful hreply]
      refine iff_of_true ?_ ?_
      · exact truthful_of_untouched hfilled (by simp [Reply.code]) (fun hne => absurd hpath hne)
          (fun _ hnone => absurd hasks (hnone c)) fun _ _ _ _ => rfl
      · rintro ⟨t', herr⟩
        cases herr
        cases hspiral
    · exact iff_of_false (not_answered_of_raises hrun) fun hnot => hnot ⟨t, rfl⟩

/-- An exception of the conversions is a fault of the request, or one of the interpreter. -/
lemma callOf_error (h : callOf P env payload = .error e) :
    e.isRequestFault = true ∨ ∃ exc, e = .builtin exc := by
  cases payload with
  | obj members =>
    rw [callOf] at h
    split at h
    · cases h
    · cases h
      split_ifs
      · exact .inl rfl
      · exact .inr ⟨_, rfl⟩
  | null | bool _ | int _ | float _ | str _ | arr _ =>
    cases h
    exact .inl rfl

/-- A request whose payload does not convert is answered exactly when this is its own fault. -/
lemma answered_of_callOf_error_iff (hpath : req.path = "/order") (hraw : req.raw P = .ok raw)
    (hloads : P.loads raw = .ok payload) (hcall : callOf P env payload = .error e) :
    Answered P S g env req s ↔ ∀ exc, e ≠ .builtin exc := by
  have hasks : ∀ c, ¬Asks P S env req c := by
    rintro c ⟨raw', payload', hraw', hloads', hcall', -⟩
    obtain rfl := payload_unique hraw hloads hraw' hloads'
    rw [hcall] at hcall'
    cases hcall'
  have hattempt := attempt_of_callOf_error (S := S) (g := g) (b := s.broker) hloads hcall
  rcases callOf_error hcall with hfault | ⟨exc, rfl⟩
  · refine iff_of_true (answered_of_requestFault hpath hraw hasks hattempt hfault) ?_
    rintro exc rfl
    cases hfault
  · refine iff_of_false (not_answered_of_builtin hpath hraw hasks hattempt) fun h => ?_
    exact h exc rfl

/-- A request for a call that the broker does not take is answered. -/
lemma answered_of_not_valid (hpath : req.path = "/order") (hraw : req.raw P = .ok raw)
    (hloads : P.loads raw = .ok payload) (hcall : callOf P env payload = .ok c)
    (hvalid : ¬(c.order S).Valid) : Answered P S g env req s := by
  have hasks : ∀ c', ¬Asks P S env req c' := by
    intro c' hc'
    exact hvalid ((asks_iff hraw hloads hcall).mp hc').2
  obtain ⟨e, herr, hrejected⟩ := rejected_of_not_valid (g := g) (s := s.broker) hvalid
  have hattempt := attempt_of_callOf_ok (S := S) (g := g) (b := s.broker) hloads hcall
  rw [herr] at hattempt
  exact answered_of_requestFault hpath hraw hasks hattempt hrejected

/-- **Payloads.** A request whose body decodes is answered exactly when its payload converts without
an exception of the interpreter, and its call meets no malformed record. -/
lemma answered_of_payload_iff (hpath : req.path = "/order") (hraw : req.raw P = .ok raw)
    (hloads : P.loads raw = .ok payload) : Answered P S g env req s ↔
      (∀ exc, callOf P env payload ≠ .error (.builtin exc)) ∧
        ∀ c, callOf P env payload = .ok c → (c.order S).Valid →
          ¬c.Stumbles S g s.broker.disk := by
  cases hcall : callOf P env payload with
  | error e =>
    rw [answered_of_callOf_error_iff hpath hraw hloads hcall]
    simp
  | ok c =>
    by_cases hvalid : (c.order S).Valid
    · rw [answered_of_valid_iff hpath hraw hloads hcall hvalid]
      simp [hvalid]
    · refine iff_of_true (answered_of_not_valid hpath hraw hloads hcall hvalid)
        ⟨fun exc => nofun, ?_⟩
      rintro _ ⟨⟩ hc
      exact absurd hc hvalid

/-- **Requests.** For every request and every state, the request is answered exactly when it is
answerable. -/
theorem answered_iff (P : PyInterp) (S : PyStr) (g : Guard) (env : CallEnv) (req : PostRequest)
    (s : ServerState) :
    Answered P S g env req s ↔ Answerable P S g env req s.broker.disk := by
  by_cases hpath : req.path = "/order"
  · cases hraw : req.raw P with
    | error exc =>
      refine iff_of_false (not_answered_of_raises (doPOST_of_raw_error hpath hraw)) fun h => ?_
      obtain ⟨raw, payload, hraw', -⟩ := h hpath
      rw [hraw] at hraw'
      cases hraw'
    | ok raw =>
      cases hloads : P.loads raw with
      | error exc =>
        have hnone : ∀ raw' payload, req.raw P = .ok raw' → P.loads raw' ≠ .ok payload := by
          intro raw' payload hraw' hloads'
          rw [hraw] at hraw'
          cases hraw'
          rw [hloads] at hloads'
          cases hloads'
        refine iff_of_false (not_answered_of_builtin hpath hraw ?_ (attempt_of_loads_error hloads))
          fun h => ?_
        · rintro c ⟨raw', payload, hraw', hloads', -⟩
          exact hnone raw' payload hraw' hloads'
        · obtain ⟨raw', payload, hraw', hloads', -⟩ := h hpath
          exact hnone raw' payload hraw' hloads'
      | ok payload =>
        rw [answerable_iff hpath hraw hloads, answered_of_payload_iff hpath hraw hloads]
  · rw [answered_iff_truthful (doPOST_of_wrongPath hpath)]
    refine iff_of_true ?_ fun heq => absurd heq hpath
    exact truthful_of_untouched rfl (by simp [Reply.code]) (fun _ => rfl)
      (fun heq => absurd heq hpath) fun heq => absurd heq hpath

end Runs

/-! ## A body that is no JSON -/

/-- A POST of an opening brace. -/
def openBrace : PostRequest := ⟨"/order", some "1", [123]⟩

/-- An opening brace gets no answer. -/
theorem not_answered_openBrace :
    ¬Answered .plain .ascii ⟨false, none⟩ .zero openBrace ⟨⟨[], ⟨none, []⟩⟩, []⟩ := by
  have hraw : openBrace.raw .plain = .ok [123] := by decide +kernel
  have hrun : doPOST .plain .ascii ⟨false, none⟩ .zero openBrace ⟨⟨[], ⟨none, []⟩⟩, []⟩ =
      .error (.builtin .valueError) ⟨⟨[], ⟨none, []⟩⟩, []⟩ := by
    rw [doPOST_of_error rfl hraw (attempt_of_loads_error rfl)]
    rfl
  exact not_answered_of_raises hrun

end KeelTrader.Core
