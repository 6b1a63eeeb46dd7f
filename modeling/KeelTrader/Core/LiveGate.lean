import KeelTrader.Core.Broker
import KeelTrader.Lib.Origin

set_option relaxedAutoImplicit false
set_option autoImplicit false

/-!
# The live gate

`core/config.py`, the construction of a `Broker`, and `core/kraken_executor.py`: processes that set
environment variables, construct executors and brokers, submit orders and are started again, in any
order. A live order is one that reaches `create_order` of the exchange.

## Main definitions

* `KeelTrader.Core.LiveGate.resolvePaper`, `KeelTrader.Core.LiveGate.liveTradingEnabled` — the flags
  of the environment.
* `KeelTrader.Core.LiveGate.submitOrderVia` — `submit_order` with any executor.
* `KeelTrader.Core.LiveGate.Process` — the environment, the objects of a process, the files of the
  account and what the exchange was sent.
* `KeelTrader.Core.LiveGate.act`, `KeelTrader.Core.LiveGate.next` — what a process does.
* `KeelTrader.Core.LiveGate.Gated` — why the exchange was sent an order.

## Main results

* `KeelTrader.Core.LiveGate.submitOrderVia_paper` — with the paper executor it is `submit_order` of
  the paper broker.
* `KeelTrader.Core.LiveGate.sent_gated` — every order that the exchange was sent passed the guard,
  and the executor of its broker was constructed while live trading was enabled.
* `KeelTrader.Core.LiveGate.liveBroker_gated` — so was every live broker.

## Implementation notes

An object is named by its place in the list of the objects of its kind. A broker and its executor
are constructed one after the other, and nothing is assigned to their fields afterwards. Everything
the import of `ccxt`, its client and the exchange may do wrong is an answer of the outside world; an
order counts as sent when `create_order` is called, whether or not it returns.
-/

namespace KeelTrader.Core.LiveGate

/-! ## The environment -/

/-- `PAPER_ENV_VARS`. -/
def paperEnvVars : List String := ["KEEL_PAPER", "ALP_PAPER"]

/-- `LIVE_ENABLE_ENV_VARS`. -/
def liveEnableEnvVars : List String := ["KEEL_ALLOW_LIVE_TRADING", "ALLOW_ALPACA_LIVE_TRADING"]

/-- `DEATH_SPIRAL_OVERRIDE_ENV_VARS`. -/
def deathSpiralOverrideEnvVars : List String :=
  ["KEEL_DEATH_SPIRAL_OVERRIDE", "ALPACA_DEATH_SPIRAL_OVERRIDE"]

/-- `os.environ`. -/
abbrev Environ : Type := String → Option String

/-- `_env_truthy`, and `_env_flag` of a name with this value. -/
def envTruthy (S : PyStr) (value : Option String) : Bool :=
  S.norm (value.getD "") ∈ ["1", "true", "yes", "on"]

/-- `_env_truthy_is_live`. -/
def envTruthyIsLive (S : PyStr) (raw : String) : Bool :=
  S.norm raw ∈ ["0", "false", "no", "off"]

/-- `_resolve_paper`: the first name that is set decides. -/
def resolvePaper (S : PyStr) (environ : Environ) : Bool :=
  match paperEnvVars.findSome? environ with
  | some raw => !envTruthyIsLive S raw
  | none => true

/-- `live_trading_enabled`. -/
def liveTradingEnabled (S : PyStr) (environ : Environ) : Bool :=
  liveEnableEnvVars.any fun name => envTruthy S (environ name)

/-! ## Orders through any executor -/

section Via

variable {ε τ : Type}

/-- Run a computation on the files of the account. -/
def onFiles {α : Type} (wrap : OrderError → ε) (disk : τ → Disk) (withDisk : τ → Disk → τ)
    (x : Raising OrderError Disk α) : Raising ε τ α :=
  Raising.mapError wrap (Raising.on disk withDisk x)

/-- `Broker.submit_order`, with the executor of the broker. -/
def submitOrderVia (S : PyStr) (wrap : OrderError → ε) (disk : τ → Disk) (withDisk : τ → Disk → τ)
    (g : Guard) (execute : Order → Raising ε τ Unit) (c : Call) : Raising ε τ Order :=
  if S.norm c.side ≠ "buy" ∧ S.norm c.side ≠ "sell" then throw (wrap (.invalidSide c.side))
  else if c.symbol = "" then throw (wrap .missingSymbol)
  else if ¬(PyFloat.fin 0).lt c.qty then throw (wrap (.badQty c.qty))
  else if ¬(PyFloat.fin 0).lt c.price then throw (wrap (.badPrice c.price))
  else do
    onFiles wrap disk withDisk (guardSellAgainstDeathSpiral S g c.env.guardRead c.env.guardAt
      c.symbol (S.norm c.side) c.price {})
    execute (c.order S)
    (if S.norm c.side = "buy" then
      onFiles wrap disk withDisk
        (recordBuyPrice S g c.env.recordRead c.env.pruneAt c.env.stampAt c.symbol c.price)
    else pure ())
    pure (c.order S)

/-- The paper broker submits its orders through the paper executor. -/
theorem submitOrderVia_paper (S : PyStr) (g : Guard) (c : Call) :
    submitOrderVia S id BrokerState.disk (fun s disk => { s with disk := disk }) g execute c =
      submitOrder S g c := by
  have hfiles : ∀ {α : Type} (x : Raising OrderError Disk α),
      onFiles id BrokerState.disk (fun s disk => { s with disk := disk }) x = onDisk x := by
    intro α x
    funext s
    unfold onFiles onDisk Raising.mapError
    cases Raising.on BrokerState.disk (fun s disk => { s with disk := disk }) x s <;> rfl
  unfold submitOrderVia submitOrder writeOrder rememberBuy
  simp only [hfiles, id_eq]

section Inversion

variable {S : PyStr} {wrap : OrderError → ε} {disk : τ → Disk} {withDisk : τ → Disk → τ}
  {g : Guard} {execute : Order → Raising ε τ Unit} {c : Call}

/-- A computation on the files changes nothing else. -/
lemma after_onFiles {α : Type} (x : Raising OrderError Disk α) (s : τ) :
    (onFiles wrap disk withDisk x).after s = withDisk s (x.after (disk s)) := by
  rw [onFiles, Raising.after_mapError]
  unfold Raising.after Raising.on
  cases x (disk s) <;> rfl

/-- An order either changes no more than the files, or is valid, passes the guard and reaches the
executor, after which no more than the files change. -/
lemma submitOrderVia_after (hsame : ∀ s, withDisk s (disk s) = s) (s : τ) :
    (∃ d, (submitOrderVia S wrap disk withDisk g execute c).after s = withDisk s d) ∨
      (c.order S).Valid ∧ guardRefuses S g c (disk s) = false ∧ ∃ d d',
        (submitOrderVia S wrap disk withDisk g execute c).after s =
          withDisk ((execute (c.order S)).after (withDisk s d)) d' := by
  have hkept : ∃ d, s = withDisk s d := ⟨disk s, (hsame s).symm⟩
  unfold submitOrderVia
  by_cases hside : S.norm c.side ≠ "buy" ∧ S.norm c.side ≠ "sell"
  · rw [if_pos hside]
    exact Or.inl hkept
  by_cases hsymbol : c.symbol = ""
  · rw [if_neg hside, if_pos hsymbol]
    exact Or.inl hkept
  by_cases hqty : ¬(PyFloat.fin 0).lt c.qty
  · rw [if_neg hside, if_neg hsymbol, if_pos hqty]
    exact Or.inl hkept
  by_cases hprice : ¬(PyFloat.fin 0).lt c.price
  · rw [if_neg hside, if_neg hsymbol, if_neg hqty, if_pos hprice]
    exact Or.inl hkept
  rw [if_neg hside, if_neg hsymbol, if_neg hqty, if_neg hprice]
  have hvalid : (c.order S).Valid := by
    refine ⟨?_, hsymbol, not_not.mp hqty, not_not.mp hprice⟩
    show S.norm c.side = "buy" ∨ S.norm c.side = "sell"
    tauto
  cases hguard : guardSellAgainstDeathSpiral S g c.env.guardRead c.env.guardAt c.symbol
      (S.norm c.side) c.price {} (disk s) with
  | error e d =>
    have hfiles : onFiles wrap disk withDisk (guardSellAgainstDeathSpiral S g c.env.guardRead
        c.env.guardAt c.symbol (S.norm c.side) c.price {}) s = .error (wrap e) (withDisk s d) := by
      refine Raising.mapError_eq_error.mpr ⟨e, ?_, rfl⟩
      exact Raising.on_eq_error.mpr ⟨d, hguard, rfl⟩
    rw [Raising.after_bind_of_eq_error hfiles]
    exact Or.inl ⟨d, rfl⟩
  | ok u d =>
    have hfiles : onFiles wrap disk withDisk (guardSellAgainstDeathSpiral S g c.env.guardRead
        c.env.guardAt c.symbol (S.norm c.side) c.price {}) s = .ok u (withDisk s d) := by
      refine Raising.mapError_eq_ok.mpr ?_
      exact Raising.on_eq_ok.mpr ⟨d, hguard, rfl⟩
    have hpassed : guardRefuses S g c (disk s) = false := by
      unfold guardRefuses
      rw [hguard]
    refine Or.inr ⟨hvalid, hpassed, d, ?_⟩
    rw [Raising.after_bind_of_eq_ok hfiles]
    cases hrun : execute (c.order S) (withDisk s d) with
    | error e t =>
      have hafter : (execute (c.order S)).after (withDisk s d) = t := by
        unfold Raising.after
        rw [hrun]
      rw [Raising.after_bind_of_eq_error hrun, hafter]
      exact ⟨_, (hsame t).symm⟩
    | ok u' t =>
      have hafter : (execute (c.order S)).after (withDisk s d) = t := by
        unfold Raising.after
        rw [hrun]
      rw [Raising.after_bind_of_eq_ok hrun, hafter, Raising.after_bind_pure]
      by_cases hbuy : S.norm c.side = "buy"
      · rw [if_pos hbuy, after_onFiles]
        exact ⟨_, rfl⟩
      · rw [if_neg hbuy]
        exact ⟨_, (hsame t).symm⟩

end Inversion

end Via

/-! ## Processes -/

/-- The API keys of a client. -/
structure Keys where
  apiKey : String
  secret : String
  deriving DecidableEq, Repr

/-- An executor: `PaperExecutor`, or `KrakenExecutor` with its `_client`. -/
inductive Executor
  | paper (filled : List Order)
  | kraken (client : Option Keys)
  deriving DecidableEq, Repr

/-- A broker: its executor, and its paper flag. -/
structure BrokerObject where
  executor : ℕ
  paper : Bool
  deriving DecidableEq, Repr

/-- The environment and the objects of the process that runs, the files of the account, and the
orders that the exchange was sent, with the keys. -/
structure Process where
  environ : Environ
  /-- `config.PAPER`. -/
  paper : Bool
  /-- `_STATE`. -/
  state : Option SingletonState
  executors : List Executor
  brokers : List BrokerObject
  disk : Disk
  sent : List (Order × Keys)

/-- What the guard of the process reads. -/
def Process.guard (S : PyStr) (s : Process) : Guard :=
  ⟨deathSpiralOverrideEnvVars.any fun name => envTruthy S (s.environ name), s.state⟩

/-- What the outside world does with a live order. -/
inductive Answer
  | importFails
  | clientFails
  | orderFails
  | returns
  deriving DecidableEq, Repr

/-- What a process does. -/
inductive Event
  /-- A process is started: `config` is imported, and there are no objects yet. -/
  | start
  | setenv (name : String) (value : Option String)
  /-- `_STATE` is assigned. -/
  | configure (state : SingletonState)
  | paperExecutor
  | krakenExecutor (allowLive : Bool)
  | broker (executor : ℕ) (paper : Option Bool) (allowLive : Bool)
  | submit (broker : ℕ) (c : Call) (answer : Answer)

/-- The exceptions. -/
inductive Error
  | order (e : OrderError)
  | liveBrokerForbidden
  | liveExecutorForbidden
  /-- `LiveExecutorForbiddenError`: "missing …; live keys are read only at execute time …". -/
  | missingKeys
  /-- Whatever `ccxt` raises. -/
  | outside
  /-- There is no such object. -/
  | noObject
  deriving DecidableEq, Repr

/-- `KrakenExecutor._ccxt_client`, of the executor `i` whose `_client` is given. -/
def ccxtClient (i : ℕ) (client : Option Keys) (answer : Answer) : Raising Error Process Keys :=
  match client with
  | some keys => pure keys
  | none => do
    let s ← get
    let key := (s.environ "KRAKEN_API_KEY").getD ""
    let secret := (s.environ "KRAKEN_API_SECRET").getD ""
    if answer = .importFails then throw .outside
    else if key = "" ∨ secret = "" then throw .missingKeys
    else if answer = .clientFails then throw .outside
    else
      set { s with executors := s.executors.set i (.kraken (some ⟨key, secret⟩)) }
      pure ⟨key, secret⟩

/-- `execute` of the executor `i`. -/
def executeOn (i : ℕ) (answer : Answer) (order : Order) : Raising Error Process Unit := do
  match (← get).executors[i]? with
  | none => throw .noObject
  | some (.paper filled) =>
    modify fun s => { s with executors := s.executors.set i (.paper (filled ++ [order])) }
  | some (.kraken client) =>
    let keys ← ccxtClient i client answer
    modify fun s => { s with sent := s.sent ++ [(order, keys)] }
    if answer = .orderFails then throw .outside else pure ()

/-- The files of a process, replaced. -/
def Process.withDisk (s : Process) (disk : Disk) : Process := { s with disk := disk }

/-- What a process does, and the exception that it raises. -/
def act (S : PyStr) : Event → Raising Error Process Unit
  | .start => modify fun s =>
    { s with paper := resolvePaper S s.environ, state := none, executors := [], brokers := [] }
  | .setenv name value => modify fun s => { s with environ := Function.update s.environ name value }
  | .configure state => modify fun s => { s with state := some state }
  | .paperExecutor => modify fun s => { s with executors := s.executors ++ [.paper []] }
  | .krakenExecutor allowLive => do
    if !allowLive || !liveTradingEnabled S (← get).environ then throw .liveExecutorForbidden
    else modify fun s => { s with executors := s.executors ++ [.kraken none] }
  | .broker executor paper allowLive => do
    let paper := paper.getD (← get).paper
    if !paper && (!allowLive || !liveTradingEnabled S (← get).environ) then
      throw .liveBrokerForbidden
    else modify fun s => { s with brokers := s.brokers ++ [⟨executor, paper⟩] }
  | .submit broker c answer => do
    match (← get).brokers[broker]? with
    | none => throw .noObject
    | some b =>
      let _ ← submitOrderVia S .order Process.disk Process.withDisk ((← get).guard S)
        (executeOn b.executor answer) c
      pure ()

/-- The state that an event leaves, whether or not it raises. -/
def next (S : PyStr) (s : Process) (e : Event) : Process := (act S e).after s

/-- Nothing was constructed or sent. -/
def Process.fresh (S : PyStr) (environ : Environ) (disk : Disk) : Process where
  environ := environ
  paper := resolvePaper S environ
  state := none
  executors := []
  brokers := []
  disk := disk
  sent := []

/-! ## What an order does -/

/-- The environment has these keys. -/
structure HasKeys (environ : Environ) (keys : Keys) : Prop where
  apiKey : environ "KRAKEN_API_KEY" = some keys.apiKey
  secret : environ "KRAKEN_API_SECRET" = some keys.secret
  apiKey_ne : keys.apiKey ≠ ""
  secret_ne : keys.secret ≠ ""

/-- What a submitted order does to a process. -/
inductive Effect (S : PyStr) (s : Process) (broker : ℕ) (c : Call) : Process → Prop
  | kept (d : Disk) : Effect S s broker c (s.withDisk d)
  | filled {b : BrokerObject} {filled : List Order} (hbroker : s.brokers[broker]? = some b)
      (hexecutor : s.executors[b.executor]? = some (.paper filled)) (d : Disk) :
      Effect S s broker c { s with
        executors := s.executors.set b.executor (.paper (filled ++ [c.order S])), disk := d }
  | sent {b : BrokerObject} {client : Option Keys} {keys : Keys}
      (hvalid : (c.order S).Valid) (hguard : guardRefuses S (s.guard S) c s.disk = false)
      (hbroker : s.brokers[broker]? = some b)
      (hexecutor : s.executors[b.executor]? = some (.kraken client))
      (hkeys : client = some keys ∨ HasKeys s.environ keys) (d : Disk) :
      Effect S s broker c { s with
        executors := s.executors.set b.executor (.kraken (some keys)),
        sent := s.sent ++ [(c.order S, keys)], disk := d }

section Effects

variable {S : PyStr} {s : Process} {answer : Answer} {c : Call}

/-- A client has the keys it was opened with, or those of the environment. -/
lemma ccxtClient_run {i : ℕ} {client : Option Keys}
    (hexecutor : s.executors[i]? = some (.kraken client)) :
    (∃ e, ccxtClient i client answer s = .error e s) ∨
      ∃ keys, (client = some keys ∨ HasKeys s.environ keys) ∧ ccxtClient i client answer s =
        .ok keys { s with executors := s.executors.set i (.kraken (some keys)) } := by
  cases client with
  | some keys =>
    have hset : s.executors.set i (.kraken (some keys)) = s.executors := by
      obtain ⟨hi, hget⟩ := List.getElem?_eq_some_iff.mp hexecutor
      rw [← hget, List.set_getElem_self]
    refine Or.inr ⟨keys, Or.inl rfl, ?_⟩
    rw [hset]
    rfl
  | none =>
    rw [ccxtClient, Raising.bind_of_eq_ok (Raising.get_run s)]
    by_cases himport : answer = .importFails
    · exact Or.inl ⟨.outside, by rw [if_pos himport]; rfl⟩
    by_cases hmissing : (s.environ "KRAKEN_API_KEY").getD "" = "" ∨
        (s.environ "KRAKEN_API_SECRET").getD "" = ""
    · exact Or.inl ⟨.missingKeys, by rw [if_neg himport, if_pos hmissing]; rfl⟩
    by_cases hclient : answer = .clientFails
    · exact Or.inl ⟨.outside, by rw [if_neg himport, if_neg hmissing, if_pos hclient]; rfl⟩
    have hset : ∀ name, (s.environ name).getD "" ≠ "" →
        s.environ name = some ((s.environ name).getD "") := by
      intro name hname
      cases hvalue : s.environ name with
      | none => exact absurd (by rw [hvalue]; rfl) hname
      | some value => rfl
    obtain ⟨hkey, hsecret⟩ := not_or.mp hmissing
    refine Or.inr ⟨⟨(s.environ "KRAKEN_API_KEY").getD "", (s.environ "KRAKEN_API_SECRET").getD ""⟩,
      Or.inr ⟨hset _ hkey, hset _ hsecret, hkey, hsecret⟩, ?_⟩
    rw [if_neg himport, if_neg hmissing, if_neg hclient]
    rfl

/-- What `execute` does, whether or not it raises. -/
lemma executeOn_after (i : ℕ) (order : Order) (s : Process) :
    (executeOn i answer order).after s = s ∨
    (∃ filled, s.executors[i]? = some (.paper filled) ∧ (executeOn i answer order).after s =
      { s with executors := s.executors.set i (.paper (filled ++ [order])) }) ∨
    ∃ client keys, s.executors[i]? = some (.kraken client) ∧
      (client = some keys ∨ HasKeys s.environ keys) ∧ (executeOn i answer order).after s =
        { s with
          executors := s.executors.set i (.kraken (some keys))
          sent := s.sent ++ [(order, keys)] } := by
  rw [executeOn, Raising.after_bind_of_eq_ok (Raising.get_run s)]
  match hexecutor : s.executors[i]? with
  | none => exact Or.inl rfl
  | some (.paper filled) => exact Or.inr (Or.inl ⟨filled, rfl, rfl⟩)
  | some (.kraken client) =>
    rcases @ccxtClient_run s answer i client hexecutor with ⟨e, hrun⟩ | ⟨keys, hkeys, hrun⟩
    · exact Or.inl (Raising.after_bind_of_eq_error hrun)
    · refine Or.inr (Or.inr ⟨client, keys, rfl, hkeys, ?_⟩)
      show (ccxtClient i client answer >>= _).after s = _
      rw [Raising.after_bind_of_eq_ok hrun]
      by_cases hfails : answer = .orderFails
      · rw [if_pos hfails]
        rfl
      · rw [if_neg hfails]
        rfl

/-- **What an order does.** -/
theorem next_submit (S : PyStr) (s : Process) (broker : ℕ) (c : Call) (answer : Answer) :
    Effect S s broker c (next S s (.submit broker c answer)) := by
  cases hbroker : s.brokers[broker]? with
  | none =>
    have hnext : next S s (.submit broker c answer) = s := by
      rw [next, act, Raising.after_bind_of_eq_ok (Raising.get_run s), hbroker]
      rfl
    rw [hnext]
    exact .kept s.disk
  | some b =>
    have hnext : next S s (.submit broker c answer) = (submitOrderVia S .order Process.disk
        Process.withDisk (s.guard S) (executeOn b.executor answer) c).after s := by
      rw [next, act, Raising.after_bind_of_eq_ok (Raising.get_run s), hbroker]
      exact (Raising.after_bind_of_eq_ok (Raising.get_run s)).trans Raising.after_bind_pure
    rw [hnext]
    have hsame : ∀ t : Process, t.withDisk t.disk = t := fun _ => rfl
    rcases @submitOrderVia_after Error Process S .order Process.disk Process.withDisk (s.guard S)
        (executeOn b.executor answer) c hsame s with
      ⟨d, hkept⟩ | ⟨hvalid, hguard, d, d', hafter⟩
    · rw [hkept]
      exact .kept d
    · rw [hafter]
      rcases @executeOn_after answer b.executor (c.order S) (s.withDisk d) with
        hsame | ⟨filled, hexecutor, hsame⟩ | ⟨client, keys, hexecutor, hkeys, hsame⟩
      · rw [hsame]
        exact .kept d'
      · rw [hsame]
        exact .filled hbroker hexecutor d'
      · rw [hsame]
        exact .sent hvalid hguard hbroker hexecutor hkeys d'

/-- Constructing a live executor needs both gates. -/
lemma next_krakenExecutor (S : PyStr) (s : Process) (allowLive : Bool) :
    next S s (.krakenExecutor allowLive) = s ∨
      allowLive = true ∧ liveTradingEnabled S s.environ = true ∧
        next S s (.krakenExecutor allowLive) =
          { s with executors := s.executors ++ [.kraken none] } := by
  rw [next, act, Raising.after_bind_of_eq_ok (Raising.get_run s)]
  by_cases hgate : (!allowLive || !liveTradingEnabled S s.environ) = true
  · rw [if_pos hgate]
    exact Or.inl rfl
  · rw [if_neg hgate]
    simp only [Bool.or_eq_true, Bool.not_eq_true', not_or, Bool.not_eq_false] at hgate
    exact Or.inr ⟨hgate.1, hgate.2, rfl⟩

/-- So does constructing a live broker. -/
lemma next_broker (S : PyStr) (s : Process) (executor : ℕ) (paper : Option Bool)
    (allowLive : Bool) :
    next S s (.broker executor paper allowLive) = s ∨
      ∃ p, (p = false → allowLive = true ∧ liveTradingEnabled S s.environ = true) ∧
        next S s (.broker executor paper allowLive) =
          { s with brokers := s.brokers ++ [⟨executor, p⟩] } := by
  rw [next, act, Raising.after_bind_of_eq_ok (Raising.get_run s),
    Raising.after_bind_of_eq_ok (Raising.get_run s)]
  by_cases hgate : (!paper.getD s.paper &&
      (!allowLive || !liveTradingEnabled S s.environ)) = true
  · rw [if_pos hgate]
    exact Or.inl rfl
  · rw [if_neg hgate]
    refine Or.inr ⟨paper.getD s.paper, fun hp => ?_, rfl⟩
    simpa [hp] using hgate

/-- A live executor that an order leaves was there before, with the same client or with one that
was opened with the keys of the environment, for the order of a broker that has the executor. -/
lemma Effect.kraken_before {s' : Process} {broker i : ℕ} {client : Option Keys}
    (h : Effect S s broker c s') (hafter : s'.executors[i]? = some (.kraken client)) :
    ∃ client', s.executors[i]? = some (.kraken client') ∧
      (client' = client ∨ ∃ keys, client = some keys ∧ HasKeys s.environ keys ∧
        ∃ b, s.brokers[broker]? = some b ∧ b.executor = i) := by
  cases h with
  | kept d => exact ⟨client, hafter, Or.inl rfl⟩
  | @filled b filled hbroker hexecutor d =>
    have hget : (s.executors.set b.executor (.paper (filled ++ [c.order S])))[i]? =
        some (.kraken client) := hafter
    rw [List.getElem?_set] at hget
    split at hget
    · split at hget <;> cases hget
    · exact ⟨client, hget, Or.inl rfl⟩
  | @sent b client' keys hvalid hguard hbroker hexecutor hkeys d =>
    have hget : (s.executors.set b.executor (.kraken (some keys)))[i]? = some (.kraken client) :=
      hafter
    rw [List.getElem?_set] at hget
    split at hget
    · next hi =>
      split at hget
      · cases hget
        refine ⟨client', hi ▸ hexecutor, ?_⟩
        rcases hkeys with rfl | hkeys
        · exact Or.inl rfl
        · exact Or.inr ⟨keys, rfl, hkeys, b, hbroker, hi⟩
      · cases hget
    · exact ⟨client, hget, Or.inl rfl⟩

/-- A live executor that an event leaves was there before, or was constructed by the event. -/
lemma kraken_before {i : ℕ} {client : Option Keys} (e : Event)
    (hafter : (next S s e).executors[i]? = some (.kraken client)) :
    (e = .krakenExecutor true ∧ liveTradingEnabled S s.environ = true ∧ s.executors.length = i ∧
        client = none) ∨
      e ≠ .start ∧ ∃ client', s.executors[i]? = some (.kraken client') ∧
        (client' = client ∨ ∃ keys, client = some keys ∧ HasKeys s.environ keys ∧
          ∃ broker b c answer, e = .submit broker c answer ∧ s.brokers[broker]? = some b ∧
            b.executor = i) := by
  have hnew : ∀ x : Executor, (s.executors ++ [x])[i]? = some (.kraken client) →
      s.executors[i]? = some (.kraken client) ∨
        s.executors.length = i ∧ x = .kraken client := by
    intro x hget
    rcases Nat.lt_trichotomy i s.executors.length with hlt | rfl | hgt
    · rw [List.getElem?_append_left hlt] at hget
      exact Or.inl hget
    · rw [List.getElem?_concat_length] at hget
      exact Or.inr ⟨rfl, Option.some.inj hget⟩
    · rw [List.getElem?_eq_none (by simpa using hgt)] at hget
      cases hget
  cases e with
  | start => cases hafter
  | setenv | configure => exact Or.inr ⟨nofun, client, hafter, Or.inl rfl⟩
  | paperExecutor =>
    rcases hnew _ hafter with hold | ⟨-, hpaper⟩
    · exact Or.inr ⟨nofun, client, hold, Or.inl rfl⟩
    · cases hpaper
  | krakenExecutor allowLive =>
    rcases next_krakenExecutor S s allowLive with hsame | ⟨rfl, henabled, hsame⟩
    · rw [hsame] at hafter
      exact Or.inr ⟨nofun, client, hafter, Or.inl rfl⟩
    · rw [hsame] at hafter
      rcases hnew _ hafter with hold | ⟨hplace, hkraken⟩
      · exact Or.inr ⟨nofun, client, hold, Or.inl rfl⟩
      · cases hkraken
        exact Or.inl ⟨rfl, henabled, hplace, rfl⟩
  | broker executor paper allowLive =>
    refine Or.inr ⟨nofun, client, ?_, Or.inl rfl⟩
    rcases next_broker S s executor paper allowLive with hsame | ⟨p, -, hsame⟩ <;>
      rwa [hsame] at hafter
  | submit broker c answer =>
    obtain ⟨client', hold, hclient⟩ := (next_submit S s broker c answer).kraken_before hafter
    refine Or.inr ⟨nofun, client', hold, hclient.imp_right ?_⟩
    rintro ⟨keys, hsome, hkeys, b, hbroker, hexecutor⟩
    exact ⟨keys, hsome, hkeys, broker, b, c, answer, rfl, hbroker, hexecutor⟩

/-- The exchange is sent an order by a live executor only, which the broker of the order has. -/
lemma next_sent (S : PyStr) (s : Process) (e : Event) :
    (next S s e).sent = s.sent ∨ ∃ broker b c answer, ∃ (client : Option Keys) (keys : Keys),
      e = .submit broker c answer ∧ (next S s e).sent = s.sent ++ [(c.order S, keys)] ∧
      (c.order S).Valid ∧ guardRefuses S (s.guard S) c s.disk = false ∧
      s.brokers[broker]? = some b ∧ s.executors[b.executor]? = some (.kraken client) ∧
      (client = some keys ∨ HasKeys s.environ keys) := by
  cases e with
  | start | setenv | configure | paperExecutor => exact Or.inl rfl
  | krakenExecutor allowLive =>
    refine Or.inl ?_
    rcases next_krakenExecutor S s allowLive with hsame | ⟨-, -, hsame⟩ <;> rw [hsame]
  | broker executor paper allowLive =>
    refine Or.inl ?_
    rcases next_broker S s executor paper allowLive with hsame | ⟨p, -, hsame⟩ <;> rw [hsame]
  | submit broker c answer =>
    generalize hnext : next S s (.submit broker c answer) = s'
    have heffect := next_submit S s broker c answer
    rw [hnext] at heffect
    cases heffect with
    | kept d => exact Or.inl rfl
    | filled hbroker hexecutor d => exact Or.inl rfl
    | @sent b client keys hvalid hguard hbroker hexecutor hkeys d =>
      exact Or.inr ⟨broker, b, c, answer, client, keys, rfl, rfl, hvalid, hguard, hbroker,
        hexecutor, hkeys⟩

end Effects

/-! ## Where live orders come from -/

/-- The order that an event asks for. -/
def Event.order (S : PyStr) : Event → Option Order
  | .submit _ c _ => some (c.order S)
  | _ => none

/-- Of the events `front` one constructed the executor `i` of the process that runs: with
`allow_live`, while live trading was enabled, as the next object after those there were. -/
def ConstructedLive (S : PyStr) (s : Process) (front : List Event) (i : ℕ) : Prop :=
  ∃ before after, front = before ++ .krakenExecutor true :: after ∧ .start ∉ after ∧
    (before.foldl (next S) s).executors.length = i ∧
    liveTradingEnabled S (before.foldl (next S) s).environ = true

/-- Of the events `front` one submitted an order to the executor `i` of the process that runs, while
the environment had these keys. -/
def OpenedWith (S : PyStr) (s : Process) (front : List Event) (i : ℕ) (keys : Keys) : Prop :=
  ∃ before broker b c answer after, front = before ++ .submit broker c answer :: after ∧
    .start ∉ after ∧ (before.foldl (next S) s).brokers[broker]? = some b ∧ b.executor = i ∧
    HasKeys (before.foldl (next S) s).environ keys

/-- Why the exchange was sent an order: it was submitted after the events `front` to the broker `b`,
is valid and passed the guard; the executor of this very broker was constructed with `allow_live`
while live trading was enabled, by the process that submitted the order; and the keys are those that
the environment has, or had when an order was submitted to this executor before. -/
structure Gated (S : PyStr) (s : Process) (front : List Event) (broker : ℕ) (c : Call)
    (keys : Keys) (b : BrokerObject) : Prop where
  valid : (c.order S).Valid
  guard : guardRefuses S ((front.foldl (next S) s).guard S) c (front.foldl (next S) s).disk = false
  broker : (front.foldl (next S) s).brokers[broker]? = some b
  enabled : ConstructedLive S s front b.executor
  keys : HasKeys (front.foldl (next S) s).environ keys ∨ OpenedWith S s front b.executor keys

section Origins

variable {S : PyStr} {s : Process} {events : List Event}

/-- A live executor was constructed by the process that runs, while live trading was enabled. -/
lemma constructedLive_of_executor {i : ℕ} {client : Option Keys} (hnone : s.executors = [])
    (h : (events.foldl (next S) s).executors[i]? = some (.kraken client)) :
    ConstructedLive S s events i := by
  obtain ⟨front, e, rest, heq, horigin⟩ := Origin.exists_origin
    (P := fun s : Process => ∃ client, s.executors[i]? = some (.kraken client))
    (by simp [hnone]) ⟨client, h⟩
  have hstart : Event.start ∉ rest := Origin.not_mem_of_from horigin nofun
  obtain ⟨client', hafter⟩ := horigin.after
  rcases kraken_before e hafter with ⟨rfl, henabled, hplace, -⟩ | ⟨-, client'', hbefore, -⟩
  · exact ⟨front, rest, heq, hstart, hplace, henabled⟩
  · exact absurd ⟨client'', hbefore⟩ horigin.before

/-- The keys of a client were those of the environment when the process that runs submitted an
order to its executor. -/
lemma openedWith_of_client {i : ℕ} {keys : Keys} (hnone : s.executors = [])
    (h : (events.foldl (next S) s).executors[i]? = some (.kraken (some keys))) :
    OpenedWith S s events i keys := by
  obtain ⟨front, e, rest, heq, horigin⟩ := Origin.exists_origin
    (P := fun s : Process => s.executors[i]? = some (.kraken (some keys)))
    (by simp [hnone]) h
  have hstart : Event.start ∉ rest := Origin.not_mem_of_from horigin nofun
  rcases kraken_before e horigin.after with ⟨-, -, -, hclient⟩ | ⟨-, client, hbefore, hclient⟩
  · cases hclient
  · rcases hclient with rfl | ⟨keys', hsome, hkeys, broker, b, c, answer, rfl, hbroker, hexecutor⟩
    · exact absurd hbefore horigin.before
    · cases hsome
      exact ⟨front, broker, b, c, answer, rest, heq, hstart, hbroker, hexecutor, hkeys⟩

/-- The exchange is sent orders that were submitted, each at most once and in their order. -/
lemma sent_sublist (hnone : s.sent = []) : ((events.foldl (next S) s).sent.map Prod.fst).Sublist
    (events.filterMap (Event.order S)) := by
  induction events using List.reverseRecOn with
  | nil => simp [hnone]
  | append_singleton events e ih =>
    rw [List.foldl_append, List.filterMap_append]
    show ((next S (events.foldl (next S) s) e).sent.map Prod.fst).Sublist _
    rcases next_sent S (events.foldl (next S) s) e with
      hsame | ⟨broker, b, c, answer, client, keys, rfl, hsent, -⟩
    · rw [hsame]
      exact ih.trans (List.sublist_append_left _ _)
    · rw [hsent, List.map_append]
      exact ih.append (List.Sublist.refl _)

/-- **Live orders.** Whatever processes do, one after the other, the exchange is sent orders that
were submitted, each at most once and in their order; and each of them was valid, passed the guard
of its moment, and went through the executor of its broker, which the same process constructed with
`allow_live` while live trading was enabled, with keys that the environment of that process had.

**Proof sketch.** The event that added an order to what the exchange was sent is a submission to a
live executor; the executor comes from an event that constructed it, the keys of its client come
from an event that opened it, and no process was started since. -/
theorem sent_gated (S : PyStr) (environ : Environ) (disk : Disk) (events : List Event) :
    ((events.foldl (next S) (.fresh S environ disk)).sent.map Prod.fst).Sublist
        (events.filterMap (Event.order S)) ∧
      ∀ entry ∈ (events.foldl (next S) (.fresh S environ disk)).sent,
        ∃ front broker c answer rest b, events = front ++ .submit broker c answer :: rest ∧
          entry.1 = c.order S ∧ Gated S (.fresh S environ disk) front broker c entry.2 b := by
  refine ⟨sent_sublist rfl, fun entry hentry => ?_⟩
  obtain ⟨front, e, rest, rfl, horigin⟩ := Origin.exists_origin
    (P := fun s : Process => entry ∈ s.sent) (by simp [Process.fresh]) hentry
  rcases next_sent S (front.foldl (next S) (.fresh S environ disk)) e with
    hsame | ⟨broker, b, c, answer, client, keys, rfl, hsent, hvalid, hguard, hbroker, hexecutor,
      hkeys⟩
  · exact absurd (hsame ▸ horigin.after) horigin.before
  · have hafter := horigin.after
    rw [hsent] at hafter
    have hlast : entry = (c.order S, keys) := by
      rcases List.mem_append.mp hafter with hold | hnew
      · exact absurd hold horigin.before
      · exact List.mem_singleton.mp hnew
    subst hlast
    refine ⟨front, broker, c, answer, rest, b, rfl, rfl, hvalid, hguard, hbroker, ?_, ?_⟩
    · exact constructedLive_of_executor rfl hexecutor
    · rcases hkeys with rfl | hkeys
      · exact Or.inr (openedWith_of_client rfl hexecutor)
      · exact Or.inl hkeys

/-- A run with two live executors. The first construction is refused, since live trading is not
enabled; the order goes through the second executor, of a paper broker. -/
def rotatedExecutors : List Event :=
  [.setenv "KRAKEN_API_KEY" "k", .setenv "KRAKEN_API_SECRET" "s", .krakenExecutor true,
    .setenv "KEEL_ALLOW_LIVE_TRADING" "1", .krakenExecutor true, .krakenExecutor true,
    .broker 1 none false, .submit 0 (Call.at 0 "BTC" "buy" 1 100) .returns]

/-- The order of this run is sent, with the keys of the environment, after its broker's executor
was constructed while live trading was enabled. -/
theorem sent_gated_rotated :
    let s := Process.fresh .ascii (fun _ => none) ⟨none, []⟩
    let order : Order := ⟨"BTC", "buy", .fin 1, .fin 100⟩
    (rotatedExecutors.foldl (next .ascii) s).sent = [(order, ⟨"k", "s"⟩)] ∧
      ∃ front broker c answer rest b, rotatedExecutors = front ++ .submit broker c answer :: rest ∧
        order = c.order .ascii ∧ Gated .ascii s front broker c ⟨"k", "s"⟩ b := by
  intro s order
  have hsent : (rotatedExecutors.foldl (next .ascii) s).sent = [(order, ⟨"k", "s"⟩)] := by
    decide +kernel
  have hentry : (order, (⟨"k", "s"⟩ : Keys)) ∈ (rotatedExecutors.foldl (next .ascii) s).sent := by
    rw [hsent]
    exact List.mem_singleton_self _
  exact ⟨hsent, (sent_gated .ascii (fun _ => none) ⟨none, []⟩ rotatedExecutors).2 _ hentry⟩

/-- **Live brokers.** A live broker was constructed by the process that runs, with `allow_live`,
while live trading was enabled. -/
theorem liveBroker_gated (S : PyStr) (environ : Environ) (disk : Disk) (events : List Event) :
    ∀ b ∈ (events.foldl (next S) (.fresh S environ disk)).brokers, b.paper = false →
      ∃ front executor paper rest, events = front ++ .broker executor paper true :: rest ∧
        .start ∉ rest ∧ liveTradingEnabled S
          (front.foldl (next S) (.fresh S environ disk)).environ = true := by
  intro b hb hlive
  obtain ⟨front, e, rest, rfl, horigin⟩ := Origin.exists_origin
    (P := fun s : Process => b ∈ s.brokers) (by simp [Process.fresh]) hb
  have hstart : Event.start ∉ rest := Origin.not_mem_of_from horigin nofun
  have hbefore := horigin.before
  have hafter := horigin.after
  generalize ht : front.foldl (next S) (.fresh S environ disk) = t at hbefore hafter
  cases e with
  | start => cases hafter
  | setenv | configure | paperExecutor => exact absurd hafter hbefore
  | krakenExecutor allowLive =>
    rcases next_krakenExecutor S t allowLive with hsame | ⟨-, -, hsame⟩ <;> rw [hsame] at hafter <;>
      exact absurd hafter hbefore
  | broker executor paper allowLive =>
    rcases next_broker S t executor paper allowLive with hsame | ⟨p, hgate, hsame⟩
    · exact absurd (hsame ▸ hafter) hbefore
    · rw [hsame] at hafter
      rcases List.mem_append.mp hafter with hold | hnew
      · exact absurd hold hbefore
      · obtain rfl := List.mem_singleton.mp hnew
        obtain ⟨rfl, henabled⟩ := hgate hlive
        exact ⟨front, executor, paper, rest, rfl, hstart, by rwa [ht]⟩
  | submit broker c answer =>
    have heffect := next_submit S t broker c answer
    generalize next S t (.submit broker c answer) = t' at heffect hafter
    cases heffect <;> exact absurd hafter hbefore

end Origins

end KeelTrader.Core.LiveGate
