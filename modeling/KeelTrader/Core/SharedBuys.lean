import KeelTrader.Core.AccountLock
import KeelTrader.Core.BuyMemory
import KeelTrader.Lib.Flock
import KeelTrader.Lib.Interleaving

set_option relaxedAutoImplicit false
set_option autoImplicit false

/-!
# Buy memory shared by threads and processes

`_buy_memory_guard` of `core/alpaca_singleton.py` and the four operations under it, for one
account: any number of processes and threads that call them, one step at a time. A step takes or
drops a lock, looks at the buys file, computes, or changes one file.

## Main definitions

* `KeelTrader.Core.SharedBuys.BuyCall` — a call of one of the operations, `Op` one that reaches
  the file.
* `KeelTrader.Core.SharedBuys.BuyCall.plan` — what an operation computes from the data it loaded.
* `KeelTrader.Core.SharedBuys.Machine` — the locks, the files and the memory of the processes,
  with a log of the acquisitions.
* `KeelTrader.Core.SharedBuys.Phase`, `next` — where a thread is, and its next step.
* `KeelTrader.Core.SharedBuys.buyMemory` — the interleavings, with exits at any point.

## Main results

* `KeelTrader.Core.SharedBuys.memory_run` — an operation that runs by itself leaves what its plan
  says.

## Implementation notes

The clock readings of a call are its arguments. The lock file is another file than the buys file,
and each `open` of it is a description of its own. An operation is in no other operation, so an
`RLock` is never taken again by its owner. Reading, writing and moving files does not fail;
`os.replace` is one step, and the temporary file is empty before it is written. `log` is not a
part of the program: it lists the acquisitions of the file lock in order, and marks one when the
replace of its operation happens.
-/

namespace KeelTrader.Core.SharedBuys

open LiveWriter (Pid ThreadId)

/-- The buys object. -/
abbrev Buys := Dict String BuyRecord

/-! ## Calls -/

/-- A call, with the configuration of its process and the clock readings it gets. -/
inductive BuyCall where
  /-- `record_buy_price`. -/
  | record (g : Guard) (pruneAt stampAt : ℚ) (symbol : String) (price : PyFloat)
  /-- `guard_sell_against_death_spiral`. -/
  | guardSell (g : Guard) (now : ℚ) (symbol side : String) (price : PyFloat) (args : GuardArgs)
  /-- `forget_buy`. -/
  | forget (symbol : String)
  /-- `forget_all_buys`. -/
  | forgetAll

/-- Files are read and moved without failure. -/
def noFailure : ReadOutcome := ⟨false, false⟩

namespace BuyCall

variable (S : PyStr)

/-- The call returns before it takes a lock. -/
def skips : BuyCall → Bool
  | record _ _ _ symbol price => decide (symbol = "" ∨ price.le (.fin 0) ∨ ¬price.isFinite)
  | guardSell g _ symbol side price _ =>
    decide (side = "" ∨ (S.norm side ≠ "sell" ∧ S.norm side ≠ "short") ∨
      (symbol = "" ∨ ¬price.isFinite ∨ price.le (.fin 0)) ∨ g.override)
  | forget _ | forgetAll => false

/-- The call, running by itself. -/
def run : BuyCall → Raising OrderError Disk Unit
  | record g pruneAt stampAt symbol price =>
    recordBuyPrice S g noFailure pruneAt stampAt symbol price
  | guardSell g now symbol side price args =>
    guardSellAgainstDeathSpiral S g noFailure now symbol side price args
  | forget symbol => forgetBuy S noFailure symbol
  | forgetAll => forgetAllBuys

/-- The operation loads the buys file. -/
def loads : BuyCall → Bool
  | forgetAll => false
  | _ => true

/-- What an operation computes from the data it loaded: the data it goes on with, and whether it
saves them. -/
def plan (data : Buys) : BuyCall → Except OrderError (Buys × Bool)
  | record g pruneAt stampAt symbol price => do
    let pruned ← pruneBuys pruneAt g.buyMemorySeconds data
    pure (pruned.set (S.upper symbol) (.record (.number price) (.number (.fin stampAt))), true)
  | guardSell g now _ _ _ _ => do
    let pruned ← pruneBuys now g.buyMemorySeconds data
    pure (pruned, decide (pruned ≠ data))
  | forget symbol => pure (data.erase (S.upper symbol), true)
  | forgetAll => pure (.empty, true)

/-- How an operation ends, after it has saved. -/
def finish (data : Buys) (disk : Disk) : BuyCall → Except OrderError Unit
  | guardSell g _ symbol _ price args =>
    (checkFloor g args symbol price (data.get? (S.upper symbol))).outcome disk
  | _ => .ok ()

end BuyCall

/-- A call that reaches the buys file. -/
structure Op (S : PyStr) where
  call : BuyCall
  works : call.skips S = false

/-- The buys that an operation leaves. -/
def Op.apply {S : PyStr} (op : Op S) (data : Buys) : Buys :=
  match op.call.plan S data with
  | .ok (data', true) => data'
  | _ => data

/-! ## The state -/

/-- One acquisition of the file lock. -/
structure Entry (S : PyStr) where
  thread : ThreadId
  op : Op S
  /-- The replace of the operation has happened. -/
  replaced : Bool

/-- The locks and files of the account, and the memory of the processes. -/
structure Machine (S : PyStr) where
  /-- The open descriptions of the lock file and its kernel lock. -/
  flock : Flock Pid
  /-- The owner of `_BUY_MEMORY_LOCKS_MU` of each process. -/
  mu : Pid → Option ThreadId
  /-- The entry of `_BUY_MEMORY_LOCKS` of each process. -/
  registry : Pid → Option ℕ
  /-- The next `RLock` object. -/
  nextLock : ℕ
  /-- The owner of an `RLock` object. -/
  lockOwner : ℕ → Option ThreadId
  /-- The buys file and the quarantined files. -/
  disk : Disk
  /-- The temporary files. -/
  temps : ℕ → Option FileContent
  /-- The next temporary file. -/
  nextTemp : ℕ
  /-- The processes that have exited. -/
  exited : Pid → Bool
  /-- The acquisitions of the file lock, in order. -/
  log : List (Entry S)

/-- Mark the last acquisition. -/
def markReplaced {S : PyStr} (log : List (Entry S)) : List (Entry S) :=
  match log.getLast? with
  | none => log
  | some e => log.dropLast ++ [{ e with replaced := true }]

/-- The operations whose replace has happened, in the order of their acquisitions. -/
def replacedOps {S : PyStr} (log : List (Entry S)) : List (Op S) :=
  (log.filter fun e => e.replaced).map fun e => e.op

namespace Machine

variable {S : PyStr}

/-- A machine where nothing has happened yet, on the files of earlier runs. -/
def start (disk : Disk) : Machine S where
  flock := .empty
  mu _ := none
  registry _ := none
  nextLock := 0
  lockOwner _ := none
  disk := disk
  temps _ := none
  nextTemp := 0
  exited _ := false
  log := []

variable (m : Machine S)

/-- Writing a temporary file, or removing it. -/
def setTemp (tmp : ℕ) (content : Option FileContent) : Machine S :=
  { m with temps := Function.update m.temps tmp content }

/-- A process exits: its descriptions are closed, and its memory is gone. -/
def exit (p : Pid) : Machine S where
  flock := m.flock.exit p
  mu := Function.update m.mu p none
  registry := Function.update m.registry p none
  nextLock := m.nextLock
  lockOwner l := (m.lockOwner l).filter fun θ => θ.pid ≠ p
  disk := m.disk
  temps := m.temps
  nextTemp := m.nextTemp
  exited := Function.update m.exited p true
  log := m.log

end Machine

/-! ## The steps -/

/-- An operation inside `_buy_memory_guard`: its `RLock` and its description of the lock file. -/
structure Held (S : PyStr) where
  op : Op S
  lock : ℕ
  handle : ℕ

/-- Where a thread is: at the step that it takes next. -/
inductive Phase (S : PyStr)
  | idle
  | finished (call : BuyCall) (outcome : Except OrderError Unit)
  -- `_buy_memory_lock`
  | muEnter (op : Op S)
  | muLook (op : Op S)
  | muCreate (op : Op S)
  | muLeave (op : Op S) (lock : ℕ)
  -- `_buy_memory_guard`
  | lockEnter (op : Op S) (lock : ℕ)
  | openHandle (op : Op S) (lock : ℕ)
  | takeFlock (x : Held S)
  -- `_load_buys`
  | pathExists (x : Held S)
  | readText (x : Held S)
  | quarantine (x : Held S) (content : FileContent)
  | compute (x : Held S) (data : Buys)
  -- `_save_buys`
  | mkstemp (x : Held S) (data : Buys)
  | writeTemp (x : Held S) (data : Buys) (tmp : ℕ)
  | replace (x : Held S) (data : Buys) (tmp : ℕ)
  | unlink (x : Held S) (data : Buys) (tmp : ℕ)
  -- the rest of the operation, and the end of `_buy_memory_guard`
  | check (x : Held S) (data : Buys)
  | unlock (x : Held S) (outcome : Except OrderError Unit)
  | close (x : Held S) (outcome : Except OrderError Unit)
  | lockLeave (op : Op S) (lock : ℕ) (outcome : Except OrderError Unit)

variable {S : PyStr}

/-- A thread that is in no call can start one. -/
def Phase.ready : Phase S → Bool
  | .idle | .finished _ _ => true
  | _ => false

/-- The next step of thread `θ` inside a call; `none` while it waits for a lock. -/
def next (θ : ThreadId) (m : Machine S) : Phase S → Option (Phase S × Machine S)
  | .idle | .finished _ _ => none
  | .muEnter op =>
    if m.mu θ.pid = none then
      some (.muLook op, { m with mu := Function.update m.mu θ.pid (some θ) })
    else none
  | .muLook op =>
    match m.registry θ.pid with
    | some lock => some (.muLeave op lock, m)
    | none => some (.muCreate op, m)
  | .muCreate op =>
    some (.muLeave op m.nextLock,
      { m with
        registry := Function.update m.registry θ.pid (some m.nextLock)
        nextLock := m.nextLock + 1 })
  | .muLeave op lock =>
    some (.lockEnter op lock, { m with mu := Function.update m.mu θ.pid none })
  | .lockEnter op lock =>
    if m.lockOwner lock = none then
      some (.openHandle op lock, { m with lockOwner := Function.update m.lockOwner lock (some θ) })
    else none
  | .openHandle op lock =>
    some (.takeFlock ⟨op, lock, m.flock.next⟩, { m with flock := m.flock.openFile θ.pid })
  | .takeFlock x =>
    match m.flock.tryLock x.handle with
    | none => none
    | some flock =>
      let m' := { m with flock := flock, log := m.log ++ [⟨θ, x.op, false⟩] }
      if x.op.call.loads then some (.pathExists x, m') else some (.compute x .empty, m')
  | .pathExists x =>
    match m.disk.buys with
    | none => some (.compute x .empty, m)
    | some _ => some (.readText x, m)
  | .readText x =>
    match m.disk.buys with
    | none | some .undecodable => some (.compute x .empty, m)
    | some (.object data) => some (.compute x data, m)
    | some content => some (.quarantine x content, m)
  | .quarantine x content =>
    some (.compute x .empty,
      { m with disk := quarantineBuyMemoryFile noFailure content m.disk })
  | .compute x data =>
    match x.op.call.plan S data with
    | .error e => some (.unlock x (.error e), m)
    | .ok (data', true) => some (.mkstemp x data', m)
    | .ok (data', false) => some (.check x data', m)
  | .mkstemp x data =>
    some (.writeTemp x data m.nextTemp,
      { m.setTemp m.nextTemp (some .notJson) with nextTemp := m.nextTemp + 1 })
  | .writeTemp x data tmp => some (.replace x data tmp, m.setTemp tmp (some (.object data)))
  | .replace x data tmp =>
    match m.temps tmp with
    | none => none
    | some content =>
      some (.unlink x data tmp,
        { m.setTemp tmp none with
          disk := { m.disk with buys := some content }
          log := markReplaced m.log })
  | .unlink x data tmp => some (.check x data, m.setTemp tmp none)
  | .check x data => some (.unlock x (x.op.call.finish S data m.disk), m)
  | .unlock x outcome => some (.close x outcome, { m with flock := m.flock.unlock x.handle })
  | .close x outcome =>
    some (.lockLeave x.op x.lock outcome, { m with flock := m.flock.close x.handle })
  | .lockLeave op lock outcome =>
    some (.finished op.call outcome,
      { m with lockOwner := Function.update m.lockOwner lock none })

/-- What a thread is asked to do. -/
inductive Request
  /-- Call an operation. -/
  | start (call : BuyCall)
  /-- Take the next step of the call it is in. -/
  | run

/-- A thread does what it is asked, if it can. -/
def act (θ : ThreadId) (m : Machine S) (phase : Phase S) : Request → Option (Phase S × Machine S)
  | .run => if m.exited θ.pid then none else next θ m phase
  | .start call =>
    if phase.ready = true ∧ m.exited θ.pid = false then
      if h : call.skips S = false then some (.muEnter ⟨call, h⟩, m)
      else some (.finished call (.ok ()), m)
    else none

/-- The threads of the account; a process can exit at any point. -/
def buyMemory (S : PyStr) : Actors ThreadId (Phase S) (Machine S) Request Pid where
  act := act
  event p m := m.exit p

/-- A configuration of the interleavings. -/
abbrev Config (S : PyStr) := Interleaving.Config ThreadId (Phase S) (Machine S)

/-- No thread is in a call. -/
def Config.start (S : PyStr) (disk : Disk) : Config S := ⟨.start disk, fun _ => .idle⟩

/-! ## Operations by themselves -/

/-- Loading does not change what can be read. -/
lemma loadBuys_noFailure (disk : Disk) :
    (loadBuys noFailure disk).1 = disk.memory ∧
      (loadBuys noFailure disk).2.memory = disk.memory := by
  cases hbuys : disk.buys with
  | none => simp [loadBuys, Disk.memory, hbuys]
  | some content =>
    cases content <;>
      simp [loadBuys, Disk.memory, hbuys, noFailure, quarantineBuyMemoryFile]

/-- A prune goes on with what it computes, or raises. -/
lemma after_ofExcept_bind {α : Type} (x : Except OrderError α)
    (f : α → Raising OrderError Disk Unit) (disk : Disk) :
    (Raising.ofExcept x >>= f).after disk =
      match x with
      | .ok a => (f a).after disk
      | .error _ => disk := by
  cases x <;> rfl

/-- Comparing a sell with its record leaves the files alone. -/
lemma after_checkFloor (g : Guard) (args : GuardArgs) (symbol : String) (price : PyFloat)
    (rec : Option BuyRecord) (disk : Disk) :
    (checkFloor g args symbol price rec).after disk = disk := by
  rcases rec with _ | ⟨recPrice, ts⟩ | _
  · rfl
  · cases recPrice with
    | absent =>
      simp only [checkFloor, JsonNumber.toFloat, after_ofExcept_bind]
      split_ifs <;> rfl
    | number x =>
      simp only [checkFloor, JsonNumber.toFloat, after_ofExcept_bind]
      split_ifs <;> rfl
    | malformed => rfl
  · rfl

/-- `record_buy_price` by itself. -/
lemma memory_recordBuyPrice {g : Guard} {pruneAt stampAt : ℚ} {symbol : String} {price : PyFloat}
    (hskip : ¬(symbol = "" ∨ price.le (.fin 0) ∨ ¬price.isFinite)) (disk : Disk) :
    ((recordBuyPrice S g noFailure pruneAt stampAt symbol price).after disk).memory =
      match pruneBuys pruneAt g.buyMemorySeconds disk.memory with
      | .ok pruned =>
        pruned.set (S.upper symbol) (.record (.number price) (.number (.fin stampAt)))
      | .error _ => disk.memory := by
  obtain ⟨hdata, hdisk⟩ := loadBuys_noFailure disk
  have hrun : (recordBuyPrice S g noFailure pruneAt stampAt symbol price).after disk =
      (Raising.ofExcept (pruneBuys pruneAt g.buyMemorySeconds (loadBuys noFailure disk).1) >>=
        fun data => modify (saveBuys (data.set (S.upper symbol)
          (.record (.number price) (.number (.fin stampAt)))))).after
        (loadBuys noFailure disk).2 := by
    unfold recordBuyPrice
    rw [if_neg hskip]
    rfl
  rw [hrun, after_ofExcept_bind, hdata]
  cases pruneBuys pruneAt g.buyMemorySeconds disk.memory with
  | error e => exact hdisk
  | ok pruned => rfl

/-- The guard by itself, whether or not it saves what it pruned. -/
lemma memory_guardSell {g : Guard} {now : ℚ} {symbol side : String} {price : PyFloat}
    {args : GuardArgs} (hside : ¬side = "")
    (hsell : ¬(S.norm side ≠ "sell" ∧ S.norm side ≠ "short"))
    (hprice : ¬(symbol = "" ∨ ¬price.isFinite ∨ price.le (.fin 0))) (hoverride : ¬g.override)
    (disk : Disk) :
    ((guardSellAgainstDeathSpiral S g noFailure now symbol side price args).after disk).memory =
      match pruneBuys now g.buyMemorySeconds disk.memory with
      | .ok pruned => pruned
      | .error _ => disk.memory := by
  obtain ⟨hdata, hdisk⟩ := loadBuys_noFailure disk
  have hrun : (guardSellAgainstDeathSpiral S g noFailure now symbol side price args).after disk =
      (Raising.ofExcept (pruneBuys now g.buyMemorySeconds (loadBuys noFailure disk).1) >>=
        fun pruned => do
          if pruned ≠ (loadBuys noFailure disk).1 then modify (saveBuys pruned) else pure ()
          checkFloor g args symbol price (pruned.get? (S.upper symbol))).after
        (loadBuys noFailure disk).2 := by
    unfold guardSellAgainstDeathSpiral
    rw [if_neg hside, if_neg hsell, if_neg hprice, if_neg hoverride]
    rfl
  rw [hrun, after_ofExcept_bind, hdata]
  cases pruneBuys now g.buyMemorySeconds disk.memory with
  | error e => exact hdisk
  | ok pruned =>
    by_cases hchanged : pruned ≠ disk.memory
    · dsimp only
      rw [if_pos hchanged]
      have hcheck := after_checkFloor g args symbol price (pruned.get? (S.upper symbol))
        (saveBuys pruned (loadBuys noFailure disk).2)
      exact (congrArg Disk.memory hcheck).trans (memory_saveBuys _ _)
    · dsimp only
      rw [if_neg hchanged]
      have hcheck := after_checkFloor g args symbol price (pruned.get? (S.upper symbol))
        (loadBuys noFailure disk).2
      exact (congrArg Disk.memory hcheck).trans (hdisk.trans (not_not.mp hchanged).symm)

/-- **An operation by itself** leaves the buys that its plan says. -/
theorem memory_run (op : Op S) (disk : Disk) :
    ((op.call.run S).after disk).memory = op.apply disk.memory := by
  obtain ⟨call, hworks⟩ := op
  cases call with
  | record g pruneAt stampAt symbol price =>
    refine (memory_recordBuyPrice (of_decide_eq_false hworks) disk).trans ?_
    simp only [Op.apply, BuyCall.plan]
    cases pruneBuys pruneAt g.buyMemorySeconds disk.memory <;> rfl
  | guardSell g now symbol side price args =>
    obtain ⟨hside, hskip⟩ := not_or.mp (of_decide_eq_false hworks)
    obtain ⟨hsell, hskip⟩ := not_or.mp hskip
    obtain ⟨hprice, hoverride⟩ := not_or.mp hskip
    refine (memory_guardSell hside hsell hprice hoverride disk).trans ?_
    simp only [Op.apply, BuyCall.plan]
    cases pruneBuys now g.buyMemorySeconds disk.memory with
    | error e => rfl
    | ok pruned =>
      by_cases hchanged : pruned = disk.memory
      · simp [bind, Except.bind, pure, Except.pure, hchanged]
      · simp [bind, Except.bind, pure, Except.pure, hchanged]
  | forget symbol =>
    show (saveBuys ((loadBuys noFailure disk).1.erase (S.upper symbol))
      (loadBuys noFailure disk).2).memory = _
    rw [memory_saveBuys, (loadBuys_noFailure disk).1]
    rfl
  | forgetAll => rfl

end KeelTrader.Core.SharedBuys
