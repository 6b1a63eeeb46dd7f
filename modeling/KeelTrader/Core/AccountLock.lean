import KeelTrader.Lib.Flock
import KeelTrader.Lib.Interleaving
import KeelTrader.Lib.PyValue
import Mathlib.Data.List.Infix
import Mathlib.Tactic

set_option relaxedAutoImplicit false
set_option autoImplicit false

/-!
# The account writer lock

`acquire_alpaca_account_lock` and `AlpacaAccountLock.release` of `core/alpaca_account_lock.py`,
and `enforce_live_singleton` of `core/alpaca_singleton.py` on the live path: any number of
processes and threads that call them for one lock file, one step at a time.

## Main definitions

* `KeelTrader.Core.normalizeAlpacaAccountName` — the account name that names the lock file.
* `KeelTrader.Core.LiveWriter.AccountLock` — a lock object.
* `KeelTrader.Core.LiveWriter.Machine` — the lock file, the kernel lock and the memory of the
  processes.
* `KeelTrader.Core.LiveWriter.Phase` — where a thread is.
* `KeelTrader.Core.LiveWriter.next`, `act` — the next step of a call, and what a thread can do.
* `KeelTrader.Core.LiveWriter.accountLock` — the interleavings.

## Implementation notes

A lock object and the open file description that it wraps share one number. `_HELD_LOCKS` is
looked at under the one key of the lock file. `_active_held_lock` takes `_HELD_LOCKS_LOCK` again,
which its owner may, so only the outer acquisition is a step. Opening, reading and writing the
lock file do not fail. A call is over when it leaves its critical section: what
`acquire_alpaca_account_lock` and `enforce_live_singleton` do after it (registering the release
with `atexit`, `_STATE`) reads and writes none of this, and a release at exit is a release like
any other.
-/

namespace KeelTrader.Core

/-! ## Account names -/

/-- The `ValueError`s of `normalize_alpaca_account_name`. -/
inductive AccountNameError
  /-- "account_name is required". -/
  | required
  /-- "Unsupported Alpaca account name: …". -/
  | unsupported (accountName : String)
  deriving DecidableEq, Repr

/-- A character of `[a-z0-9]`. -/
def isSafeEdge (c : Char) : Bool := c.isLower || c.isDigit

/-- A character of `[a-z0-9._-]`. -/
def isSafeInner (c : Char) : Bool := isSafeEdge c || c = '.' || c = '_' || c = '-'

/-- `SAFE_ALPACA_ACCOUNT_NAME_RE.fullmatch`. -/
def matchesSafeName : List Char → Bool
  | [] => false
  | c :: rest => isSafeEdge c && match rest.getLast? with
    | none => true
    | some last =>
      isSafeEdge last && rest.dropLast.all isSafeInner && decide (rest.dropLast.length ≤ 62)

/-- `normalize_alpaca_account_name`. -/
def normalizeAlpacaAccountName (S : PyStr) (accountName : String) :
    Except AccountNameError String :=
  let normalized := (S.norm accountName).toList.map fun c => if c = ' ' then '_' else c
  if normalized = [] then .error .required
  else if ['.', '.'] <:+: normalized ∨ '/' ∈ normalized ∨ Char.ofNat 92 ∈ normalized then
    .error (.unsupported accountName)
  else if matchesSafeName normalized then .ok (String.ofList normalized)
  else .error (.unsupported accountName)

example : normalizeAlpacaAccountName .ascii " Live Writer" = .ok "live_writer" := by decide

namespace LiveWriter

/-! ## The state -/

/-- A process. -/
abbrev Pid := ℕ

/-- A thread of a process. -/
structure ThreadId where
  pid : Pid
  num : ℕ
  deriving DecidableEq, Repr

/-- `AlpacaAccountLock`, and the process whose memory it is in. -/
structure AccountLock where
  serviceName : String
  pid : Pid
  released : Bool
  deriving DecidableEq, Repr

/-- What `_lock_payload` says about the holder. -/
structure LockPayload where
  serviceName : String
  accountName : String
  pid : Pid
  deriving DecidableEq, Repr

/-- The lock file and the memory of the processes. -/
structure Machine where
  /-- The open descriptions of the lock file and its kernel lock. -/
  flock : Flock Pid
  /-- The text of the lock file, `none` when it is empty. -/
  content : Option LockPayload
  /-- The lock objects. -/
  locks : ℕ → Option AccountLock
  /-- The entry of `_HELD_LOCKS` of each process. -/
  heldLocks : Pid → Option ℕ
  /-- The owner of `_HELD_LOCKS_LOCK` of each process. -/
  mutex : Pid → Option ThreadId
  /-- The processes that have exited. -/
  exited : Pid → Bool

namespace Machine

/-- A machine where nothing holds or has held the lock; the file may be from an earlier run. -/
def start (content : Option LockPayload) : Machine :=
  ⟨.empty, content, fun _ => none, fun _ => none, fun _ => none, fun _ => false⟩

variable (m : Machine)

/-- Entering `with _HELD_LOCKS_LOCK`, which waits while another thread is inside. -/
def lockMutex (θ : ThreadId) : Option Machine :=
  if m.mutex θ.pid = none then
    some { m with mutex := Function.update m.mutex θ.pid (some θ) }
  else none

/-- Leaving `with _HELD_LOCKS_LOCK`. -/
def unlockMutex (p : Pid) : Machine := { m with mutex := Function.update m.mutex p none }

/-- Setting or popping the entry of `_HELD_LOCKS`. -/
def setHeld (p : Pid) (entry : Option ℕ) : Machine :=
  { m with heldLocks := Function.update m.heldLocks p entry }

/-- Writing a lock object. -/
def setLock (h : ℕ) (lock : AccountLock) : Machine :=
  { m with locks := Function.update m.locks h (some lock) }

/-- A process exits: its descriptions are closed and its memory is gone. -/
def exit (p : Pid) : Machine where
  flock := m.flock.exit p
  content := m.content
  locks h := (m.locks h).filter fun lock => lock.pid ≠ p
  heldLocks := Function.update m.heldLocks p none
  mutex := Function.update m.mutex p none
  exited := Function.update m.exited p true

end Machine

/-! ## The calls -/

/-- The `RuntimeError`s of `acquire_alpaca_account_lock`. -/
inductive LockError
  /-- "Alpaca account writer lock is already held in-process: …". -/
  | heldInProcess (accountName holderService : String) (holderPid : Pid)
  /-- "Alpaca account writer lock is already held: …", with what the lock file says. -/
  | held (accountName : String) (holder : Option LockPayload)
  deriving DecidableEq, Repr

/-- A call of `acquire_alpaca_account_lock`, by itself or within `enforce_live_singleton`. -/
structure AcquireCall where
  serviceName : String
  accountName : String
  enforce : Bool
  deriving DecidableEq, Repr

/-- How a call ends. -/
inductive Outcome
  | lock (h : ℕ)
  | runtimeError (e : LockError)
  | systemExit (code : ℤ)
  deriving DecidableEq, Repr

/-- `enforce_live_singleton` turns a `RuntimeError` into `SystemExit(42)`. -/
def AcquireCall.outcome (call : AcquireCall) : Except LockError ℕ → Outcome
  | .ok h => .lock h
  | .error e => if call.enforce then .systemExit 42 else .runtimeError e

/-- Where a thread is: at the step that it takes next. -/
inductive Phase
  | idle
  | finished (call : AcquireCall) (outcome : Outcome)
  -- `acquire_alpaca_account_lock`
  | acqEnter (call : AcquireCall)
  | acqLook (call : AcquireCall)
  | acqFound (call : AcquireCall) (existing : ℕ)
  | acqOpen (call : AcquireCall)
  | acqFlock (call : AcquireCall) (handle : ℕ)
  | acqRefused (call : AcquireCall) (handle : ℕ)
  | acqClose (call : AcquireCall) (handle : ℕ) (e : LockError)
  | acqTruncate (call : AcquireCall) (handle : ℕ)
  | acqWrite (call : AcquireCall) (handle : ℕ)
  | acqCreate (call : AcquireCall) (handle : ℕ)
  | acqRegister (call : AcquireCall) (handle : ℕ)
  | acqLeave (call : AcquireCall) (result : Except LockError ℕ)
  -- `AlpacaAccountLock.release`
  | relEnter (self : ℕ)
  | relTest (self : ℕ)
  | relSet (self : ℕ)
  | relExit (self : ℕ)
  | relUnlock (self : ℕ)
  | relClose (self : ℕ)
  | relReenter (self : ℕ)
  | relGet (self : ℕ)
  | relPop (self : ℕ)
  | relLeave (self : ℕ)

/-- A thread that is in no call can start one. -/
def Phase.ready : Phase → Bool
  | .idle | .finished _ _ => true
  | _ => false

/-- The lock that a thread is releasing. -/
def Phase.releasing : Phase → Option ℕ
  | .relEnter h | .relTest h | .relSet h | .relExit h | .relUnlock h | .relClose h
  | .relReenter h | .relGet h | .relPop h | .relLeave h => some h
  | _ => none

/-! ## The steps -/

/-- The next step of thread `θ` inside a call; `none` when it waits for the mutex. -/
def next (θ : ThreadId) (m : Machine) : Phase → Option (Phase × Machine)
  | .idle | .finished _ _ => none
  | .acqEnter call => (m.lockMutex θ).map fun m' => (.acqLook call, m')
  -- `_active_held_lock`
  | .acqLook call =>
    match m.heldLocks θ.pid with
    | none => some (.acqOpen call, m)
    | some h => some (.acqFound call h, m)
  | .acqFound call h =>
    match m.locks h with
    | none => none
    | some lock =>
      if lock.released then some (.acqOpen call, m.setHeld θ.pid none)
      else if lock.serviceName = call.serviceName then some (.acqLeave call (.ok h), m)
      else some (.acqLeave call (.error
        (.heldInProcess call.accountName lock.serviceName θ.pid)), m)
  | .acqOpen call =>
    some (.acqFlock call m.flock.next, { m with flock := m.flock.openFile θ.pid })
  | .acqFlock call h =>
    match m.flock.tryLock h with
    | none => some (.acqRefused call h, m)
    | some flock => some (.acqTruncate call h, { m with flock := flock })
  -- `BlockingIOError`: the lock file is read for the message
  | .acqRefused call h => some (.acqClose call h (.held call.accountName m.content), m)
  | .acqClose call h e => some (.acqLeave call (.error e), { m with flock := m.flock.close h })
  | .acqTruncate call h => some (.acqWrite call h, { m with content := none })
  | .acqWrite call h =>
    some (.acqCreate call h,
      { m with content := some ⟨call.serviceName, call.accountName, θ.pid⟩ })
  | .acqCreate call h => some (.acqRegister call h, m.setLock h ⟨call.serviceName, θ.pid, false⟩)
  | .acqRegister call h => some (.acqLeave call (.ok h), m.setHeld θ.pid (some h))
  | .acqLeave call result => some (.finished call (call.outcome result), m.unlockMutex θ.pid)
  | .relEnter h => (m.lockMutex θ).map fun m' => (.relTest h, m')
  | .relTest h =>
    match m.locks h with
    | none => none
    | some lock => if lock.released then some (.relLeave h, m) else some (.relSet h, m)
  | .relSet h =>
    match m.locks h with
    | none => none
    | some lock => some (.relExit h, m.setLock h { lock with released := true })
  | .relExit h => some (.relUnlock h, m.unlockMutex θ.pid)
  | .relUnlock h => some (.relClose h, { m with flock := m.flock.unlock h })
  | .relClose h => some (.relReenter h, { m with flock := m.flock.close h })
  | .relReenter h => (m.lockMutex θ).map fun m' => (.relGet h, m')
  -- `held is self`
  | .relGet h => if m.heldLocks θ.pid = some h then some (.relPop h, m) else some (.relLeave h, m)
  | .relPop h => some (.relLeave h, m.setHeld θ.pid none)
  | .relLeave _ => some (.idle, m.unlockMutex θ.pid)

/-- What a thread is asked to do. -/
inductive Request
  /-- Call `acquire_alpaca_account_lock` or `enforce_live_singleton`. -/
  | acquire (call : AcquireCall)
  /-- Call `release` on a lock object. -/
  | release (h : ℕ)
  /-- Take the next step of the call it is in. -/
  | run
  deriving DecidableEq, Repr

/-- A thread does what it is asked, if it can. Only a thread that is in no call can start one,
and only lock objects of its own process can be released. -/
def act (S : PyStr) (account : String) (θ : ThreadId) (m : Machine) (phase : Phase) :
    Request → Option (Phase × Machine)
  | .run => if m.exited θ.pid then none else next θ m phase
  | .acquire call =>
    if phase.ready = true ∧ m.exited θ.pid = false ∧
        normalizeAlpacaAccountName S call.accountName = .ok account then
      some (.acqEnter call, m)
    else none
  | .release h =>
    if phase.ready = true ∧ m.exited θ.pid = false ∧
        (m.locks h).any (fun lock => lock.pid = θ.pid) = true then
      some (.relEnter h, m)
    else none

/-- The interleavings of the calls for one account, with process exits at any point. -/
def accountLock (S : PyStr) (account : String) : Interleaving ThreadId Phase Machine where
  thread θ phase m phase' m' := ∃ request, act S account θ m phase request = some (phase', m')
  environment m m' := ∃ p, m' = m.exit p

/-- A configuration of the interleavings. -/
abbrev Config := Interleaving.Config ThreadId Phase Machine

/-- No thread is in a call. -/
def Config.start (content : Option LockPayload) : Config := ⟨.start content, fun _ => .idle⟩

end LiveWriter

end KeelTrader.Core
