import KeelTrader.Core.LockOutline
import Mathlib.Tactic

set_option relaxedAutoImplicit false
set_option autoImplicit false

/-!
# At most one live writer

Every step of a call establishes the assertion of the next phase, and a process exit disturbs no
other process. So the proof outline of the account writer lock holds in every configuration that
any interleaving reaches, and with it the safety of the lock.

## Main definitions

* `KeelTrader.Core.LiveWriter.Effect` — what a step of a call does to the machine.
* `KeelTrader.Core.LiveWriter.outline` — the proof outline.
* `KeelTrader.Core.LiveWriter.performAll` — a sequence of requests to threads.

## Main results

* `KeelTrader.Core.LiveWriter.next_ok` — the steps of the calls.
* `KeelTrader.Core.LiveWriter.exit_ok`, `exit_rely` — process exits.
* `KeelTrader.Core.LiveWriter.next_effect` — every step of a call has one of the effects.
* `KeelTrader.Core.LiveWriter.live_registered` — the registry is up to date outside the critical
  sections.
* `KeelTrader.Core.LiveWriter.oneLiveWriter` — the safety of the account writer lock.
-/

namespace KeelTrader.Core.LiveWriter

/-! ## The steps -/

section Steps

variable {θ : ThreadId} {m m' : Machine} {phase phase' : Phase} {h : ℕ}

/-- Popping a registry entry that is released leaves the registry up to date. -/
lemma registered_pop (hreg : m.Registered θ.pid) (hheld : m.heldLocks θ.pid = some h)
    (hreleased : m.Released θ.pid h) : (m.setHeld θ.pid none).Registered θ.pid := by
  intro h' hlive
  have hentry := hreg h' hlive
  rw [hheld] at hentry
  exact absurd (Option.some.inj hentry).symm (hreleased.ne_of_live hlive)

/-- Registering the live lock object of the kernel lock brings the registry up to date. -/
lemma registered_set (hok : m.Ok) (hlive : m.Live θ.pid h) :
    (m.setHeld θ.pid (some h)).Registered θ.pid := by
  intro h' hlive'
  have hheld := (hok.live_holds _ _ hlive).1
  have hheld' : m.flock.holder = some h' := (hok.live_holds _ _ hlive').1
  rw [hheld] at hheld'
  show Function.update m.heldLocks θ.pid (some h) θ.pid = some h'
  rw [Function.update_self, Option.some.inj hheld']

/-- Releasing a lock object leaves the registry up to date. -/
lemma registered_release {lock : AccountLock} (hreg : m.Registered θ.pid)
    (hreleased : lock.released = true) : (m.setLock h lock).Registered θ.pid := by
  rintro h' ⟨lock', hlock', hpid', hlive'⟩
  rcases locks_setLock.mp hlock' with ⟨-, rfl⟩ | ⟨-, hbefore⟩
  · rw [hreleased] at hlive'
    cases hlive'
  · exact hreg h' ⟨lock', hbefore, hpid', hlive'⟩

/-- No lock object wraps a description that is not open yet. -/
lemma locks_next (hok : m.Ok) : m.locks m.flock.next = none := by
  by_contra hnot
  obtain ⟨lock, hlock⟩ := Option.ne_none_iff_exists'.mp hnot
  exact absurd (hok.lock_lt lock.pid _ ⟨lock, hlock, rfl⟩) (lt_irrefl _)

/-- Entering the critical section keeps what is known of the lock objects. -/
lemma enter_ok {φ : Phase} (hok : m.Ok)
    (hnext : (m.lockMutex θ).map (fun m₁ => (φ, m₁)) = some (phase', m')) :
    Safe θ m m' ∧ InCritical θ m' ∧ m'.locks = m.locks ∧ phase' = φ := by
  obtain ⟨m₁, hlock, hstep⟩ := Option.map_eq_some_iff.mp hnext
  cases hstep
  obtain ⟨hsafe, hc, hlocks⟩ := Safe.lockMutex hok hlock
  exact ⟨hsafe, hc, hlocks, rfl⟩

/-- `_active_held_lock` and the test of the service name. -/
lemma acqFound_ok {call : AcquireCall} (hok : m.Ok) (hat : (Phase.acqFound call h).At θ m)
    (hnext : next θ m (.acqFound call h) = some (phase', m')) :
    Safe θ m m' ∧ phase'.At θ m' := by
  obtain ⟨hc, hheld⟩ := hat
  obtain ⟨lock, hlock, hpid⟩ := hok.entry_owned _ _ hheld
  simp only [next, hlock] at hnext
  cases hreleased : lock.released with
  | true =>
    rw [hreleased, if_pos rfl] at hnext
    cases hnext
    have hpop := registered_pop hc.2 hheld ⟨lock, hlock, hpid, hreleased⟩
    exact ⟨Safe.popHeld hok hc.1, hc.1, hpop⟩
  | false =>
    rw [hreleased, if_neg Bool.false_ne_true] at hnext
    by_cases hservice : lock.serviceName = call.serviceName
    · rw [if_pos hservice] at hnext
      cases hnext
      exact ⟨Safe.refl hok, hc, lock, hlock, hpid, hreleased⟩
    · rw [if_neg hservice] at hnext
      cases hnext
      exact ⟨Safe.refl hok, hc⟩

/-- `flock(LOCK_EX | LOCK_NB)`. -/
lemma acqFlock_ok {call : AcquireCall} (hok : m.Ok) (hat : Opened θ m h)
    (hnext : next θ m (.acqFlock call h) = some (phase', m')) :
    Safe θ m m' ∧ phase'.At θ m' := by
  cases hf : m.flock.tryLock h with
  | none =>
    simp only [next, hf] at hnext
    cases hnext
    exact ⟨Safe.refl hok, hat⟩
  | some f =>
    simp only [next, hf] at hnext
    cases hnext
    obtain ⟨-, hheld, howner, -⟩ := Flock.tryLock_eq_some hf
    refine ⟨Safe.tryLock hok hat hf, ⟨hat.1, ?_, hat.2.2⟩, hheld⟩
    show f.owner h = some θ.pid
    rw [howner]
    exact hat.2.1

/-- `AlpacaAccountLock(...)`. -/
lemma acqCreate_ok {call : AcquireCall} (hok : m.Ok) (halive : m.exited θ.pid = false)
    (hat : (Phase.acqCreate call h).At θ m)
    (hnext : next θ m (.acqCreate call h) = some (phase', m')) :
    Safe θ m m' ∧ phase'.At θ m' := by
  cases hnext
  obtain ⟨⟨hc, howner, hnone⟩, hheld⟩ := hat
  have hw : Writes θ m h ⟨call.serviceName, θ.pid, false⟩ :=
    { mutex := hc.1
      alive := halive
      pid := rfl
      live := fun _ => ⟨hheld, howner⟩
      before := Or.inr ⟨hnone, howner⟩
      released := fun hr => absurd rfl (ne_of_locks_none hnone hr.owned) }
  exact ⟨Safe.setLock hok hw, hc.1, _, locks_setLock.mpr (Or.inl ⟨rfl, rfl⟩), rfl, rfl⟩

/-- `if self.released: return`. -/
lemma relTest_ok (hok : m.Ok) (hc : InCritical θ m) (ho : m.Owned θ.pid h)
    (hnext : next θ m (.relTest h) = some (phase', m')) : Safe θ m m' ∧ phase'.At θ m' := by
  obtain ⟨lock, hlock, hpid⟩ := ho
  simp only [next, hlock] at hnext
  cases hreleased : lock.released with
  | true =>
    rw [hreleased, if_pos rfl] at hnext
    cases hnext
    exact ⟨Safe.refl hok, hc⟩
  | false =>
    rw [hreleased, if_neg Bool.false_ne_true] at hnext
    cases hnext
    exact ⟨Safe.refl hok, hc, lock, hlock, hpid, hreleased⟩

/-- `self.released = True`. -/
lemma relSet_ok (hok : m.Ok) (halive : m.exited θ.pid = false) (hc : InCritical θ m)
    (hlive : m.Live θ.pid h) (hnext : next θ m (.relSet h) = some (phase', m')) :
    Safe θ m m' ∧ phase'.At θ m' := by
  obtain ⟨lock, hlock, hpid, -⟩ := hlive
  simp only [next, hlock] at hnext
  cases hnext
  have hw : Writes θ m h { lock with released := true } :=
    { mutex := hc.1
      alive := halive
      pid := hpid
      live := fun hlive => absurd hlive (by simp)
      before := Or.inl ⟨lock, hlock, hpid⟩
      released := fun _ => rfl }
  exact ⟨Safe.setLock hok hw, ⟨hc.1, registered_release hc.2 rfl⟩, _,
    locks_setLock.mpr (Or.inl ⟨rfl, rfl⟩), hpid, rfl⟩

/-- Every step of a call establishes the assertion of the next phase. -/
theorem next_ok (hok : m.Ok) (halive : m.exited θ.pid = false) (hat : phase.At θ m)
    (hnext : next θ m phase = some (phase', m')) : Safe θ m m' ∧ phase'.At θ m' := by
  cases phase with
  | idle | finished => cases hnext
  | acqEnter call =>
    obtain ⟨hsafe, hc, -, rfl⟩ := enter_ok hok hnext
    exact ⟨hsafe, hc⟩
  | acqLook call =>
    cases hheld : m.heldLocks θ.pid with
    | none =>
      simp only [next, hheld] at hnext
      cases hnext
      exact ⟨Safe.refl hok, hat⟩
    | some h =>
      simp only [next, hheld] at hnext
      cases hnext
      exact ⟨Safe.refl hok, hat, hheld⟩
  | acqFound call h => exact acqFound_ok hok hat hnext
  | acqOpen call =>
    cases hnext
    exact ⟨Safe.openFile hok θ, hat, Flock.owner_openFile_self, locks_next hok⟩
  | acqFlock call h => exact acqFlock_ok hok hat hnext
  | acqRefused call h =>
    cases hnext
    exact ⟨Safe.refl hok, hat⟩
  | acqClose call h e =>
    cases hnext
    exact ⟨Safe.closeOpened hok hat, hat.1⟩
  | acqTruncate call h | acqWrite call h =>
    cases hnext
    exact ⟨Safe.content hok _, hat⟩
  | acqCreate call h => exact acqCreate_ok hok halive hat hnext
  | acqRegister call h =>
    cases hnext
    obtain ⟨hm, hlive⟩ := hat
    refine ⟨Safe.setHeld hok hm ?_, ⟨hm, registered_set hok hlive⟩, hlive⟩
    rintro _ ⟨⟩
    exact hlive.owned
  | acqLeave call result =>
    cases hnext
    have hc : InCritical θ m := by
      cases result with
      | error e => exact hat
      | ok h => exact hat.1
    exact ⟨Safe.unlockMutex hok hc, trivial⟩
  | relEnter h =>
    obtain ⟨hsafe, hc, hlocks, rfl⟩ := enter_ok hok hnext
    refine ⟨hsafe, hc, ?_⟩
    unfold Machine.Owned
    rw [hlocks]
    exact hat
  | relTest h => exact relTest_ok hok hat.1 hat.2 hnext
  | relSet h => exact relSet_ok hok halive hat.1 hat.2 hnext
  | relExit h =>
    cases hnext
    exact ⟨Safe.unlockMutex hok hat.1, hat.2⟩
  | relUnlock h =>
    cases hnext
    exact ⟨Safe.unlock hok hat, hat⟩
  | relClose h =>
    cases hnext
    exact ⟨Safe.closeReleased hok hat, hat⟩
  | relReenter h =>
    obtain ⟨hsafe, hc, hlocks, rfl⟩ := enter_ok hok hnext
    refine ⟨hsafe, hc, ?_⟩
    unfold Machine.Released
    rw [hlocks]
    exact hat
  | relGet h =>
    by_cases hheld : m.heldLocks θ.pid = some h
    · simp only [next, if_pos hheld] at hnext
      cases hnext
      exact ⟨Safe.refl hok, hat.1, hat.2, hheld⟩
    · simp only [next, if_neg hheld] at hnext
      cases hnext
      exact ⟨Safe.refl hok, hat.1⟩
  | relPop h =>
    cases hnext
    obtain ⟨hc, hreleased, hheld⟩ := hat
    exact ⟨Safe.popHeld hok hc.1, hc.1, registered_pop hc.2 hheld hreleased⟩
  | relLeave h =>
    cases hnext
    exact ⟨Safe.unlockMutex hok hat, trivial⟩

end Steps

/-! ## Process exits -/

section Exit

variable {m : Machine} {p : Pid}

/-- The lock objects that are left when a process exits. -/
lemma locks_exit {h : ℕ} {lock : AccountLock} :
    (m.exit p).locks h = some lock ↔ m.locks h = some lock ∧ lock.pid ≠ p := by
  simp [Machine.exit, Option.filter_eq_some_iff]

lemma exited_exit_of_ne {q : Pid} (hne : q ≠ p) : (m.exit p).exited q = m.exited q :=
  Function.update_of_ne hne _ _

lemma ne_of_exited_exit {q : Pid} (h : (m.exit p).exited q = false) : q ≠ p := by
  rintro rfl
  simp [Machine.exit] at h

/-- An exit keeps the invariant. -/
lemma exit_ok (hok : m.Ok) (p : Pid) : (m.exit p).Ok := by
  refine ⟨?_, ?_, ?_, ?_, ?_⟩
  · rintro q h ⟨lock, hlock, hpid, hlive⟩
    obtain ⟨hlock', hne⟩ := locks_exit.mp hlock
    obtain ⟨hheld, howner⟩ := hok.live_holds q h ⟨lock, hlock', hpid, hlive⟩
    have hq : q ≠ p := hpid ▸ hne
    exact ⟨Flock.holder_exit_of_ne hq howner hheld, Flock.owner_exit_of_ne hq howner⟩
  · rintro q h ⟨lock, hlock, hpid⟩
    exact hok.lock_lt q h ⟨lock, (locks_exit.mp hlock).1, hpid⟩
  · rintro q h ⟨lock, hlock, hpid⟩
    obtain ⟨hlock', hne⟩ := locks_exit.mp hlock
    rw [exited_exit_of_ne (hpid ▸ hne)]
    exact hok.lock_alive q h ⟨lock, hlock', hpid⟩
  · intro q h hheld
    have hq : q ≠ p := by
      rintro rfl
      simp [Machine.exit] at hheld
    simp only [Machine.exit, Function.update_of_ne hq] at hheld
    obtain ⟨lock, hlock, hpid⟩ := hok.entry_owned q h hheld
    exact ⟨lock, locks_exit.mpr ⟨hlock, hpid ▸ hq⟩, hpid⟩
  · rintro q hfree h ⟨lock, hlock, hpid, hlive⟩
    obtain ⟨hlock', hne⟩ := locks_exit.mp hlock
    have hq : q ≠ p := hpid ▸ hne
    simp only [Machine.exit, Function.update_of_ne hq] at hfree ⊢
    exact hok.registered q hfree h ⟨lock, hlock', hpid, hlive⟩

/-- An exit disturbs no thread of another process. -/
lemma exit_rely (θ : ThreadId) : Rely θ m (m.exit p) := by
  intro halive
  have hq : θ.pid ≠ p := ne_of_exited_exit halive
  rw [exited_exit_of_ne hq] at halive
  refine ⟨halive, ?_, ?_, ?_, ?_, ?_, ?_⟩
  · simp [Machine.exit, Function.update_of_ne hq]
  · simp [Machine.exit, Function.update_of_ne hq]
  · intro _ h lock hpid
    rw [locks_exit]
    exact and_iff_left (hpid ▸ hq)
  · rintro h ⟨lock, hlock, hpid⟩
    exact ⟨lock, locks_exit.mpr ⟨hlock, hpid ▸ hq⟩, hpid⟩
  · rintro h ⟨lock, hlock, hpid, hreleased⟩
    exact ⟨lock, locks_exit.mpr ⟨hlock, hpid ▸ hq⟩, hpid, hreleased⟩
  · intro _ h howner hnone
    refine ⟨Flock.owner_exit_of_ne hq howner, ?_, Flock.holder_exit_of_ne hq howner⟩
    simp [Machine.exit, hnone]

end Exit

/-! ## What a step changes -/

/-- What the next step of a call does to the machine. -/
inductive Effect (θ : ThreadId) (m : Machine) : Phase → Machine → Prop
  | same {phase : Phase} : Effect θ m phase m
  | lockMutex {phase : Phase} {m' : Machine} (hlock : m.lockMutex θ = some m') :
    Effect θ m phase m'
  | unlockMutex {phase : Phase} : Effect θ m phase (m.unlockMutex θ.pid)
  | dropEntry {call : AcquireCall} {h : ℕ} :
    Effect θ m (.acqFound call h) (m.setHeld θ.pid none)
  | setEntry {call : AcquireCall} {h : ℕ} :
    Effect θ m (.acqRegister call h) (m.setHeld θ.pid (some h))
  | popEntry {h : ℕ} : Effect θ m (.relPop h) (m.setHeld θ.pid none)
  | create {call : AcquireCall} {h : ℕ} (lock : AccountLock) :
    Effect θ m (.acqCreate call h) (m.setLock h lock)
  | markReleased {h : ℕ} (lock : AccountLock) : Effect θ m (.relSet h) (m.setLock h lock)
  | openFile {call : AcquireCall} :
    Effect θ m (.acqOpen call) { m with flock := m.flock.openFile θ.pid }
  | tryLock {call : AcquireCall} {h : ℕ} {f : Flock Pid} (hf : m.flock.tryLock h = some f) :
    Effect θ m (.acqFlock call h) { m with flock := f }
  | truncate {call : AcquireCall} {h : ℕ} :
    Effect θ m (.acqTruncate call h) { m with content := none }
  | write {call : AcquireCall} {h : ℕ} : Effect θ m (.acqWrite call h)
      { m with content := some ⟨call.serviceName, call.accountName, θ.pid⟩ }
  | unlock {h : ℕ} : Effect θ m (.relUnlock h) { m with flock := m.flock.unlock h }
  | closeRefused {call : AcquireCall} {h : ℕ} {e : LockError} :
    Effect θ m (.acqClose call h e) { m with flock := m.flock.close h }
  | close {h : ℕ} : Effect θ m (.relClose h) { m with flock := m.flock.close h }

section Effects

variable {θ : ThreadId} {m m' : Machine} {phase phase' : Phase}

/-- Every step of a call has one of these effects. -/
theorem next_effect (hnext : next θ m phase = some (phase', m')) : Effect θ m phase m' := by
  cases phase with
  | idle | finished => cases hnext
  | acqEnter call | relEnter h | relReenter h =>
    obtain ⟨m₁, hlock, hstep⟩ := Option.map_eq_some_iff.mp hnext
    cases hstep
    exact .lockMutex hlock
  | acqLook call | relTest h | relGet h =>
    simp only [next] at hnext
    repeat' split at hnext
    all_goals cases hnext
    all_goals exact .same
  | acqFound call h =>
    simp only [next] at hnext
    repeat' split at hnext
    all_goals cases hnext
    · exact .dropEntry
    · exact .same
    · exact .same
  | acqOpen call =>
    cases hnext
    exact .openFile
  | acqFlock call h =>
    simp only [next] at hnext
    split at hnext
    · cases hnext
      exact .same
    · next f hf =>
      cases hnext
      exact .tryLock hf
  | acqRefused call h =>
    cases hnext
    exact .same
  | acqClose call h e =>
    cases hnext
    exact .closeRefused
  | acqTruncate call h =>
    cases hnext
    exact .truncate
  | acqWrite call h =>
    cases hnext
    exact .write
  | acqCreate call h =>
    cases hnext
    exact .create _
  | acqRegister call h =>
    cases hnext
    exact .setEntry
  | acqLeave call result =>
    cases hnext
    exact .unlockMutex
  | relSet h =>
    simp only [next] at hnext
    split at hnext <;> cases hnext
    exact .markReleased _
  | relExit h | relLeave h =>
    cases hnext
    exact .unlockMutex
  | relUnlock h =>
    cases hnext
    exact .unlock
  | relClose h =>
    cases hnext
    exact .close
  | relPop h =>
    cases hnext
    exact .popEntry

/-- Entering the critical section touches nothing but the mutex. -/
lemma eq_of_lockMutex (h : m.lockMutex θ = some m') :
    m' = { m with mutex := Function.update m.mutex θ.pid (some θ) } := by
  unfold Machine.lockMutex at h
  split at h <;> cases h
  rfl

/-- How a step of a call changes the lock objects. -/
lemma next_locks (hnext : next θ m phase = some (phase', m')) :
    m'.locks = m.locks ∨ (∃ call h lock, phase = .acqCreate call h ∧ m' = m.setLock h lock) ∨
      ∃ h lock, phase = .relSet h ∧ m' = m.setLock h lock := by
  cases next_effect hnext with
  | create lock => exact Or.inr (Or.inl ⟨_, _, lock, rfl, rfl⟩)
  | markReleased lock => exact Or.inr (Or.inr ⟨_, lock, rfl, rfl⟩)
  | lockMutex hlock =>
    rw [eq_of_lockMutex hlock]
    exact Or.inl rfl
  | _ => exact Or.inl rfl

/-- A release writes the registry in one phase only. -/
lemma next_heldLocks {lock : ℕ} (hrel : phase.releasing = some lock)
    (hnext : next θ m phase = some (phase', m')) :
    m'.heldLocks = m.heldLocks ∨ phase = .relPop lock ∧ m' = m.setHeld θ.pid none := by
  cases next_effect hnext with
  | popEntry =>
    cases hrel
    exact Or.inr ⟨rfl, rfl⟩
  | dropEntry | setEntry => cases hrel
  | lockMutex hlock =>
    rw [eq_of_lockMutex hlock]
    exact Or.inl rfl
  | _ => exact Or.inl rfl

end Effects

/-! ## Safety -/

section Safety

variable {S : PyStr} {account : String}

/-- A step that is not inside a call does nothing but start one. -/
lemma act_cases {θ : ThreadId} {m m' : Machine} {phase phase' : Phase} {request : Request}
    (hact : act S account θ m phase request = some (phase', m')) :
    m.exited θ.pid = false ∧ (next θ m phase = some (phase', m') ∨
      m' = m ∧ ((∃ call, phase' = .acqEnter call) ∨
        ∃ h, phase' = .relEnter h ∧ m.Owned θ.pid h)) := by
  cases request with
  | run =>
    simp only [act] at hact
    split at hact
    · cases hact
    · next halive => exact ⟨by simpa using halive, Or.inl hact⟩
  | acquire call =>
    simp only [act] at hact
    split at hact
    · next hready =>
      cases hact
      exact ⟨hready.2.1, Or.inr ⟨rfl, Or.inl ⟨call, rfl⟩⟩⟩
    · cases hact
  | release h =>
    simp only [act] at hact
    split at hact
    · next hready =>
      cases hact
      obtain ⟨lock, hlock, hpid⟩ := (Option.any_eq_true _ _).mp hready.2.2
      exact ⟨hready.2.1, Or.inr ⟨rfl, Or.inr ⟨h, rfl, lock, hlock, by simpa using hpid⟩⟩⟩
    · cases hact

/-- What a thread can do keeps the invariant and establishes its next assertion. -/
lemma act_ok {θ : ThreadId} {m m' : Machine} {phase phase' : Phase} {request : Request}
    (hok : m.Ok) (hat : phase.Assertion θ m)
    (hact : act S account θ m phase request = some (phase', m')) :
    Safe θ m m' ∧ phase'.Assertion θ m' := by
  obtain ⟨halive, hnext | ⟨rfl, ⟨call, rfl⟩ | ⟨h, rfl, howned⟩⟩⟩ := act_cases hact
  · obtain ⟨hsafe, hat'⟩ := next_ok hok halive (hat halive) hnext
    exact ⟨hsafe, fun _ => hat'⟩
  · exact ⟨Safe.refl hok, fun _ => trivial⟩
  · exact ⟨Safe.refl hok, fun _ => howned⟩

/-- The proof outline of the account writer lock. -/
def outline (S : PyStr) (account : String) : (accountLock S account).Outline where
  inv := Machine.Ok
  assertion θ phase m := phase.Assertion θ m
  rely := Rely
  thread_ok := by
    rintro θ phase m phase' m' hok hat ⟨request, hact⟩
    obtain ⟨hsafe, hat'⟩ := act_ok hok hat hact
    refine ⟨hsafe.ok, hat', fun θ' hne halive => ⟨?_, hsafe.frame θ' hne⟩⟩
    rwa [hsafe.exited] at halive
  environment_ok := by
    rintro m m' hok ⟨p, rfl⟩
    exact ⟨exit_ok hok p, exit_rely⟩
  stable := by
    intro θ phase m m' hrely hat halive
    obtain ⟨halive', hframe⟩ := hrely halive
    exact hframe.at (hat halive')

/-- The outline holds when no thread is in a call. -/
lemma outline_start (content : Option LockPayload) :
    (outline S account).Holds (Config.start content) := by
  refine ⟨⟨?_, ?_, ?_, ?_, ?_⟩, fun _ _ => trivial⟩
  · rintro p h ⟨lock, hlock, -⟩
    cases hlock
  · rintro p h ⟨lock, hlock, -⟩
    cases hlock
  · rintro p h ⟨lock, hlock, -⟩
    cases hlock
  · intro p h hheld
    cases hheld
  · rintro p - h ⟨lock, hlock, -⟩
    cases hlock

/-- The outline holds in every reachable configuration. -/
lemma outline_reachable {content : Option LockPayload} {c : Config}
    (h : (accountLock S account).Reachable (Config.start content) c) :
    (outline S account).Holds c :=
  (outline S account).reachable (outline_start content) h

/-- When no thread of a process is inside its critical section, a live lock object of the process
is its registry entry, so that a further acquire by the same service finds it. -/
theorem live_registered {content : Option LockPayload} {c : Config}
    (h : (accountLock S account).Reachable (Config.start content) c) {p : Pid} {lock : ℕ}
    (hfree : c.shared.mutex p = none) (hlive : c.shared.Live p lock) :
    c.shared.heldLocks p = some lock :=
  (outline_reachable h).1.registered p hfree lock hlive

/-- A call of `acquire_alpaca_account_lock` is over when it leaves its critical section. -/
lemma next_finished {θ : ThreadId} {m m' : Machine} {phase : Phase} {call : AcquireCall}
    {outcome : Outcome} (hnext : next θ m phase = some (.finished call outcome, m')) :
    ∃ result, phase = .acqLeave call result ∧ outcome = call.outcome result ∧
      m' = m.unlockMutex θ.pid := by
  cases phase with
  | acqLeave call' result =>
    cases hnext
    exact ⟨result, rfl, rfl, rfl⟩
  | acqEnter | relEnter | relReenter =>
    obtain ⟨m₁, -, hstep⟩ := Option.map_eq_some_iff.mp hnext
    cases hstep
  | acqLook | acqFound | acqFlock | relTest | relSet | relGet =>
    simp only [next] at hnext
    repeat' split at hnext
    all_goals cases hnext
  | idle | finished | acqOpen | acqRefused | acqClose | acqTruncate | acqWrite | acqCreate
  | acqRegister | relExit | relUnlock | relClose | relPop | relLeave => cases hnext

lemma live_setLock_of_ne {m : Machine} {p : Pid} {h h' : ℕ} {lock : AccountLock} (hne : h' ≠ h)
    (hlive : m.Live p h') : (m.setLock h lock).Live p h' := by
  obtain ⟨lock', hlock', hpid, hlive'⟩ := hlive
  exact ⟨lock', locks_setLock.mpr (Or.inr ⟨hne, hlock'⟩), hpid, hlive'⟩

/-- A live lock object stays live until a release marks it or its process exits. -/
lemma live_step {c c' : Config} (h : (outline S account).Holds c)
    (hstep : (accountLock S account).Step c c') {p : Pid} {lock : ℕ}
    (hlive : c.shared.Live p lock) :
    c'.shared.Live p lock ∨ (∃ θ, θ.pid = p ∧ c.localOf θ = .relSet lock) ∨
      c'.shared.exited p = true := by
  obtain ⟨hok, hassert⟩ := h
  cases hstep with
  | thread θ hthread =>
    obtain ⟨request, hact⟩ := hthread
    have hat := hassert θ
    obtain ⟨halive, hnext | ⟨rfl, -⟩⟩ := act_cases hact
    swap
    · exact Or.inl hlive
    rcases next_locks hnext with
      hlocks | ⟨call, h', l', hphase, rfl⟩ | ⟨h', l', hphase, rfl⟩
    · left
      unfold Machine.Live
      rw [hlocks]
      exact hlive
    · -- the new lock object has a number that no lock object has
      rw [hphase] at hat
      have hnone := (hat halive).1.2.2
      exact Or.inl (live_setLock_of_ne (ne_of_locks_none hnone hlive.owned) hlive)
    · by_cases hh : lock = h'
      · rw [hphase] at hat
        obtain ⟨l, hl, hpid, -⟩ := hlive
        obtain ⟨l₁, hl₁, hpid₁, -⟩ := (hat halive).2
        rw [← hh, hl] at hl₁
        cases hl₁
        exact Or.inr (Or.inl ⟨θ, hpid₁.symm.trans hpid, hh ▸ hphase⟩)
      · exact Or.inl (live_setLock_of_ne hh hlive)
  | environment henv =>
    obtain ⟨q, rfl⟩ := henv
    by_cases hpq : p = q
    · exact Or.inr (Or.inr (by simp [Machine.exit, hpq]))
    · obtain ⟨l, hl, hpid, hr⟩ := hlive
      exact Or.inl ⟨l, locks_exit.mpr ⟨hl, hpid ▸ hpq⟩, hpid, hr⟩

/-- A call of `acquire_alpaca_account_lock` ends with a live lock object or an error. -/
lemma finished_step {c : Config} (h : (outline S account).Holds c) {θ : ThreadId}
    {call : AcquireCall} {outcome : Outcome} {m' : Machine}
    (hstep : (accountLock S account).thread θ (c.localOf θ) c.shared (.finished call outcome) m') :
    (∃ lock, outcome = .lock lock ∧ m'.Live θ.pid lock ∧ m'.flock.holder = some lock) ∨
      (call.enforce = false ∧ ∃ e, outcome = .runtimeError e) ∨
      (call.enforce = true ∧ outcome = .systemExit 42) := by
  obtain ⟨hok, hassert⟩ := h
  obtain ⟨request, hact⟩ := hstep
  obtain ⟨halive, hnext | ⟨-, ⟨_, hphase⟩ | ⟨_, hphase, -⟩⟩⟩ := act_cases hact
  · obtain ⟨result, hphase, rfl, rfl⟩ := next_finished hnext
    have hat := hassert θ halive
    rw [hphase] at hat
    cases result with
    | ok lock =>
      -- inside the critical section the object that is returned is live
      have hlive : c.shared.Live θ.pid lock := hat.2
      exact Or.inl ⟨lock, rfl, hlive, (hok.live_holds _ _ hlive).1⟩
    | error e =>
      cases henforce : call.enforce with
      | false => exact Or.inr (Or.inl ⟨rfl, e, by simp [AcquireCall.outcome, henforce]⟩)
      | true => exact Or.inr (Or.inr ⟨rfl, by simp [AcquireCall.outcome, henforce]⟩)
  · cases hphase
  · cases hphase

/-- A release removes no registry entry of another lock object. -/
lemma release_step {c : Config} (h : (outline S account).Holds c) {θ : ThreadId} {lock lock' : ℕ}
    {phase' : Phase} {m' : Machine} (hrel : (c.localOf θ).releasing = some lock)
    (hstep : (accountLock S account).thread θ (c.localOf θ) c.shared phase' m') {p : Pid}
    (hne : lock' ≠ lock) (hheld : c.shared.heldLocks p = some lock') :
    m'.heldLocks p = some lock' := by
  obtain ⟨-, hassert⟩ := h
  obtain ⟨request, hact⟩ := hstep
  obtain ⟨halive, hnext | ⟨rfl, -⟩⟩ := act_cases hact
  · rcases next_heldLocks hrel hnext with hsame | ⟨hphase, rfl⟩
    · rw [hsame]
      exact hheld
    · -- the entry that is popped is the object itself
      have hat := hassert θ halive
      rw [hphase] at hat
      have hself : c.shared.heldLocks θ.pid = some lock := hat.2.2
      have hp : p ≠ θ.pid := by
        rintro rfl
        rw [hself] at hheld
        exact hne (Option.some.inj hheld).symm
      show Function.update c.shared.heldLocks θ.pid none p = some lock'
      rw [Function.update_of_ne hp]
      exact hheld
  · exact hheld

/-- **At most one live writer.** In every configuration that any interleaving reaches, at most
one lock object over all processes is not released, and it holds the kernel lock. A call of
`acquire_alpaca_account_lock` ends with such an object or with a `RuntimeError`, which
`enforce_live_singleton` turns into `SystemExit(42)`; the object stays live until a release marks
it or its process exits; and a release removes no registry entry but its own. -/
theorem oneLiveWriter {content : Option LockPayload} {c : Config}
    (h : (accountLock S account).Reachable (Config.start content) c) :
    (∀ p lock p' lock', c.shared.Live p lock → c.shared.Live p' lock' → p = p' ∧ lock = lock') ∧
    (∀ p lock, c.shared.Live p lock →
      c.shared.flock.holder = some lock ∧ c.shared.flock.owner lock = some p) ∧
    (∀ θ call outcome m',
      (accountLock S account).thread θ (c.localOf θ) c.shared (.finished call outcome) m' →
      (∃ lock, outcome = .lock lock ∧ m'.Live θ.pid lock ∧ m'.flock.holder = some lock) ∨
        (call.enforce = false ∧ ∃ e, outcome = .runtimeError e) ∨
        (call.enforce = true ∧ outcome = .systemExit 42)) ∧
    (∀ c', (accountLock S account).Step c c' → ∀ p lock, c.shared.Live p lock →
      c'.shared.Live p lock ∨ (∃ θ, θ.pid = p ∧ c.localOf θ = .relSet lock) ∨
        c'.shared.exited p = true) ∧
    (∀ θ lock phase' m', (c.localOf θ).releasing = some lock →
      (accountLock S account).thread θ (c.localOf θ) c.shared phase' m' →
      ∀ p lock', lock' ≠ lock → c.shared.heldLocks p = some lock' →
        m'.heldLocks p = some lock') := by
  have hholds := outline_reachable h
  have hbacked := hholds.1.live_holds
  refine ⟨?_, hbacked, fun θ call outcome m' => finished_step hholds,
    fun c' hstep p lock => live_step hholds hstep,
    fun θ lock phase' m' hrel hstep p lock' => release_step hholds hrel hstep⟩
  intro p lock p' lock' hlive hlive'
  obtain ⟨hheld, howner⟩ := hbacked p lock hlive
  obtain ⟨hheld', howner'⟩ := hbacked p' lock' hlive'
  rw [hheld] at hheld'
  cases hheld'
  rw [howner] at howner'
  exact ⟨Option.some.inj howner', rfl⟩

/-- One request to a thread. -/
def perform (S : PyStr) (account : String) (c : Config) (r : ThreadId × Request) :
    Option Config :=
  (act S account r.1 c.shared (c.localOf r.1) r.2).map fun result =>
    ⟨result.2, Function.update c.localOf r.1 result.1⟩

/-- Requests to threads, one after the other. -/
def performAll (S : PyStr) (account : String) (c : Config) (requests : List (ThreadId × Request)) :
    Option Config :=
  requests.foldlM (perform S account) c

/-- What a sequence of requests leads to is reachable. -/
lemma reachable_of_performAll {requests : List (ThreadId × Request)} {c c' : Config}
    (h : performAll S account c requests = some c') : (accountLock S account).Reachable c c' := by
  induction requests generalizing c with
  | nil =>
    cases h
    exact Relation.ReflTransGen.refl
  | cons r rest ih =>
    obtain ⟨c₁, hfirst, hrest⟩ := Option.bind_eq_some_iff.mp h
    obtain ⟨⟨phase', m'⟩, hact, rfl⟩ := Option.map_eq_some_iff.mp hfirst
    exact Relation.ReflTransGen.head (.thread r.1 ⟨r.2, hact⟩) (ih hrest)

/-- A process acquires the lock, and another one that starts live is turned away. -/
def twoProcesses : List (ThreadId × Request) :=
  (⟨1, 0⟩, .acquire ⟨"svc_a", "live_writer", false⟩) :: List.replicate 9 (⟨1, 0⟩, .run) ++
    (⟨2, 0⟩, .acquire ⟨"svc_b", " Live Writer", true⟩) :: List.replicate 7 (⟨2, 0⟩, .run)

/-- The only lock object that is not released is that of the first process. -/
theorem oneLiveWriter_two_processes :
    ∃ c, performAll .ascii "live_writer" (Config.start none) twoProcesses = some c ∧
      c.localOf ⟨1, 0⟩ = .finished ⟨"svc_a", "live_writer", false⟩ (.lock 0) ∧
      c.localOf ⟨2, 0⟩ = .finished ⟨"svc_b", " Live Writer", true⟩ (.systemExit 42) ∧
      ∀ p lock, c.shared.Live p lock → p = 1 ∧ lock = 0 := by
  have hsome :
      (performAll .ascii "live_writer" (Config.start none) twoProcesses).isSome = true := by
    decide
  have hc := (Option.some_get hsome).symm
  refine ⟨_, hc, rfl, rfl, fun p lock hlive => ?_⟩
  exact (oneLiveWriter (reachable_of_performAll hc)).1 p lock 1 0 hlive ⟨_, rfl, rfl, rfl⟩

end Safety

end KeelTrader.Core.LiveWriter
