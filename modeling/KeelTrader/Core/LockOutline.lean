import KeelTrader.Core.AccountLock
import Mathlib.Tactic

set_option relaxedAutoImplicit false
set_option autoImplicit false

/-!
# What the threads of the account lock know

The assertions of a proof outline for the account writer lock, and the updates of the machine
that respect them. Inside the critical section a thread knows what is in the registry of its
process; outside it knows at most that a lock object exists and that a released one stays
released.

## Main definitions

* `KeelTrader.Core.LiveWriter.Machine.Ok` — the invariant: a lock object that is not released
  holds the kernel lock, and is in the registry unless a thread is inside the critical section.
* `KeelTrader.Core.LiveWriter.Phase.At` — what a thread knows at each phase.
* `KeelTrader.Core.LiveWriter.Frame`, `Rely` — what a thread relies on.
* `KeelTrader.Core.LiveWriter.Safe` — an update that keeps the invariant and disturbs no other
  thread.

## Main results

* `KeelTrader.Core.LiveWriter.Frame.at` — the assertions are stable.
* `KeelTrader.Core.LiveWriter.Safe.lockMutex`, `Safe.unlockMutex`, `Safe.setHeld`, `Safe.flock`,
  `Safe.setLock` — the updates of a thread inside its critical section are safe.
-/

namespace KeelTrader.Core.LiveWriter

/-! ## Assertions -/

namespace Machine

/-- The lock object `h` of process `p` has not been released. -/
def Live (m : Machine) (p : Pid) (h : ℕ) : Prop :=
  ∃ lock, m.locks h = some lock ∧ lock.pid = p ∧ lock.released = false

/-- The lock object `h` of process `p` has been released. -/
def Released (m : Machine) (p : Pid) (h : ℕ) : Prop :=
  ∃ lock, m.locks h = some lock ∧ lock.pid = p ∧ lock.released = true

/-- `h` is a lock object of process `p`. -/
def Owned (m : Machine) (p : Pid) (h : ℕ) : Prop :=
  ∃ lock, m.locks h = some lock ∧ lock.pid = p

/-- A lock object of `p` that is not released is the entry of the registry of `p`. -/
def Registered (m : Machine) (p : Pid) : Prop :=
  ∀ h, m.Live p h → m.heldLocks p = some h

/-- The invariant of the machine. -/
structure Ok (m : Machine) : Prop where
  /-- A lock object that is not released holds the kernel lock. -/
  live_holds : ∀ p h, m.Live p h → m.flock.holder = some h ∧ m.flock.owner h = some p
  /-- A lock object has the number of a description that was opened. -/
  lock_lt : ∀ p h, m.Owned p h → h < m.flock.next
  /-- The memory of a process that has exited is gone. -/
  lock_alive : ∀ p h, m.Owned p h → m.exited p = false
  /-- A registry entry is a lock object of the process. -/
  entry_owned : ∀ p h, m.heldLocks p = some h → m.Owned p h
  /-- The registry is up to date whenever nobody is in the critical section. -/
  registered : ∀ p, m.mutex p = none → m.Registered p

end Machine

/-- Inside the critical section, with an up-to-date registry. -/
def InCritical (θ : ThreadId) (m : Machine) : Prop :=
  m.mutex θ.pid = some θ ∧ m.Registered θ.pid

/-- Inside the critical section, with a description of its own that no lock object wraps. -/
def Opened (θ : ThreadId) (m : Machine) (h : ℕ) : Prop :=
  InCritical θ m ∧ m.flock.owner h = some θ.pid ∧ m.locks h = none

/-- What thread `θ` knows of the machine at each phase. -/
def Phase.At (θ : ThreadId) (m : Machine) : Phase → Prop
  | .idle | .finished _ _ | .acqEnter _ => True
  | .acqLook _ | .acqOpen _ | .acqLeave _ (.error _) | .relLeave _ => InCritical θ m
  | .acqFound _ h => InCritical θ m ∧ m.heldLocks θ.pid = some h
  | .acqFlock _ h | .acqRefused _ h | .acqClose _ h _ => Opened θ m h
  | .acqTruncate _ h | .acqWrite _ h | .acqCreate _ h => Opened θ m h ∧ m.flock.holder = some h
  | .acqRegister _ h => m.mutex θ.pid = some θ ∧ m.Live θ.pid h
  | .acqLeave _ (.ok h) | .relSet h => InCritical θ m ∧ m.Live θ.pid h
  | .relEnter h => m.Owned θ.pid h
  | .relTest h => InCritical θ m ∧ m.Owned θ.pid h
  | .relUnlock h | .relClose h | .relReenter h => m.Released θ.pid h
  | .relExit h | .relGet h => InCritical θ m ∧ m.Released θ.pid h
  | .relPop h => InCritical θ m ∧ m.Released θ.pid h ∧ m.heldLocks θ.pid = some h

/-- What thread `θ` relies on while its process lives: inside the critical section nobody
else touches the registry, the lock objects or the descriptions of its process, and its released
lock objects stay released. -/
structure Frame (θ : ThreadId) (m m' : Machine) : Prop where
  mutex : m.mutex θ.pid = some θ → m'.mutex θ.pid = some θ
  held : m.mutex θ.pid = some θ → m'.heldLocks θ.pid = m.heldLocks θ.pid
  locks : m.mutex θ.pid = some θ → ∀ h lock, lock.pid = θ.pid →
    (m'.locks h = some lock ↔ m.locks h = some lock)
  owned : ∀ h, m.Owned θ.pid h → m'.Owned θ.pid h
  released : ∀ h, m.Released θ.pid h → m'.Released θ.pid h
  opened : m.mutex θ.pid = some θ → ∀ h, m.flock.owner h = some θ.pid → m.locks h = none →
    m'.flock.owner h = some θ.pid ∧ m'.locks h = none ∧
      (m.flock.holder = some h → m'.flock.holder = some h)

/-- What thread `θ` relies on. -/
def Rely (θ : ThreadId) (m m' : Machine) : Prop :=
  m'.exited θ.pid = false → m.exited θ.pid = false ∧ Frame θ m m'

/-- The assertion of a phase; the threads of an exited process know nothing. -/
def Phase.Assertion (θ : ThreadId) (phase : Phase) (m : Machine) : Prop :=
  m.exited θ.pid = false → phase.At θ m

/-! ## Stability -/

section Stability

variable {θ : ThreadId} {m m' : Machine} {h : ℕ}

lemma Frame.refl (θ : ThreadId) (m : Machine) : Frame θ m m where
  mutex hm := hm
  held _ := rfl
  locks _ _ _ _ := Iff.rfl
  owned _ ho := ho
  released _ hr := hr
  opened _ _ ho hl := ⟨ho, hl, id⟩

lemma Frame.live (hF : Frame θ m m') (hm : m.mutex θ.pid = some θ) (h : ℕ) :
    m'.Live θ.pid h ↔ m.Live θ.pid h := by
  constructor
  · rintro ⟨lock, hlock, hpid, hlive⟩
    exact ⟨lock, (hF.locks hm h lock hpid).mp hlock, hpid, hlive⟩
  · rintro ⟨lock, hlock, hpid, hlive⟩
    exact ⟨lock, (hF.locks hm h lock hpid).mpr hlock, hpid, hlive⟩

lemma Frame.inCritical (hF : Frame θ m m') (hc : InCritical θ m) : InCritical θ m' := by
  obtain ⟨hm, hreg⟩ := hc
  refine ⟨hF.mutex hm, fun h hlive => ?_⟩
  rw [hF.held hm]
  exact hreg h ((hF.live hm h).mp hlive)

lemma Frame.toOpened (hF : Frame θ m m') (ho : Opened θ m h) : Opened θ m' h := by
  obtain ⟨hc, howner, hlock⟩ := ho
  obtain ⟨howner', hlock', -⟩ := hF.opened hc.1 h howner hlock
  exact ⟨hF.inCritical hc, howner', hlock'⟩

lemma Frame.holder (hF : Frame θ m m') (ho : Opened θ m h) (hheld : m.flock.holder = some h) :
    m'.flock.holder = some h :=
  (hF.opened ho.1.1 h ho.2.1 ho.2.2).2.2 hheld

/-- Every assertion is stable. -/
lemma Frame.at (hF : Frame θ m m') {phase : Phase} (hat : phase.At θ m) : phase.At θ m' := by
  cases phase with
  | idle | finished | acqEnter => trivial
  | acqLook | acqOpen | relLeave => exact hF.inCritical hat
  | acqFound call h => exact ⟨hF.inCritical hat.1, (hF.held hat.1.1).trans hat.2⟩
  | acqFlock call h | acqRefused call h | acqClose call h e => exact hF.toOpened hat
  | acqTruncate call h | acqWrite call h | acqCreate call h =>
    exact ⟨hF.toOpened hat.1, hF.holder hat.1 hat.2⟩
  | acqRegister call h => exact ⟨hF.mutex hat.1, (hF.live hat.1 h).mpr hat.2⟩
  | acqLeave call result =>
    cases result with
    | error e => exact hF.inCritical hat
    | ok h => exact ⟨hF.inCritical hat.1, (hF.live hat.1.1 h).mpr hat.2⟩
  | relSet h => exact ⟨hF.inCritical hat.1, (hF.live hat.1.1 h).mpr hat.2⟩
  | relEnter h => exact hF.owned h hat
  | relTest h => exact ⟨hF.inCritical hat.1, hF.owned h hat.2⟩
  | relUnlock h | relClose h | relReenter h => exact hF.released h hat
  | relExit h | relGet h => exact ⟨hF.inCritical hat.1, hF.released h hat.2⟩
  | relPop h =>
    exact ⟨hF.inCritical hat.1, hF.released h hat.2.1, (hF.held hat.1.1).trans hat.2.2⟩

end Stability

/-! ## What the updates preserve -/

/-- An update by thread `θ` that keeps the invariant and disturbs no other thread. -/
structure Safe (θ : ThreadId) (m m' : Machine) : Prop where
  ok : m'.Ok
  frame : ∀ θ', θ' ≠ θ → Frame θ' m m'
  exited : m'.exited = m.exited

section Updates

variable {θ θ' : ThreadId} {m m' : Machine} {h : ℕ} {f : Flock Pid}

/-- Two threads inside their critical sections are in different processes. -/
lemma pid_ne_of_mutex (hm : m.mutex θ.pid = some θ) (hne : θ' ≠ θ)
    (hm' : m.mutex θ'.pid = some θ') : θ'.pid ≠ θ.pid := by
  intro hpid
  rw [hpid, hm] at hm'
  exact hne (Option.some.inj hm').symm

lemma Safe.refl (hok : m.Ok) : Safe θ m m := ⟨hok, fun θ' _ => Frame.refl θ' m, rfl⟩

lemma Safe.content (hok : m.Ok) (content : Option LockPayload) :
    Safe θ m { m with content := content } where
  ok := ⟨hok.live_holds, hok.lock_lt, hok.lock_alive, hok.entry_owned, hok.registered⟩
  frame _ _ := ⟨id, fun _ => rfl, fun _ _ _ _ => Iff.rfl, fun _ => id, fun _ => id,
    fun _ _ ho hl => ⟨ho, hl, id⟩⟩
  exited := rfl

/-- Entering the critical section. -/
lemma Safe.lockMutex (hok : m.Ok) (hlock : m.lockMutex θ = some m') :
    Safe θ m m' ∧ InCritical θ m' ∧ m'.locks = m.locks := by
  unfold Machine.lockMutex at hlock
  split at hlock
  · next hfree =>
    cases hlock
    refine ⟨⟨⟨hok.live_holds, hok.lock_lt, hok.lock_alive, hok.entry_owned, ?_⟩, ?_, rfl⟩,
      ⟨?_, ?_⟩, rfl⟩
    · intro p hp
      by_cases hpid : p = θ.pid
      · subst hpid
        simp at hp
      · simp only [Function.update_of_ne hpid] at hp
        exact hok.registered p hp
    · intro θ' hne
      refine ⟨fun hm' => ?_, fun _ => rfl, fun _ _ _ _ => Iff.rfl, fun _ => id, fun _ => id,
        fun _ _ ho hl => ⟨ho, hl, id⟩⟩
      -- nobody is inside, so the other thread is in another process
      have hpid : θ'.pid ≠ θ.pid := by
        intro hpid
        rw [hpid, hfree] at hm'
        cases hm'
      simpa [Function.update_of_ne hpid] using hm'
    · simp
    · exact hok.registered θ.pid hfree
  · cases hlock

/-- Leaving the critical section. -/
lemma Safe.unlockMutex (hok : m.Ok) (hc : InCritical θ m) :
    Safe θ m (m.unlockMutex θ.pid) := by
  refine ⟨⟨hok.live_holds, hok.lock_lt, hok.lock_alive, hok.entry_owned, ?_⟩, ?_, rfl⟩
  · intro p hp
    by_cases hpid : p = θ.pid
    · subst hpid
      exact hc.2
    · simp only [Machine.unlockMutex, Function.update_of_ne hpid] at hp
      exact hok.registered p hp
  · intro θ' hne
    refine ⟨fun hm' => ?_, fun _ => rfl, fun _ _ _ _ => Iff.rfl, fun _ => id, fun _ => id,
      fun _ _ ho hl => ⟨ho, hl, id⟩⟩
    simpa [Machine.unlockMutex, Function.update_of_ne (pid_ne_of_mutex hc.1 hne hm')] using hm'

/-- Writing the registry inside the critical section. -/
lemma Safe.setHeld (hok : m.Ok) (hm : m.mutex θ.pid = some θ) {entry : Option ℕ}
    (hentry : ∀ h, entry = some h → m.Owned θ.pid h) : Safe θ m (m.setHeld θ.pid entry) := by
  refine ⟨⟨hok.live_holds, hok.lock_lt, hok.lock_alive, ?_, ?_⟩, ?_, rfl⟩
  · intro p h hheld
    by_cases hpid : p = θ.pid
    · subst hpid
      simp only [Machine.setHeld, Function.update_self] at hheld
      exact hentry h hheld
    · simp only [Machine.setHeld, Function.update_of_ne hpid] at hheld
      exact hok.entry_owned p h hheld
  · intro p hp h hlive
    have hp' : m.mutex p = none := hp
    have hpid : p ≠ θ.pid := by
      rintro rfl
      rw [hm] at hp'
      cases hp'
    simpa [Machine.setHeld, Function.update_of_ne hpid] using hok.registered p hp' h hlive
  · intro θ' hne
    refine ⟨id, fun hm' => ?_, fun _ _ _ _ => Iff.rfl, fun _ => id, fun _ => id,
      fun _ _ ho hl => ⟨ho, hl, id⟩⟩
    simp [Machine.setHeld, Function.update_of_ne (pid_ne_of_mutex hm hne hm')]

/-- Popping the registry entry inside the critical section. -/
lemma Safe.popHeld (hok : m.Ok) (hm : m.mutex θ.pid = some θ) :
    Safe θ m (m.setHeld θ.pid none) := by
  refine Safe.setHeld hok hm fun h hentry => ?_
  cases hentry

/-- An operation of the kernel that keeps the lock of every live lock object and the descriptions
that the other threads are opening. -/
lemma Safe.flock (hok : m.Ok)
    (hlive : ∀ p h, m.Live p h → f.holder = some h ∧ f.owner h = some p)
    (hnext : m.flock.next ≤ f.next)
    (hopened : ∀ θ', θ' ≠ θ → m.mutex θ'.pid = some θ' → ∀ h, m.flock.owner h = some θ'.pid →
      m.locks h = none → f.owner h = some θ'.pid ∧
        (m.flock.holder = some h → f.holder = some h)) :
    Safe θ m { m with flock := f } where
  ok := ⟨hlive, fun p h ho => lt_of_lt_of_le (hok.lock_lt p h ho) hnext, hok.lock_alive,
    hok.entry_owned, hok.registered⟩
  frame θ' hne := ⟨id, fun _ => rfl, fun _ _ _ _ => Iff.rfl, fun _ => id, fun _ => id,
    fun hm' h ho hl => ⟨(hopened θ' hne hm' h ho hl).1, hl, (hopened θ' hne hm' h ho hl).2⟩⟩
  exited := rfl

/-- A lock object exists, so it is not a description without one. -/
lemma ne_of_locks_none {p : Pid} {h h' : ℕ} (hl : m.locks h = none) (ho : m.Owned p h') :
    h' ≠ h := by
  rintro rfl
  obtain ⟨lock, hlock, -⟩ := ho
  rw [hl] at hlock
  cases hlock

lemma Machine.Live.owned {p : Pid} (hl : m.Live p h) : m.Owned p h := by
  obtain ⟨lock, hlock, hpid, -⟩ := hl
  exact ⟨lock, hlock, hpid⟩

lemma Machine.Released.owned {p : Pid} (hr : m.Released p h) : m.Owned p h := by
  obtain ⟨lock, hlock, hpid, -⟩ := hr
  exact ⟨lock, hlock, hpid⟩

/-- A released lock object is not live. -/
lemma Machine.Released.ne_of_live {p q : Pid} {h' : ℕ} (hr : m.Released p h)
    (hl : m.Live q h') : h' ≠ h := by
  rintro rfl
  obtain ⟨lock, hlock, -, hreleased⟩ := hr
  obtain ⟨lock', hlock', -, hlive⟩ := hl
  rw [hlock] at hlock'
  cases hlock'
  rw [hreleased] at hlive
  cases hlive

/-- Opening the lock file. -/
lemma Safe.openFile (hok : m.Ok) (θ : ThreadId) :
    Safe θ m { m with flock := m.flock.openFile θ.pid } := by
  refine Safe.flock hok (fun p h hlive => ?_) (Nat.le_succ _) fun θ' _ _ h ho _ => ?_
  · obtain ⟨hheld, howner⟩ := hok.live_holds p h hlive
    exact ⟨hheld, Flock.owner_openFile_of_some howner⟩
  · exact ⟨Flock.owner_openFile_of_some ho, id⟩

/-- Taking the kernel lock. -/
lemma Safe.tryLock (hok : m.Ok) (ho : Opened θ m h) (hf : m.flock.tryLock h = some f) :
    Safe θ m { m with flock := f } := by
  obtain ⟨-, hheld', howner', hnext'⟩ := Flock.tryLock_eq_some hf
  refine Safe.flock hok (fun p h' hlive => ?_) (le_of_eq hnext'.symm) fun θ' _ _ h' ho' _ => ?_
  · -- a live lock object holds the kernel lock already
    obtain ⟨hheld, -⟩ := hok.live_holds p h' hlive
    exact absurd (Flock.eq_of_tryLock hf hheld) (ne_of_locks_none ho.2.2 hlive.owned)
  · rw [howner']
    refine ⟨ho', fun hheld => ?_⟩
    rw [hheld', Flock.eq_of_tryLock hf hheld]

/-- Closing a description that was refused. -/
lemma Safe.closeOpened (hok : m.Ok) (ho : Opened θ m h) :
    Safe θ m { m with flock := m.flock.close h } := by
  refine Safe.flock hok (fun p h' hlive => ?_) le_rfl fun θ' hne hm' h' ho' _ => ?_
  · obtain ⟨hheld, howner⟩ := hok.live_holds p h' hlive
    have hh : h' ≠ h := ne_of_locks_none ho.2.2 hlive.owned
    exact ⟨Flock.holder_close_of_ne hh hheld, (Flock.owner_close_of_ne hh).trans howner⟩
  · have hh : h' ≠ h := by
      rintro rfl
      rw [ho.2.1] at ho'
      exact pid_ne_of_mutex ho.1.1 hne hm' (Option.some.inj ho').symm
    exact ⟨(Flock.owner_close_of_ne hh).trans ho', Flock.holder_close_of_ne hh⟩

/-- Closing the description of a released lock object. -/
lemma Safe.closeReleased (hok : m.Ok) (hr : m.Released θ.pid h) :
    Safe θ m { m with flock := m.flock.close h } := by
  refine Safe.flock hok (fun p h' hlive => ?_) le_rfl fun θ' _ _ h' ho' hl' => ?_
  · obtain ⟨hheld, howner⟩ := hok.live_holds p h' hlive
    have hh : h' ≠ h := hr.ne_of_live hlive
    exact ⟨Flock.holder_close_of_ne hh hheld, (Flock.owner_close_of_ne hh).trans howner⟩
  · have hh : h' ≠ h := (ne_of_locks_none hl' hr.owned).symm
    exact ⟨(Flock.owner_close_of_ne hh).trans ho', Flock.holder_close_of_ne hh⟩

/-- Unlocking the description of a released lock object. -/
lemma Safe.unlock (hok : m.Ok) (hr : m.Released θ.pid h) :
    Safe θ m { m with flock := m.flock.unlock h } := by
  refine Safe.flock hok (fun p h' hlive => ?_) le_rfl fun θ' _ _ h' ho' hl' => ?_
  · obtain ⟨hheld, howner⟩ := hok.live_holds p h' hlive
    exact ⟨Flock.holder_unlock_of_ne (hr.ne_of_live hlive) hheld, howner⟩
  · exact ⟨ho', Flock.holder_unlock_of_ne (ne_of_locks_none hl' hr.owned).symm⟩

/-- The lock objects after one is written. -/
lemma locks_setLock {lock lock' : AccountLock} {h' : ℕ} :
    (m.setLock h lock).locks h' = some lock' ↔
      h' = h ∧ lock' = lock ∨ h' ≠ h ∧ m.locks h' = some lock' := by
  simp only [Machine.setLock, Function.update_apply]
  by_cases hh : h' = h
  · simp [hh, eq_comm]
  · simp [hh]

/-- What a thread may write as lock object `h` inside its critical section: an object of its own
process that is new, or no less released than before. -/
structure Writes (θ : ThreadId) (m : Machine) (h : ℕ) (lock : AccountLock) : Prop where
  mutex : m.mutex θ.pid = some θ
  alive : m.exited θ.pid = false
  pid : lock.pid = θ.pid
  live : lock.released = false → m.flock.holder = some h ∧ m.flock.owner h = some θ.pid
  before : m.Owned θ.pid h ∨ m.locks h = none ∧ m.flock.owner h = some θ.pid
  released : m.Released θ.pid h → lock.released = true

namespace Writes

variable {lock : AccountLock} (hw : Writes θ m h lock)

include hw

/-- The object that is overwritten belongs to the same process. -/
lemma pid_before {lock' : AccountLock} (hlock' : m.locks h = some lock') :
    lock'.pid = θ.pid := by
  rcases hw.before with ⟨lock₀, hlock₀, hpid₀⟩ | ⟨hnone, -⟩
  · rw [hlock₀] at hlock'
    cases hlock'
    exact hpid₀
  · rw [hnone] at hlock'
    cases hlock'

lemma owned {p : Pid} {h' : ℕ} (ho : m.Owned p h') : (m.setLock h lock).Owned p h' := by
  obtain ⟨lock', hlock', hpid'⟩ := ho
  by_cases hh : h' = h
  · rw [hh] at hlock'
    have hp : θ.pid = p := (hw.pid_before hlock').symm.trans hpid'
    exact ⟨lock, locks_setLock.mpr (Or.inl ⟨hh, rfl⟩), hw.pid.trans hp⟩
  · exact ⟨lock', locks_setLock.mpr (Or.inr ⟨hh, hlock'⟩), hpid'⟩

/-- The write keeps the invariant. -/
lemma ok (hok : m.Ok) : (m.setLock h lock).Ok := by
  refine ⟨?_, ?_, ?_, fun p h' hheld => hw.owned (hok.entry_owned p h' hheld), ?_⟩
  · rintro p h' ⟨lock', hlock', rfl, hlive'⟩
    rcases locks_setLock.mp hlock' with ⟨rfl, rfl⟩ | ⟨-, hbefore⟩
    · rw [hw.pid]
      exact hw.live hlive'
    · exact hok.live_holds _ h' ⟨lock', hbefore, rfl, hlive'⟩
  · rintro p h' ⟨lock', hlock', rfl⟩
    rcases locks_setLock.mp hlock' with ⟨rfl, rfl⟩ | ⟨-, hbefore⟩
    · rcases hw.before with howned | ⟨-, howner⟩
      · exact hok.lock_lt _ _ howned
      · exact m.flock.lt_next howner
    · exact hok.lock_lt _ h' ⟨lock', hbefore, rfl⟩
  · rintro p h' ⟨lock', hlock', rfl⟩
    rcases locks_setLock.mp hlock' with ⟨rfl, rfl⟩ | ⟨-, hbefore⟩
    · rw [hw.pid]
      exact hw.alive
    · exact hok.lock_alive _ h' ⟨lock', hbefore, rfl⟩
  · rintro p hp h' ⟨lock', hlock', rfl, hlive'⟩
    rcases locks_setLock.mp hlock' with ⟨rfl, rfl⟩ | ⟨-, hbefore⟩
    · -- the writer is inside its critical section
      have hp' : m.mutex lock'.pid = none := hp
      rw [hw.pid, hw.mutex] at hp'
      cases hp'
    · exact hok.registered _ hp h' ⟨lock', hbefore, rfl, hlive'⟩

/-- The write disturbs no other thread. -/
lemma frame (hne : θ' ≠ θ) : Frame θ' m (m.setLock h lock) where
  mutex := id
  held _ := rfl
  locks hm' h' lock' hpid' := by
    have hp : θ'.pid ≠ θ.pid := pid_ne_of_mutex hw.mutex hne hm'
    rw [locks_setLock]
    constructor
    · rintro (⟨-, rfl⟩ | ⟨-, hbefore⟩)
      · exact absurd (hpid'.symm.trans hw.pid) hp
      · exact hbefore
    · intro hbefore
      refine Or.inr ⟨?_, hbefore⟩
      rintro rfl
      exact hp (hpid'.symm.trans (hw.pid_before hbefore))
  owned h' := hw.owned
  released h' hr := by
    by_cases hh : h' = h
    · subst hh
      obtain ⟨lock', hlock', hpid', hreleased'⟩ := hr
      have hp : θ.pid = θ'.pid := (hw.pid_before hlock').symm.trans hpid'
      exact ⟨lock, locks_setLock.mpr (Or.inl ⟨rfl, rfl⟩), hw.pid.trans hp,
        hw.released ⟨lock', hlock', hpid'.trans hp.symm, hreleased'⟩⟩
    · obtain ⟨lock', hlock', hrest⟩ := hr
      exact ⟨lock', locks_setLock.mpr (Or.inr ⟨hh, hlock'⟩), hrest⟩
  opened hm' h' ho' hl' := by
    have hh : h' ≠ h := by
      rintro rfl
      rcases hw.before with howned | ⟨-, howner⟩
      · exact ne_of_locks_none hl' howned rfl
      · rw [howner] at ho'
        exact pid_ne_of_mutex hw.mutex hne hm' (Option.some.inj ho').symm
    refine ⟨ho', ?_, id⟩
    show Function.update m.locks h (some lock) h' = none
    rw [Function.update_of_ne hh]
    exact hl'

end Writes

/-- Writing a lock object inside the critical section. -/
lemma Safe.setLock (hok : m.Ok) {lock : AccountLock} (hw : Writes θ m h lock) :
    Safe θ m (m.setLock h lock) :=
  ⟨hw.ok hok, fun _ => hw.frame, rfl⟩

end Updates

end KeelTrader.Core.LiveWriter
