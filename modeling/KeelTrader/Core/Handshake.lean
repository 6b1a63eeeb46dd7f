import KeelTrader.Core.LiveWriter
import KeelTrader.Lib.RecordedRun
import Mathlib.Data.PNat.Defs
import Mathlib.Tactic

set_option relaxedAutoImplicit false
set_option autoImplicit false

/-!
# The deploy handshake

`lock_holder_pid` and `verify_lock_handshake` of `ops/deploy_live_trader.sh`, on a host whose
processes acquire and release the account writer lock. The handshake compares the PID in the text
of the lock file with the `MainPID` of the unit, and does not look at the kernel lock. A release
leaves the text as it is, and a process may be given a PID that the text still names.

## Main definitions

* `KeelTrader.Core.Handshake.verifyLockHandshake` — the handshake.
* `KeelTrader.Core.Handshake.Host` — the machine of the account lock, and the processes that were
  started.
* `KeelTrader.Core.Handshake.Host.act` — process starts and exits, and what the threads do.
* `KeelTrader.Core.Handshake.Run` — a run of the host.
* `KeelTrader.Core.Handshake.Run.Sound` — a handshake that succeeds proves who holds the lock.
* `KeelTrader.Core.Handshake.Run.Kept` — a process that the text has named gives the lock up only
  by exiting, and its PID is not used again.

## Main results

* `KeelTrader.Core.Handshake.sound_iff` — the handshake is sound in exactly the runs that keep
  what the text says.

## Implementation notes

A process of the model is started at most once; its PID is its own among the processes that are
alive, and may be used again after it has exited. The text of the lock file carries a process, and
its PID is read off it. `lock_holder_pid` reads the text first, and the supervisor is asked later.
The lock file of the script is the one that the processes lock.
-/

namespace KeelTrader.Core

/-! ## What the calls do to the kernel lock and to the text -/

namespace LiveWriter

/-- The description that the next step of a thread unlocks or closes. -/
def Phase.dropping : Phase → Option ℕ
  | .acqClose _ h _ | .relUnlock h | .relClose h => some h
  | _ => none

/-- A thread that unlocks or closes a description is in a call. -/
lemma Phase.ready_of_dropping {phase : Phase} {d : ℕ} (h : phase.dropping = some d) :
    phase.ready = false := by
  cases phase <;> first | rfl | cases h

section Effects

variable {θ : ThreadId} {m m' : Machine} {phase phase' : Phase} {d : ℕ} {q : Pid}

/-- A step of a call keeps the kernel lock for the description that holds it, unless it unlocks or
closes that description. -/
lemma next_keeps (hnext : next θ m phase = some (phase', m')) (hheld : m.flock.holder = some d)
    (howner : m.flock.owner d = some q) :
    (m'.flock.holder = some d ∧ m'.flock.owner d = some q) ∨ phase.dropping = some d := by
  cases next_effect hnext with
  | lockMutex hlock =>
    rw [eq_of_lockMutex hlock]
    exact Or.inl ⟨hheld, howner⟩
  | openFile => exact Or.inl ⟨hheld, Flock.owner_openFile_of_some howner⟩
  | tryLock hf =>
    obtain ⟨-, hheld', howner', -⟩ := Flock.tryLock_eq_some hf
    rw [← Flock.eq_of_tryLock hf hheld] at hheld'
    exact Or.inl ⟨hheld', (congrFun howner' d).trans howner⟩
  | @closeRefused _ h | @close h =>
    by_cases hd : d = h
    · exact Or.inr (congrArg some hd.symm)
    · exact Or.inl ⟨Flock.holder_close_of_ne hd hheld, (Flock.owner_close_of_ne hd).trans howner⟩
  | @unlock h =>
    by_cases hd : d = h
    · exact Or.inr (congrArg some hd.symm)
    · exact Or.inl ⟨Flock.holder_unlock_of_ne hd hheld, howner⟩
  | _ => exact Or.inl ⟨hheld, howner⟩

/-- A step that unlocks or closes the description that holds the kernel lock frees it. -/
lemma next_drops (hnext : next θ m phase = some (phase', m')) (hdrop : phase.dropping = some d)
    (hheld : m.flock.holder = some d) : m'.flock.holder = none := by
  cases phase with
  | acqClose | relClose | relUnlock =>
    cases hdrop
    cases hnext
    exact if_pos hheld
  | _ => cases hdrop

/-- A step of a call opens descriptions for its own process only. -/
lemma next_owner (hnext : next θ m phase = some (phase', m')) (howner : m'.flock.owner d = some q) :
    m.flock.owner d = some q ∨ q = θ.pid := by
  cases next_effect hnext with
  | lockMutex hlock =>
    rw [eq_of_lockMutex hlock] at howner
    exact Or.inl howner
  | openFile =>
    by_cases hd : d = m.flock.next
    · rw [hd] at howner
      exact Or.inr (Option.some.inj (Flock.owner_openFile_self.symm.trans howner)).symm
    · exact Or.inl ((Function.update_of_ne hd _ _).symm.trans howner)
  | tryLock hf =>
    rw [← (Flock.tryLock_eq_some hf).2.2.1]
    exact Or.inl howner
  | @closeRefused _ h | @close h =>
    have hd : d ≠ h := by
      rintro rfl
      simp [Flock.close] at howner
    exact Or.inl ((Flock.owner_close_of_ne hd).symm.trans howner)
  | _ => exact Or.inl howner

/-- A step of a call leaves the text alone, empties it, or names its own process. -/
lemma next_content (hnext : next θ m phase = some (phase', m')) :
    m'.content = m.content ∨ m'.content = none ∨ ∃ call h payload, phase = .acqWrite call h ∧
      m'.content = some payload ∧ payload.pid = θ.pid ∧ m'.flock = m.flock := by
  cases next_effect hnext with
  | lockMutex hlock =>
    rw [eq_of_lockMutex hlock]
    exact Or.inl rfl
  | truncate => exact Or.inr (Or.inl rfl)
  | write => exact Or.inr (Or.inr ⟨_, _, _, rfl, rfl, rfl, rfl⟩)
  | _ => exact Or.inl rfl

end Effects

end LiveWriter

namespace Handshake

open LiveWriter

/-! ## The script -/

/-- How `verify_lock_handshake` ends. -/
inductive Verdict
  /-- "no live writer currently holds the lock (paper-safe state)." -/
  | noWriter
  /-- "systemctl not available here — cannot read supervisor PID …" -/
  | noSystemctl
  /-- "unit … has no running MainPID." -/
  | noMainPid
  /-- "MISMATCH: lock-holder PID … != supervisor PID …" -/
  | mismatch (holderPid supPid : ℕ)
  /-- "OK: lock-holder PID == supervisor PID …" -/
  | ok (holderPid : ℕ)
  deriving DecidableEq, Repr

/-- The exit status. -/
def Verdict.status : Verdict → ℕ
  | .ok _ => 0
  | _ => 1

/-- `verify_lock_handshake`, given what `lock_holder_pid` prints, whether there is a `systemctl`,
and the `MainPID` that it shows. -/
def verifyLockHandshake (holderPid : Option ℕ) (systemctl : Bool) (supPid : Option ℕ) : Verdict :=
  match holderPid with
  | none => .noWriter
  | some holder =>
    if systemctl then
      match supPid with
      | none | some 0 => .noMainPid
      | some sup => if holder ≠ sup then .mismatch holder sup else .ok holder
    else .noSystemctl

/-- The handshake succeeds when the text names the `MainPID`. -/
theorem verifyLockHandshake_status {holderPid : Option ℕ} {systemctl : Bool} {sup : ℕ}
    (hpos : sup ≠ 0) : (verifyLockHandshake holderPid systemctl (some sup)).status = 0 ↔
      holderPid = some sup ∧ systemctl = true := by
  obtain ⟨n, rfl⟩ := Nat.exists_eq_succ_of_ne_zero hpos
  cases holderPid with
  | none => simp [verifyLockHandshake, Verdict.status]
  | some holder =>
    cases systemctl with
    | false => simp [verifyLockHandshake, Verdict.status]
    | true =>
      by_cases h : holder = n + 1
      · simp [verifyLockHandshake, Verdict.status, h]
      · simp [verifyLockHandshake, Verdict.status, h]

/-! ## The host -/

/-- The machine of the account lock, and the processes that were started. -/
structure Host where
  config : Config
  started : Finset Pid

/-- What happens on a host. -/
inductive Event
  | start (p : Pid)
  | exit (p : Pid)
  | ask (θ : ThreadId) (request : Request)
  deriving DecidableEq, Repr

namespace Host

/-- Nothing runs; the lock file may be from an earlier run. -/
def start (content : Option LockPayload) : Host := ⟨Config.start content, ∅⟩

variable (s : Host)

/-- A process that was started and has not exited. -/
def Alive (p : Pid) : Prop := p ∈ s.started ∧ s.config.shared.exited p = false

instance (p : Pid) : Decidable (s.Alive p) := inferInstanceAs (Decidable (_ ∧ _))

/-- The process holds the lock of the account. -/
def HoldsLock (p : Pid) : Prop :=
  ∃ d, s.config.shared.flock.holder = some d ∧ s.config.shared.flock.owner d = some p

/-- `lock_holder_pid`, empty when the file is empty. -/
def lockHolderPid (osPid : Pid → ℕ+) : Option ℕ :=
  s.config.shared.content.map fun payload => osPid payload.pid

/-- The thread is about to unlock or close the description by which `p` holds the lock. -/
def Drops (θ : ThreadId) (p : Pid) : Prop :=
  ∃ d, (s.config.localOf θ).dropping = some d ∧ s.config.shared.flock.holder = some d ∧
    s.config.shared.flock.owner d = some p

/-- What an event leads to, if it is possible. A process is started under a PID that no process
alive has. -/
def act (S : PyStr) (account : String) (osPid : Pid → ℕ+) : Event → Option Host
  | .start p =>
    if p ∉ s.started ∧ ∀ q ∈ s.started, s.Alive q → osPid q ≠ osPid p then
      some { s with started := insert p s.started }
    else none
  | .exit p =>
    if s.Alive p then
      some { s with config := ⟨s.config.shared.exit p, s.config.localOf⟩ }
    else none
  | .ask θ request =>
    if θ.pid ∈ s.started then
      (perform S account s.config (θ, request)).map fun config => { s with config := config }
    else none

end Host

/-! ## Runs -/

/-- A run of the host. -/
structure Run (S : PyStr) (account : String) (osPid : Pid → ℕ+) extends
    RecordedRun fun s : Host => s.act S account osPid where
  content : Option LockPayload
  start : state 0 = Host.start content

namespace Run

variable {S : PyStr} {account : String} {osPid : Pid → ℕ+} (r : Run S account osPid)

/-- **The handshake is sound.** Whenever it succeeds, with the text of one moment and the `MainPID`
of the same or a later one, the process with that `MainPID` holds the lock. -/
def Sound : Prop :=
  ∀ i j, i ≤ j → j ≤ r.events.length → ∀ p systemctl, (r.state j).Alive p →
    (verifyLockHandshake ((r.state i).lockHolderPid osPid) systemctl (some (osPid p))).status = 0 →
      (r.state j).HoldsLock p

/-- The text has named the PID of `p` up to the moment `k`. -/
def Named (k : ℕ) (p : Pid) : Prop :=
  r.Seen (fun s => s.lockHolderPid osPid) k (osPid p)

/-- What the text says is kept: a process that it has named gives the lock up only by exiting, and
no process is started under a PID that it has named. -/
structure Kept : Prop where
  keeps : ∀ k (hk : k < r.events.length) θ request p, r.events[k] = .ask θ request →
    (r.state k).Drops θ p → ¬r.Named k p
  starts : ∀ k (hk : k < r.events.length) p, r.events[k] = .start p → ¬r.Named k p

end Run

/-! ## What the events keep -/

section Events

variable {S : PyStr} {account : String} {osPid : Pid → ℕ+} {s s' : Host} {p q : Pid}
  {θ : ThreadId} {request : Request}

lemma act_start (h : s.act S account osPid (.start p) = some s') :
    p ∉ s.started ∧ (∀ q, s.Alive q → osPid q ≠ osPid p) ∧
      s' = { s with started := insert p s.started } := by
  simp only [Host.act] at h
  split at h
  · next hfree =>
    cases h
    exact ⟨hfree.1, fun q hq => hfree.2 q hq.1 hq, rfl⟩
  · cases h

lemma act_exit (h : s.act S account osPid (.exit p) = some s') :
    s.Alive p ∧ s' = { s with config := ⟨s.config.shared.exit p, s.config.localOf⟩ } := by
  simp only [Host.act] at h
  split at h
  · next halive =>
    cases h
    exact ⟨halive, rfl⟩
  · cases h

/-- A thread starts a call, or takes the next step of the one it is in. -/
lemma act_ask (h : s.act S account osPid (.ask θ request) = some s') :
    s.Alive θ.pid ∧ s'.started = s.started ∧
      (accountLock S account).Step s.config s'.config ∧
      ((s.config.localOf θ).ready = true ∧ s'.config.shared = s.config.shared ∨
        ∃ phase', next θ s.config.shared (s.config.localOf θ) =
          some (phase', s'.config.shared)) := by
  simp only [Host.act] at h
  split at h
  · next hstarted =>
    obtain ⟨config, hperform, hs'⟩ := Option.map_eq_some_iff.mp h
    obtain ⟨⟨phase', m'⟩, hact, hconfig⟩ := Option.map_eq_some_iff.mp hperform
    subst hs' hconfig
    refine ⟨⟨hstarted, (act_cases hact).1⟩, rfl, .thread θ ⟨request, hact⟩, ?_⟩
    cases request with
    | run =>
      simp only [act] at hact
      split at hact
      · cases hact
      · exact Or.inr ⟨phase', hact⟩
    | acquire call | release d =>
      simp only [act] at hact
      split at hact
      · next hready =>
        cases hact
        exact Or.inl ⟨hready.1, rfl⟩
      · cases hact
  · cases h

lemma alive_start : Host.Alive { s with started := insert p s.started } q ↔
    q = p ∧ s.config.shared.exited q = false ∨ s.Alive q := by
  unfold Host.Alive
  rw [Finset.mem_insert, or_and_right]

lemma alive_exit :
    Host.Alive { s with config := ⟨s.config.shared.exit p, s.config.localOf⟩ } q ↔
      s.Alive q ∧ q ≠ p := by
  unfold Host.Alive
  by_cases hq : q = p
  · simp [hq, Machine.exit]
  · simp [hq, exited_exit_of_ne]

/-- The processes that exit keep the lock of another one. -/
lemma holdsLock_exit (hne : q ≠ p) (h : s.HoldsLock q) :
    Host.HoldsLock { s with config := ⟨s.config.shared.exit p, s.config.localOf⟩ } q := by
  obtain ⟨d, hheld, howner⟩ := h
  exact ⟨d, Flock.holder_exit_of_ne hne howner hheld, Flock.owner_exit_of_ne hne howner⟩

/-- What holds of every host that is reached. -/
structure Good (S : PyStr) (account : String) (osPid : Pid → ℕ+) (s : Host) : Prop where
  /-- The threads know what the proof outline says. -/
  outline : (outline S account).Holds s.config
  /-- Descriptions are open in processes that are alive. -/
  owner_alive : ∀ d p, s.config.shared.flock.owner d = some p → s.Alive p
  /-- Processes that are alive have PIDs of their own. -/
  distinct : ∀ p q, s.Alive p → s.Alive q → osPid p = osPid q → p = q
  /-- A process that has exited was started. -/
  exited_started : ∀ p, s.config.shared.exited p = true → p ∈ s.started

lemma good_start (content : Option LockPayload) : Good S account osPid (Host.start content) where
  outline := outline_start content
  owner_alive _ _ h := nomatch h
  distinct p _ h := absurd h.1 (Finset.notMem_empty p)
  exited_started _ h := nomatch h

/-- A step of a thread lets no process exit. -/
lemma exited_ask (hgood : Good S account osPid s)
    (h : s.act S account osPid (.ask θ request) = some s') :
    s'.config.shared.exited = s.config.shared.exited := by
  obtain ⟨halive, -, -, hcase⟩ := act_ask h
  rcases hcase with ⟨-, hsame⟩ | ⟨phase', hnext⟩
  · rw [hsame]
  · exact (next_ok hgood.outline.1 halive.2 (hgood.outline.2 θ halive.2) hnext).1.exited

lemma alive_ask (hgood : Good S account osPid s)
    (h : s.act S account osPid (.ask θ request) = some s') : s'.Alive q ↔ s.Alive q := by
  unfold Host.Alive
  rw [(act_ask h).2.1, exited_ask hgood h]

/-- Every event keeps it. -/
lemma good_act (hgood : Good S account osPid s) {e : Event}
    (h : s.act S account osPid e = some s') : Good S account osPid s' := by
  cases e with
  | start p =>
    obtain ⟨-, hfree, rfl⟩ := act_start h
    refine ⟨hgood.outline, fun d q hd => ?_, fun q q' hq hq' heq => ?_, fun q hq => ?_⟩
    · exact alive_start.mpr (Or.inr (hgood.owner_alive d q hd))
    · rcases alive_start.mp hq with ⟨rfl, -⟩ | hold
      · rcases alive_start.mp hq' with ⟨rfl, -⟩ | hold'
        · rfl
        · exact absurd heq.symm (hfree q' hold')
      · rcases alive_start.mp hq' with ⟨rfl, -⟩ | hold'
        · exact absurd heq (hfree q hold)
        · exact hgood.distinct q q' hold hold' heq
    · exact Finset.mem_insert_of_mem (hgood.exited_started q hq)
  | exit p =>
    obtain ⟨halive, rfl⟩ := act_exit h
    refine ⟨?_, fun d q hd => ?_, fun q q' hq hq' => ?_, fun q hq => ?_⟩
    · exact (LiveWriter.outline S account).holds_step hgood.outline (.environment ⟨p, rfl⟩)
    · obtain ⟨hopen, hne⟩ := Flock.ne_of_owner_exit hd
      exact alive_exit.mpr ⟨hgood.owner_alive d q hopen, hne⟩
    · exact hgood.distinct q q' (alive_exit.mp hq).1 (alive_exit.mp hq').1
    · by_cases hqp : q = p
      · rw [hqp]
        exact halive.1
      · exact hgood.exited_started q ((exited_exit_of_ne hqp).symm.trans hq)
  | ask θ request =>
    obtain ⟨halive, hstarted, hstep, hcase⟩ := act_ask h
    refine ⟨(LiveWriter.outline S account).holds_step hgood.outline hstep, fun d q hd => ?_,
      fun q q' hq hq' => ?_, fun q hq => ?_⟩
    · rw [alive_ask hgood h]
      rcases hcase with ⟨-, hsame⟩ | ⟨phase', hnext⟩
      · rw [hsame] at hd
        exact hgood.owner_alive d q hd
      · rcases next_owner hnext hd with hd | rfl
        · exact hgood.owner_alive d q hd
        · exact halive
    · rw [alive_ask hgood h] at hq hq'
      exact hgood.distinct q q' hq hq'
    · rw [exited_ask hgood h] at hq
      rw [hstarted]
      exact hgood.exited_started q hq

/-! ### The lock and the text -/

/-- A step that does not drop the lock of a process keeps it. -/
lemma holdsLock_ask (h : s.act S account osPid (.ask θ request) = some s')
    (hdrop : ¬s.Drops θ p) (hholds : s.HoldsLock p) : s'.HoldsLock p := by
  obtain ⟨-, -, -, hcase⟩ := act_ask h
  obtain ⟨d, hheld, howner⟩ := hholds
  rcases hcase with ⟨-, hsame⟩ | ⟨phase', hnext⟩
  · unfold Host.HoldsLock
    rw [hsame]
    exact ⟨d, hheld, howner⟩
  · rcases next_keeps hnext hheld howner with hkept | hdropping
    · exact ⟨d, hkept⟩
    · exact absurd ⟨d, hdropping, hheld, howner⟩ hdrop

/-- A step that drops the lock leaves nobody holding it. -/
lemma not_holdsLock_of_drops (h : s.act S account osPid (.ask θ request) = some s')
    (hdrop : s.Drops θ p) : ¬s'.HoldsLock q := by
  obtain ⟨-, -, -, hcase⟩ := act_ask h
  obtain ⟨d, hdropping, hheld, -⟩ := hdrop
  rcases hcase with ⟨hready, -⟩ | ⟨phase', hnext⟩
  · rw [Phase.ready_of_dropping hdropping] at hready
    cases hready
  · rintro ⟨d', hheld', -⟩
    rw [next_drops hnext hdropping hheld] at hheld'
    cases hheld'

/-- A process whose PID the text begins to name has the lock. -/
lemma holdsLock_of_named (hgood : Good S account osPid s)
    (h : s.act S account osPid (.ask θ request) = some s') (hp : s.Alive p)
    (hbefore : s.lockHolderPid osPid ≠ some (osPid p : ℕ))
    (hafter : s'.lockHolderPid osPid = some (osPid p : ℕ)) : s'.HoldsLock p := by
  obtain ⟨halive, -, -, hcase⟩ := act_ask h
  unfold Host.lockHolderPid at hbefore hafter
  rcases hcase with ⟨-, hsame⟩ | ⟨phase', hnext⟩
  · rw [hsame] at hafter
    exact absurd hafter hbefore
  · rcases next_content hnext with
      hsame | hempty | ⟨call, d, payload, hphase, htext, hpid, hflock⟩
    · rw [hsame] at hafter
      exact absurd hafter hbefore
    · rw [hempty] at hafter
      cases hafter
    · -- the thread writes the text while its process holds the lock
      have hat := hgood.outline.2 θ halive.2
      rw [hphase] at hat
      obtain ⟨hopened, hheld⟩ := hat
      rw [htext, Option.map_some, hpid] at hafter
      have hθ : p = θ.pid := by
        apply hgood.distinct p θ.pid hp halive
        exact PNat.coe_injective (Option.some.inj hafter).symm
      unfold Host.HoldsLock
      rw [hflock, hθ]
      exact ⟨d, hheld, hopened.2.1⟩

end Events

/-! ## The handshake over a run -/

section Runs

variable {S : PyStr} {account : String} {osPid : Pid → ℕ+} (r : Run S account osPid)

lemma good (k : ℕ) (hk : k ≤ r.events.length) : Good S account osPid (r.state k) := by
  apply r.toRecordedRun.invariant _ (fun s e s' hgood h => good_act hgood h) k hk
  rw [r.start]
  exact good_start r.content

/-- A step that leaves the text as it is names nobody new. -/
lemma named_of_succ {k : ℕ} {p : Pid}
    (hsame : (r.state (k + 1)).config.shared.content = (r.state k).config.shared.content)
    (hnamed : r.Named (k + 1) p) : r.Named k p := by
  apply (RecordedRun.seen_succ_of_eq _).mp hnamed
  unfold Host.lockHolderPid
  rw [hsame]

/-- Whom the text has named, while it is kept, holds the lock. -/
lemma holdsLock_of_kept (hkept : r.Kept) :
    ∀ k, k ≤ r.events.length → ∀ p, (r.state k).Alive p → r.Named k p →
      (r.state k).HoldsLock p := by
  intro k
  induction k with
  | zero =>
    intro _ p hp
    rw [r.start] at hp
    exact absurd hp.1 (Finset.notMem_empty p)
  | succ k ih =>
    intro hk p hp hnamed
    have hlt : k < r.events.length := by omega
    have hstep := r.step_eq k hlt
    have hgood := good r k hlt.le
    cases he : r.events[k] with
    | start q =>
      rw [he] at hstep
      obtain ⟨-, -, hs'⟩ := act_start hstep
      have hseen : r.Named k p := named_of_succ r (by rw [hs']) hnamed
      rw [hs'] at hp ⊢
      rcases alive_start.mp hp with ⟨rfl, -⟩ | hold
      · exact absurd hseen (hkept.starts k hlt p he)
      · exact ih hlt.le p hold hseen
    | exit q =>
      rw [he] at hstep
      obtain ⟨-, hs'⟩ := act_exit hstep
      have hseen : r.Named k p := named_of_succ r (by rw [hs']; rfl) hnamed
      rw [hs'] at hp ⊢
      obtain ⟨hold, hne⟩ := alive_exit.mp hp
      exact holdsLock_exit hne (ih hlt.le p hold hseen)
    | ask θ request =>
      rw [he] at hstep
      rw [alive_ask hgood hstep] at hp
      by_cases hseen : r.Named k p
      · apply holdsLock_ask hstep _ (ih hlt.le p hp hseen)
        exact fun hdrop => hkept.keeps k hlt θ request p he hdrop hseen
      · rcases RecordedRun.seen_succ.mp hnamed with hseen' | hafter
        · exact absurd hseen' hseen
        · exact holdsLock_of_named hgood hstep hp (fun hbefore => hseen ⟨k, le_rfl, hbefore⟩) hafter

/-- **The deploy handshake.** It is sound in exactly the runs in which a process that the text of
the lock file has named gives the lock up only by exiting, and no process is started under a PID
that the text has named.

**Proof sketch.** In such a run the processes that the text has named and that are alive hold the
lock, by induction on the run: the text is written by a process that holds it. Conversely, after a
drop nobody holds the lock, and a process that was just started has no description of the lock file
open; a handshake with the earlier text succeeds in both cases. -/
theorem sound_iff : r.Sound ↔ r.Kept := by
  have hpos : ∀ p, (osPid p : ℕ) ≠ 0 := fun p => (osPid p).ne_zero
  constructor
  · intro hsound
    refine ⟨fun k hk θ request p he hdrop hnamed => ?_, fun k hk p he hnamed => ?_⟩
    · obtain ⟨i, hi, htext⟩ := hnamed
      have hstep := r.step_eq k hk
      rw [he] at hstep
      have hgood := good r k hk.le
      have halive : (r.state (k + 1)).Alive p := by
        obtain ⟨d, -, -, howner⟩ := hdrop
        exact (alive_ask hgood hstep).mpr (hgood.owner_alive d p howner)
      apply not_holdsLock_of_drops hstep hdrop
      apply hsound i (k + 1) (by omega) hk p true halive
      exact (verifyLockHandshake_status (hpos p)).mpr ⟨htext, rfl⟩
    · obtain ⟨i, hi, htext⟩ := hnamed
      have hstep := r.step_eq k hk
      rw [he] at hstep
      have hgood := good r k hk.le
      obtain ⟨hfresh, -, hs'⟩ := act_start hstep
      have hexited : (r.state k).config.shared.exited p = false := by
        by_contra hnot
        exact hfresh (hgood.exited_started p (by simpa using hnot))
      have halive : (r.state (k + 1)).Alive p := by
        rw [hs']
        exact alive_start.mpr (Or.inl ⟨rfl, hexited⟩)
      have hlock := hsound i (k + 1) (by omega) hk p true halive
        ((verifyLockHandshake_status (hpos p)).mpr ⟨htext, rfl⟩)
      rw [hs'] at hlock
      obtain ⟨d, -, howner⟩ := hlock
      exact hfresh (hgood.owner_alive d p howner).1
  · rintro hkept i j hij hj p systemctl hp hstatus
    obtain ⟨htext, -⟩ := (verifyLockHandshake_status (hpos p)).mp hstatus
    exact holdsLock_of_kept r hkept j hj p hp ⟨i, hij, htext⟩

end Runs

/-- A process is started, acquires the lock, releases it and stays alive. -/
def releasedEvents : List Event :=
  .start 1 :: .ask ⟨1, 0⟩ (.acquire ⟨"keel-live-trader", "alpaca_live_writer", false⟩) ::
    List.replicate 9 (.ask ⟨1, 0⟩ .run) ++
  .ask ⟨1, 0⟩ (.release 0) :: List.replicate 10 (.ask ⟨1, 0⟩ .run)

/-- The run of these events. -/
def releasedRun : Run .ascii "alpaca_live_writer" Nat.succPNat where
  toRecordedRun := .replay (Host.start none) releasedEvents (by decide +kernel)
  content := none
  start := rfl

/-- The handshake succeeds after the release, and nobody holds the lock. -/
theorem not_sound_released :
    (releasedRun.state 22).Alive 1 ∧
      verifyLockHandshake ((releasedRun.state 22).lockHolderPid Nat.succPNat) true (some 2) =
        .ok 2 ∧
      ¬(releasedRun.state 22).HoldsLock 1 ∧ ¬releasedRun.Sound := by
  have halive : (releasedRun.state 22).Alive 1 := by decide +kernel
  have hok : verifyLockHandshake ((releasedRun.state 22).lockHolderPid Nat.succPNat) true
      (some 2) = .ok 2 := by decide +kernel
  have hfree : (releasedRun.state 22).config.shared.flock.holder = none := by decide +kernel
  have hnot : ¬(releasedRun.state 22).HoldsLock 1 := by
    rintro ⟨d, hheld, -⟩
    rw [hfree] at hheld
    cases hheld
  refine ⟨halive, hok, hnot, fun hsound => hnot ?_⟩
  apply hsound 22 22 le_rfl le_rfl 1 true halive
  exact congrArg Verdict.status hok

end Handshake

end KeelTrader.Core
