import KeelTrader.Core.SharedBuys

set_option relaxedAutoImplicit false
set_option autoImplicit false

/-!
# Safety of the shared buy memory

A proof outline for the operations of `SharedBuys`. The file lock makes its holder the only thread
that changes files, and the `RLock` of a process keeps its threads from sharing a description of
the lock file. So the buys file always holds what the operations that replaced it leave, one after
the other in the order in which they took the lock.

## Main definitions

* `KeelTrader.Core.SharedBuys.serial` — operations that run one after the other.
* `KeelTrader.Core.SharedBuys.Complete` — a buys file that holds what they leave.
* `KeelTrader.Core.SharedBuys.Phase.At` — what a thread knows at each phase.
* `KeelTrader.Core.SharedBuys.Frame`, `Rely` — what a thread relies on.

## Main results

* `KeelTrader.Core.SharedBuys.eq_of_handle` — no two threads share a description.
* `KeelTrader.Core.SharedBuys.next_ok` — a step establishes its assertion and disturbs no other
  thread.
* `KeelTrader.Core.SharedBuys.buyMemory_serial` — no update is lost and no state is torn.
-/

namespace KeelTrader.Core.SharedBuys

open LiveWriter (Pid ThreadId)

variable {S : PyStr}

/-! ## Serial runs -/

/-- The operations, one after the other. -/
def serial (disk : Disk) (ops : List (Op S)) : Disk :=
  ops.foldl (fun d op => (op.call.run S).after d) disk

/-- What a serial run leaves, by the plans of its operations. -/
lemma memory_serial (disk : Disk) (ops : List (Op S)) :
    (serial disk ops).memory = ops.foldl (fun data op => op.apply data) disk.memory := by
  induction ops generalizing disk with
  | nil => rfl
  | cons op ops ih =>
    show (serial ((op.call.run S).after disk) ops).memory = _
    rw [ih, memory_run]
    rfl

lemma memory_serial_concat (disk : Disk) (ops : List (Op S)) (op : Op S) :
    (serial disk (ops ++ [op])).memory = op.apply (serial disk ops).memory := by
  rw [memory_serial, memory_serial, List.foldl_append]
  rfl

/-- A content that loading moves out of the way. -/
def Corrupt (content : FileContent) : Prop := content = .notJson ∨ content = .notObject

/-- The buys file after `ops`, from the files of earlier runs: it is complete, and what can be
read in it is what the operations leave. -/
structure Complete (disk₀ : Disk) (ops : List (Op S)) (disk : Disk) : Prop where
  /-- What is read. -/
  memory : disk.memory = (serial disk₀ ops).memory
  /-- The file is the one there was, unless that was corrupt and is moved away, or an object. -/
  file : (ops = [] ∧ (disk.buys = disk₀.buys ∨
      (disk.buys = none ∧ ∃ content, disk₀.buys = some content ∧ Corrupt content))) ∨
    ∃ data, disk.buys = some (.object data)

/-- A corrupt file reads as no buys. -/
lemma memory_of_corrupt {disk : Disk} {content : FileContent} (h : disk.buys = some content)
    (hcorrupt : Corrupt content) : disk.memory = .empty := by
  unfold Disk.memory
  rcases hcorrupt with rfl | rfl <;> rw [h]

/-- Moving a corrupt file away keeps the buys complete. -/
lemma Complete.quarantine {disk₀ disk : Disk} {ops : List (Op S)} {content : FileContent}
    (h : Complete disk₀ ops disk) (hbuys : disk.buys = some content) (hcorrupt : Corrupt content) :
    Complete disk₀ ops (quarantineBuyMemoryFile noFailure content disk) := by
  have hmemory : (quarantineBuyMemoryFile noFailure content disk).memory = disk.memory := by
    rw [memory_of_corrupt hbuys hcorrupt]
    rfl
  refine ⟨hmemory.trans h.memory, ?_⟩
  rcases h.file with ⟨hops, hsame | ⟨hnone, -⟩⟩ | ⟨data, hdata⟩
  · exact .inl ⟨hops, .inr ⟨rfl, content, hsame ▸ hbuys, hcorrupt⟩⟩
  · rw [hnone] at hbuys
    cases hbuys
  · rw [hdata] at hbuys
    cases hbuys
    rcases hcorrupt with h | h <;> cases h

/-- The replace of an operation that planned on what is there. -/
lemma Complete.replace {disk₀ disk : Disk} {ops : List (Op S)} {op : Op S} {data : Buys}
    (h : Complete disk₀ ops disk) (hplan : op.call.plan S disk.memory = .ok (data, true)) :
    Complete disk₀ (ops ++ [op]) { disk with buys := some (.object data) } := by
  refine ⟨?_, .inr ⟨data, rfl⟩⟩
  rw [memory_serial_concat, ← h.memory]
  unfold Op.apply
  rw [hplan]
  rfl

/-! ## The log -/

lemma replacedOps_acquire (log : List (Entry S)) (θ : ThreadId) (op : Op S) :
    replacedOps (log ++ [⟨θ, op, false⟩]) = replacedOps log := by
  simp [replacedOps]

lemma replacedOps_markReplaced (front : List (Entry S)) (θ : ThreadId) (op : Op S) :
    replacedOps (markReplaced (front ++ [⟨θ, op, false⟩])) =
      replacedOps (front ++ [⟨θ, op, false⟩]) ++ [op] := by
  simp [replacedOps, markReplaced]

/-! ## Assertions -/

/-- Thread `θ` owns the `RLock` of its process. -/
structure Owns (θ : ThreadId) (m : Machine S) (lock : ℕ) : Prop where
  registry : m.registry θ.pid = some lock
  owner : m.lockOwner lock = some θ

/-- It has the lock file open as well. -/
structure Opened (θ : ThreadId) (m : Machine S) (x : Held S) : Prop where
  owns : Owns θ m x.lock
  handle : m.flock.owner x.handle = some θ.pid

/-- It holds the file lock. -/
structure Holds (θ : ThreadId) (m : Machine S) (x : Held S) : Prop where
  opened : Opened θ m x
  holder : m.flock.holder = some x.handle

/-- Its operation has taken the file lock last and has replaced nothing yet. -/
structure Pending (θ : ThreadId) (m : Machine S) (x : Held S) : Prop where
  holds : Holds θ m x
  last : ∃ front, m.log = front ++ [⟨θ, x.op, false⟩]

/-- Its operation is to save `data`. -/
structure Planned (θ : ThreadId) (m : Machine S) (x : Held S) (data : Buys) : Prop where
  pending : Pending θ m x
  plan : x.op.call.plan S m.disk.memory = .ok (data, true)

/-- What thread `θ` knows of the machine at each phase. -/
def Phase.At (θ : ThreadId) (m : Machine S) : Phase S → Prop
  | .idle | .finished _ _ | .muEnter _ => True
  | .muLook _ => m.mu θ.pid = some θ
  | .muCreate _ => m.mu θ.pid = some θ ∧ m.registry θ.pid = none
  | .muLeave _ lock => m.mu θ.pid = some θ ∧ m.registry θ.pid = some lock
  | .lockEnter _ lock => m.registry θ.pid = some lock
  | .openHandle _ lock | .lockLeave _ lock _ => Owns θ m lock
  | .takeFlock x | .close x _ => Opened θ m x
  | .pathExists x | .readText x => Pending θ m x
  | .quarantine x content => Pending θ m x ∧ m.disk.buys = some content ∧ Corrupt content
  | .compute x data => Pending θ m x ∧ (x.op.call.loads = true → data = m.disk.memory)
  | .mkstemp x data | .writeTemp x data _ => Planned θ m x data
  | .replace x data tmp => Planned θ m x data ∧ m.temps tmp = some (.object data)
  | .unlink x _ _ | .check x _ | .unlock x _ => Holds θ m x

/-- What thread `θ` relies on while its process lives: its locks stay its own, and nobody else
changes a file while it holds the file lock. -/
structure Frame (θ : ThreadId) (m m' : Machine S) : Prop where
  registry : ∀ lock, m.registry θ.pid = some lock → m'.registry θ.pid = some lock
  mu : m.mu θ.pid = some θ → m'.mu θ.pid = some θ ∧ m'.registry θ.pid = m.registry θ.pid
  owns : ∀ lock, Owns θ m lock → m'.lockOwner lock = some θ
  opened : ∀ x, Opened θ m x → m'.flock.owner x.handle = some θ.pid
  holds : ∀ x, Holds θ m x → m'.flock.holder = some x.handle ∧ m'.disk = m.disk ∧
    m'.temps = m.temps ∧ m'.log = m.log

/-- What thread `θ` relies on. -/
def Rely (θ : ThreadId) (m m' : Machine S) : Prop :=
  m'.exited θ.pid = false → m.exited θ.pid = false ∧ Frame θ m m'

/-- The assertion of a phase; the threads of an exited process know nothing. -/
def Phase.Assertion (θ : ThreadId) (phase : Phase S) (m : Machine S) : Prop :=
  m.exited θ.pid = false → phase.At θ m

/-! ## Stability -/

section Stability

variable {θ : ThreadId} {m m' : Machine S} {x : Held S} {lock : ℕ}

lemma Frame.toOwns (hF : Frame θ m m') (h : Owns θ m lock) : Owns θ m' lock :=
  ⟨hF.registry lock h.registry, hF.owns lock h⟩

lemma Frame.toOpened (hF : Frame θ m m') (h : Opened θ m x) : Opened θ m' x :=
  ⟨hF.toOwns h.owns, hF.opened x h⟩

lemma Frame.toHolds (hF : Frame θ m m') (h : Holds θ m x) : Holds θ m' x :=
  ⟨hF.toOpened h.opened, (hF.holds x h).1⟩

lemma Frame.toPending (hF : Frame θ m m') (h : Pending θ m x) : Pending θ m' x := by
  refine ⟨hF.toHolds h.holds, ?_⟩
  rw [(hF.holds x h.holds).2.2.2]
  exact h.last

lemma Frame.toPlanned {data : Buys} (hF : Frame θ m m') (h : Planned θ m x data) :
    Planned θ m' x data := by
  refine ⟨hF.toPending h.pending, ?_⟩
  rw [(hF.holds x h.pending.holds).2.1]
  exact h.plan

/-- Every assertion is stable. -/
lemma Frame.at (hF : Frame θ m m') {phase : Phase S} (hat : phase.At θ m) : phase.At θ m' := by
  cases phase with
  | idle | finished | muEnter => trivial
  | muLook op => exact (hF.mu hat).1
  | muCreate op => exact ⟨(hF.mu hat.1).1, (hF.mu hat.1).2.trans hat.2⟩
  | muLeave op lock => exact ⟨(hF.mu hat.1).1, hF.registry lock hat.2⟩
  | lockEnter op lock => exact hF.registry lock hat
  | openHandle op lock | lockLeave op lock outcome => exact hF.toOwns hat
  | takeFlock x | close x outcome => exact hF.toOpened hat
  | pathExists x | readText x => exact hF.toPending hat
  | quarantine x content =>
    obtain ⟨hpending, hbuys, hcorrupt⟩ := hat
    refine ⟨hF.toPending hpending, ?_, hcorrupt⟩
    rw [(hF.holds x hpending.holds).2.1]
    exact hbuys
  | compute x data =>
    obtain ⟨hpending, hdata⟩ := hat
    refine ⟨hF.toPending hpending, ?_⟩
    rw [(hF.holds x hpending.holds).2.1]
    exact hdata
  | mkstemp x data | writeTemp x data tmp => exact hF.toPlanned hat
  | replace x data tmp =>
    obtain ⟨hplanned, htemp⟩ := hat
    refine ⟨hF.toPlanned hplanned, ?_⟩
    rw [(hF.holds x hplanned.pending.holds).2.2.1]
    exact htemp
  | unlink x data tmp | check x data | unlock x outcome => exact hF.toHolds hat

end Stability

/-! ## What a step preserves -/

section Steps

variable {disk₀ : Disk} {θ θ' : ThreadId} {m m' : Machine S} {x x' : Held S} {lock : ℕ}

/-- The owner of the `RLock` of a process is one thread. -/
lemma eq_of_owns {lock' : ℕ} (h : Owns θ m lock) (h' : Owns θ' m lock') (hpid : θ'.pid = θ.pid) :
    θ' = θ := by
  have hlock : lock' = lock := by
    have := h'.registry
    rw [hpid, h.registry] at this
    exact (Option.some.inj this).symm
  have howner := h'.owner
  rw [hlock, h.owner] at howner
  exact (Option.some.inj howner).symm

/-- No two threads share a description. -/
theorem eq_of_handle (h : Opened θ m x) (h' : Opened θ' m x') (heq : x'.handle = x.handle) :
    θ' = θ := by
  have howner := h'.handle
  rw [heq, h.handle] at howner
  exact eq_of_owns h.owns h'.owns (Option.some.inj howner).symm

/-- The file lock excludes. -/
theorem eq_of_holds (h : Holds θ m x) (h' : Holds θ' m x') : θ' = θ := by
  refine eq_of_handle h.opened h'.opened ?_
  have hholder := h'.holder
  rw [h.holder] at hholder
  exact (Option.some.inj hholder).symm

/-- A step that keeps the buys complete and disturbs no other thread. -/
structure Safe (disk₀ : Disk) (θ : ThreadId) (m m' : Machine S) : Prop where
  complete : Complete disk₀ (replacedOps m'.log) m'.disk
  frame : ∀ θ', θ' ≠ θ → Frame θ' m m'
  exited : m'.exited = m.exited

lemma Frame.refl (θ : ThreadId) (m : Machine S) : Frame θ m m :=
  ⟨fun _ => id, fun h => ⟨h, rfl⟩, fun _ h => h.owner, fun _ h => h.handle,
    fun _ h => ⟨h.holder, rfl, rfl, rfl⟩⟩

lemma Safe.refl (hok : Complete disk₀ (replacedOps m.log) m.disk) : Safe disk₀ θ m m :=
  ⟨hok, fun θ' _ => Frame.refl θ' m, rfl⟩

/-- Entering or leaving `_BUY_MEMORY_LOCKS_MU`, which no other thread of the process is in. -/
lemma Safe.setMu (hok : Complete disk₀ (replacedOps m.log) m.disk)
    (hfree : m.mu θ.pid = none ∨ m.mu θ.pid = some θ) (owner : Option ThreadId) :
    Safe disk₀ θ m { m with mu := Function.update m.mu θ.pid owner } := by
  refine ⟨hok, fun θ' hne => ⟨fun _ => id, fun hmu => ⟨?_, rfl⟩, fun _ h => h.owner,
    fun _ h => h.handle, fun _ h => ⟨h.holder, rfl, rfl, rfl⟩⟩, rfl⟩
  have hpid : θ'.pid ≠ θ.pid := by
    intro hpid
    rw [hpid] at hmu
    rcases hfree with hnone | hself
    · rw [hnone] at hmu
      cases hmu
    · rw [hself] at hmu
      exact hne (Option.some.inj hmu).symm
  show Function.update m.mu θ.pid owner θ'.pid = some θ'
  rw [Function.update_of_ne hpid]
  exact hmu

/-- Creating the `RLock` of a process. -/
lemma Safe.create (hok : Complete disk₀ (replacedOps m.log) m.disk)
    (hmu : m.mu θ.pid = some θ) (hnone : m.registry θ.pid = none) :
    Safe disk₀ θ m { m with
      registry := Function.update m.registry θ.pid (some m.nextLock)
      nextLock := m.nextLock + 1 } := by
  refine ⟨hok, fun θ' hne => ⟨fun lock hlock => ?_, fun hmu' => ⟨hmu', ?_⟩, fun _ h => h.owner,
    fun _ h => h.handle, fun _ h => ⟨h.holder, rfl, rfl, rfl⟩⟩, rfl⟩
  · have hpid : θ'.pid ≠ θ.pid := by
      intro hpid
      rw [hpid, hnone] at hlock
      cases hlock
    exact (Function.update_of_ne hpid _ _).trans hlock
  · have hpid : θ'.pid ≠ θ.pid := by
      intro hpid
      rw [hpid, hmu] at hmu'
      exact hne (Option.some.inj hmu').symm
    exact Function.update_of_ne hpid _ _

/-- Taking or dropping an `RLock` that no other thread owns. -/
lemma Safe.setLockOwner (hok : Complete disk₀ (replacedOps m.log) m.disk)
    (hfree : m.lockOwner lock = none ∨ m.lockOwner lock = some θ) (owner : Option ThreadId) :
    Safe disk₀ θ m { m with lockOwner := Function.update m.lockOwner lock owner } := by
  refine ⟨hok, fun θ' hne => ⟨fun _ => id, fun hmu => ⟨hmu, rfl⟩, fun lock' h => ?_,
    fun _ h => h.handle, fun _ h => ⟨h.holder, rfl, rfl, rfl⟩⟩, rfl⟩
  have hlock : lock' ≠ lock := by
    rintro rfl
    have howner := h.owner
    rcases hfree with hnone | hself
    · rw [hnone] at howner
      cases howner
    · rw [hself] at howner
      exact hne (Option.some.inj howner).symm
  exact (Function.update_of_ne hlock _ _).trans h.owner

/-- An operation of the kernel that keeps the descriptions of the other threads, and the file lock
of one that holds it. -/
lemma Safe.setFlock (hok : Complete disk₀ (replacedOps m.log) m.disk) {f : Flock Pid}
    (hopened : ∀ θ', θ' ≠ θ → ∀ x', Opened θ' m x' → f.owner x'.handle = some θ'.pid)
    (hholds : ∀ θ', θ' ≠ θ → ∀ x', Holds θ' m x' → f.holder = some x'.handle) :
    Safe disk₀ θ m { m with flock := f } :=
  ⟨hok, fun θ' hne => ⟨fun _ => id, fun hmu => ⟨hmu, rfl⟩, fun _ h => h.owner, hopened θ' hne,
    fun x' h => ⟨hholds θ' hne x' h, rfl, rfl, rfl⟩⟩, rfl⟩

/-- A change of files by the holder of the file lock. -/
lemma Safe.files (hholds : Holds θ m x) {disk : Disk} {temps : ℕ → Option FileContent}
    {nextTemp : ℕ} {log : List (Entry S)} (hok : Complete disk₀ (replacedOps log) disk) :
    Safe disk₀ θ m { m with disk := disk, temps := temps, nextTemp := nextTemp, log := log } := by
  refine ⟨hok, fun θ' hne => ⟨fun _ => id, fun hmu => ⟨hmu, rfl⟩, fun _ h => h.owner,
    fun _ h => h.handle, fun x' h => ?_⟩, rfl⟩
  exact absurd (eq_of_holds hholds h) hne

/-- The holder of the file lock still holds it after a change of files. -/
lemma Holds.files (h : Holds θ m x) (disk : Disk) (temps : ℕ → Option FileContent)
    (nextTemp : ℕ) (log : List (Entry S)) :
    Holds θ { m with disk := disk, temps := temps, nextTemp := nextTemp, log := log } x :=
  ⟨⟨⟨h.opened.owns.registry, h.opened.owns.owner⟩, h.opened.handle⟩, h.holder⟩

/-- Taking the file lock. -/
lemma takeFlock_ok {phase' : Phase S} (hok : Complete disk₀ (replacedOps m.log) m.disk)
    (hat : Opened θ m x) (hnext : next θ m (.takeFlock x) = some (phase', m')) :
    Safe disk₀ θ m m' ∧ phase'.At θ m' := by
  unfold next at hnext
  cases hlock : m.flock.tryLock x.handle with
  | none =>
    simp only [hlock] at hnext
    cases hnext
  | some f =>
    simp only [hlock] at hnext
    obtain ⟨-, hholder, howner, -⟩ := Flock.tryLock_eq_some hlock
    -- a thread that holds the lock already would share the description
    have hnobody : ∀ θ', θ' ≠ θ → ∀ x', ¬Holds θ' m x' := by
      intro θ' hne x' h
      exact hne (eq_of_handle hat h.opened (Flock.eq_of_tryLock hlock h.holder))
    have hsafe : Safe disk₀ θ m { m with flock := f, log := m.log ++ [⟨θ, x.op, false⟩] } := by
      refine ⟨?_, fun θ' hne => ⟨fun _ => id, fun hmu => ⟨hmu, rfl⟩, fun _ h => h.owner,
        fun x' h => ?_, fun x' h => absurd h (hnobody θ' hne x')⟩, rfl⟩
      · rw [replacedOps_acquire]
        exact hok
      · rw [howner]
        exact h.handle
    have hpending : Pending θ { m with flock := f, log := m.log ++ [⟨θ, x.op, false⟩] } x := by
      refine ⟨⟨⟨⟨hat.owns.registry, hat.owns.owner⟩, ?_⟩, hholder⟩, m.log, rfl⟩
      rw [howner]
      exact hat.handle
    split at hnext
    · cases hnext
      exact ⟨hsafe, hpending⟩
    · next hloads =>
      cases hnext
      exact ⟨hsafe, hpending, fun h => absurd h hloads⟩

/-- Reading the buys file. -/
lemma readText_ok {phase' : Phase S} (hok : Complete disk₀ (replacedOps m.log) m.disk)
    (hat : Pending θ m x) (hnext : next θ m (.readText x) = some (phase', m')) :
    Safe disk₀ θ m m' ∧ phase'.At θ m' := by
  unfold next at hnext
  cases hbuys : m.disk.buys with
  | none =>
    simp only [hbuys] at hnext
    cases hnext
    exact ⟨Safe.refl hok, hat, fun _ => by simp [Disk.memory, hbuys]⟩
  | some content =>
    cases content with
    | object data =>
      simp only [hbuys] at hnext
      cases hnext
      exact ⟨Safe.refl hok, hat, fun _ => by simp [Disk.memory, hbuys]⟩
    | undecodable =>
      simp only [hbuys] at hnext
      cases hnext
      exact ⟨Safe.refl hok, hat, fun _ => by simp [Disk.memory, hbuys]⟩
    | notJson =>
      simp only [hbuys] at hnext
      cases hnext
      exact ⟨Safe.refl hok, hat, hbuys, .inl rfl⟩
    | notObject =>
      simp only [hbuys] at hnext
      cases hnext
      exact ⟨Safe.refl hok, hat, hbuys, .inr rfl⟩

/-- Computing from the data that were loaded. -/
lemma compute_ok {phase' : Phase S} {data : Buys}
    (hok : Complete disk₀ (replacedOps m.log) m.disk) (hat : Pending θ m x)
    (hdata : x.op.call.loads = true → data = m.disk.memory)
    (hnext : next θ m (.compute x data) = some (phase', m')) :
    Safe disk₀ θ m m' ∧ phase'.At θ m' := by
  -- what does not load the file plans without its data
  have hplan : x.op.call.plan S data = x.op.call.plan S m.disk.memory := by
    cases hcall : x.op.call with
    | forgetAll => rfl
    | record | guardSell | forget => rw [hdata (by rw [hcall]; rfl)]
  simp only [next, hplan] at hnext
  rcases hresult : x.op.call.plan S m.disk.memory with e | ⟨data', _ | _⟩ <;>
    simp only [hresult] at hnext <;> cases hnext
  · exact ⟨Safe.refl hok, hat.holds⟩
  · exact ⟨Safe.refl hok, hat.holds⟩
  · exact ⟨Safe.refl hok, hat, hresult⟩

/-- The replace. -/
lemma replace_ok {phase' : Phase S} {data : Buys} {tmp : ℕ}
    (hok : Complete disk₀ (replacedOps m.log) m.disk) (hat : Planned θ m x data)
    (htemp : m.temps tmp = some (.object data))
    (hnext : next θ m (.replace x data tmp) = some (phase', m')) :
    Safe disk₀ θ m m' ∧ phase'.At θ m' ∧
      replacedOps m'.log = replacedOps m.log ++ [x.op] := by
  unfold next at hnext
  simp only [htemp] at hnext
  cases hnext
  obtain ⟨front, hlog⟩ := hat.pending.last
  have hops : replacedOps (markReplaced m.log) = replacedOps m.log ++ [x.op] := by
    rw [hlog]
    exact replacedOps_markReplaced front θ x.op
  refine ⟨Safe.files hat.pending.holds ?_, hat.pending.holds.files _ _ _ _, hops⟩
  rw [hops]
  exact hok.replace hat.plan

/-- Every step of a call establishes the assertion of the next phase. -/
theorem next_ok {phase phase' : Phase S} (hok : Complete disk₀ (replacedOps m.log) m.disk)
    (hat : phase.At θ m) (hnext : next θ m phase = some (phase', m')) :
    Safe disk₀ θ m m' ∧ phase'.At θ m' := by
  cases phase with
  | idle | finished => cases hnext
  | muEnter op =>
    simp only [next] at hnext
    split at hnext
    · next hfree =>
      cases hnext
      exact ⟨Safe.setMu hok (.inl hfree) _, Function.update_self _ _ _⟩
    · cases hnext
  | muLook op =>
    cases hentry : m.registry θ.pid with
    | none =>
      simp only [next, hentry] at hnext
      cases hnext
      exact ⟨Safe.refl hok, hat, hentry⟩
    | some lock =>
      simp only [next, hentry] at hnext
      cases hnext
      exact ⟨Safe.refl hok, hat, hentry⟩
  | muCreate op =>
    cases hnext
    exact ⟨Safe.create hok hat.1 hat.2, hat.1, Function.update_self _ _ _⟩
  | muLeave op lock =>
    cases hnext
    exact ⟨Safe.setMu hok (.inr hat.1) _, hat.2⟩
  | lockEnter op lock =>
    simp only [next] at hnext
    split at hnext
    · next hfree =>
      cases hnext
      exact ⟨Safe.setLockOwner hok (.inl hfree) _, hat, Function.update_self _ _ _⟩
    · cases hnext
  | openHandle op lock =>
    cases hnext
    refine ⟨Safe.setFlock hok (fun θ' _ x' h => Flock.owner_openFile_of_some h.handle)
      fun θ' _ x' h => h.holder, ⟨hat.registry, hat.owner⟩, Flock.owner_openFile_self⟩
  | takeFlock x => exact takeFlock_ok hok hat hnext
  | pathExists x =>
    cases hbuys : m.disk.buys with
    | none =>
      simp only [next, hbuys] at hnext
      cases hnext
      exact ⟨Safe.refl hok, hat, fun _ => by simp [Disk.memory, hbuys]⟩
    | some content =>
      simp only [next, hbuys] at hnext
      cases hnext
      exact ⟨Safe.refl hok, hat⟩
  | readText x => exact readText_ok hok hat hnext
  | quarantine x content =>
    cases hnext
    obtain ⟨hpending, hbuys, hcorrupt⟩ := hat
    have hcomplete := hok.quarantine hbuys hcorrupt
    refine ⟨Safe.files hpending.holds hcomplete,
      ⟨hpending.holds.files _ _ _ _, hpending.last⟩, fun _ => rfl⟩
  | compute x data => exact compute_ok hok hat.1 hat.2 hnext
  | mkstemp x data =>
    cases hnext
    exact ⟨Safe.files hat.pending.holds hok,
      ⟨hat.pending.holds.files _ _ _ _, hat.pending.last⟩, hat.plan⟩
  | writeTemp x data tmp =>
    cases hnext
    exact ⟨Safe.files hat.pending.holds hok,
      ⟨⟨hat.pending.holds.files _ _ _ _, hat.pending.last⟩, hat.plan⟩,
      Function.update_self _ _ _⟩
  | replace x data tmp =>
    obtain ⟨hsafe, hat', -⟩ := replace_ok hok hat.1 hat.2 hnext
    exact ⟨hsafe, hat'⟩
  | unlink x data tmp =>
    cases hnext
    exact ⟨Safe.files hat hok, hat.files _ _ _ _⟩
  | check x data =>
    cases hnext
    exact ⟨Safe.refl hok, hat⟩
  | unlock x outcome =>
    cases hnext
    refine ⟨Safe.setFlock hok (fun θ' _ x' h => h.handle) fun θ' hne x' h => ?_,
      ⟨hat.opened.owns.registry, hat.opened.owns.owner⟩, hat.opened.handle⟩
    exact absurd (eq_of_holds hat h) hne
  | close x outcome =>
    cases hnext
    have hother : ∀ θ', θ' ≠ θ → ∀ x', Opened θ' m x' → x'.handle ≠ x.handle :=
      fun θ' hne x' h heq => hne (eq_of_handle hat h heq)
    exact ⟨Safe.setFlock hok
      (fun θ' hne x' h => (Flock.owner_close_of_ne (hother θ' hne x' h)).trans h.handle)
      fun θ' hne x' h => Flock.holder_close_of_ne (hother θ' hne x' h.opened) h.holder,
      hat.owns.registry, hat.owns.owner⟩
  | lockLeave op lock outcome =>
    cases hnext
    exact ⟨Safe.setLockOwner hok (.inr hat.owner) _, trivial⟩

/-- What a step of a call does to the buys file: nothing that can be read, unless it is the
replace of its operation. -/
lemma next_memory {phase phase' : Phase S} (hok : Complete disk₀ (replacedOps m.log) m.disk)
    (hat : phase.At θ m) (hnext : next θ m phase = some (phase', m')) :
    (m'.disk.memory = m.disk.memory ∧ replacedOps m'.log = replacedOps m.log) ∨
      ∃ x data tmp, phase = .replace x data tmp ∧
        replacedOps m'.log = replacedOps m.log ++ [x.op] := by
  by_cases hreplace : ∃ x data tmp, phase = .replace x data tmp
  · obtain ⟨x, data, tmp, rfl⟩ := hreplace
    exact .inr ⟨x, data, tmp, rfl, (replace_ok hok hat.1 hat.2 hnext).2.2⟩
  · left
    have hops : replacedOps m'.log = replacedOps m.log := by
      cases phase with
      | replace x data tmp => exact absurd ⟨x, data, tmp, rfl⟩ hreplace
      | takeFlock x =>
        unfold next at hnext
        cases hlock : m.flock.tryLock x.handle with
        | none =>
          simp only [hlock] at hnext
          cases hnext
        | some f =>
          simp only [hlock] at hnext
          split at hnext <;> cases hnext <;> exact replacedOps_acquire m.log θ x.op
      | idle | finished => cases hnext
      | muEnter | lockEnter =>
        simp only [next] at hnext
        split at hnext <;> cases hnext
        rfl
      | muLook | pathExists =>
        simp only [next] at hnext
        split at hnext <;> cases hnext <;> rfl
      | readText =>
        simp only [next] at hnext
        split at hnext <;> cases hnext <;> rfl
      | compute =>
        simp only [next] at hnext
        split at hnext <;> cases hnext <;> rfl
      | muCreate | muLeave | openHandle | quarantine | mkstemp | writeTemp | unlink | check
      | unlock | close | lockLeave =>
        cases hnext
        rfl
    have hcomplete := (next_ok hok hat hnext).1.complete
    rw [hops] at hcomplete
    exact ⟨hcomplete.memory.trans hok.memory.symm, hops⟩

end Steps

/-! ## The outline -/

/-- An exit of a process disturbs no thread of another one. -/
lemma exit_rely (θ : ThreadId) (m : Machine S) (p : Pid) : Rely θ m (m.exit p) := by
  intro halive
  have hpid : θ.pid ≠ p := by
    rintro rfl
    simp [Machine.exit] at halive
  refine ⟨(Function.update_of_ne hpid _ _).symm.trans halive, ?_, ?_, ?_, ?_, ?_⟩
  · intro lock hlock
    exact (Function.update_of_ne hpid _ _).trans hlock
  · intro hmu
    exact ⟨(Function.update_of_ne hpid _ _).trans hmu, Function.update_of_ne hpid _ _⟩
  · intro lock h
    simp [Machine.exit, h.owner, hpid]
  · intro x h
    exact Flock.owner_exit_of_ne hpid h.handle
  · intro x h
    exact ⟨Flock.holder_exit_of_ne hpid h.opened.handle h.holder, rfl, rfl, rfl⟩

/-- A request is a step of a call, or starts one. -/
lemma act_cases {θ : ThreadId} {m m' : Machine S} {phase phase' : Phase S} {request : Request}
    (h : act θ m phase request = some (phase', m')) :
    m.exited θ.pid = false ∧ (next θ m phase = some (phase', m') ∨
      (m' = m ∧ ((∃ op, phase' = .muEnter op) ∨ ∃ call, phase' = .finished call (.ok ())))) := by
  cases request with
  | run =>
    simp only [act] at h
    split at h
    · cases h
    · next halive => exact ⟨by simpa using halive, .inl h⟩
  | start call =>
    simp only [act] at h
    split at h
    · next hready =>
      split at h <;> cases h
      · exact ⟨hready.2, .inr ⟨rfl, .inl ⟨_, rfl⟩⟩⟩
      · exact ⟨hready.2, .inr ⟨rfl, .inr ⟨_, rfl⟩⟩⟩
    · cases h

/-- The proof outline of the shared buy memory, on the files of earlier runs. -/
def outline (disk₀ : Disk) : (buyMemory S).interleaving.Outline where
  inv m := Complete disk₀ (replacedOps m.log) m.disk
  assertion θ phase m := phase.Assertion θ m
  rely := Rely
  thread_ok := by
    rintro θ phase m phase' m' hok hat ⟨request, hact⟩
    obtain ⟨halive, hnext | ⟨rfl, hphase⟩⟩ := act_cases hact
    · obtain ⟨hsafe, hat'⟩ := next_ok hok (hat halive) hnext
      refine ⟨hsafe.complete, fun _ => hat', fun θ' hne halive' => ⟨?_, hsafe.frame θ' hne⟩⟩
      rwa [hsafe.exited] at halive'
    · refine ⟨hok, fun _ => ?_, fun θ' _ halive' => ⟨halive', Frame.refl θ' _⟩⟩
      rcases hphase with ⟨op, rfl⟩ | ⟨call, rfl⟩ <;> trivial
  environment_ok := by
    rintro m m' hok ⟨p, rfl⟩
    exact ⟨hok, fun θ => exit_rely θ m p⟩
  stable := by
    intro θ phase m m' hrely hat halive
    obtain ⟨halive', hframe⟩ := hrely halive
    exact hframe.at (hat halive')

/-- The outline holds when no thread is in a call. -/
lemma outline_start (disk₀ : Disk) : (outline (S := S) disk₀).Holds (Config.start S disk₀) :=
  ⟨⟨rfl, .inl ⟨rfl, .inl rfl⟩⟩, fun _ _ => trivial⟩

/-- The outline holds in every reachable configuration. -/
lemma outline_reachable {disk₀ : Disk} {c : Config S}
    (h : (buyMemory S).interleaving.Reachable (Config.start S disk₀) c) :
    (outline disk₀).Holds c :=
  (outline disk₀).reachable (outline_start disk₀) h

/-- **No lost update and no torn state.** In every configuration that threads and processes reach,
with exits at any point, the buys file is complete and holds what the operations that have
replaced it leave, run one after the other in the order in which they took the file lock. What an
operation has read is what the file holds. A step changes nothing of this unless it is the replace
of an operation, which is then the last of them to have taken the lock.

**Proof sketch.** The holder of the file lock is one thread (`eq_of_holds`), so what it has read
and what it has planned stay true until its replace (`next_ok`); the outline carries this through
every interleaving. -/
theorem buyMemory_serial (disk₀ : Disk) (c : Config S)
    (h : (buyMemory S).interleaving.Reachable (Config.start S disk₀) c) :
    Complete disk₀ (replacedOps c.shared.log) c.shared.disk ∧
    (∀ θ x data, c.shared.exited θ.pid = false → c.localOf θ = .compute x data →
      x.op.call.loads = true → data = (serial disk₀ (replacedOps c.shared.log)).memory) ∧
    ∀ c', (buyMemory S).interleaving.Step c c' →
      (c'.shared.disk.memory = c.shared.disk.memory ∧
        replacedOps c'.shared.log = replacedOps c.shared.log) ∨
      ∃ θ x data tmp, c.localOf θ = .replace x data tmp ∧
        (∃ front, c.shared.log = front ++ [⟨θ, x.op, false⟩]) ∧
        replacedOps c'.shared.log = replacedOps c.shared.log ++ [x.op] := by
  obtain ⟨hok, hat⟩ := outline_reachable h
  refine ⟨hok, fun θ x data halive hphase hloads => ?_, fun c' hstep => ?_⟩
  · have hcompute := hat θ halive
    rw [hphase] at hcompute
    exact (hcompute.2 hloads).trans hok.memory
  · cases hstep with
    | thread θ hthread =>
      obtain ⟨request, hact⟩ := hthread
      obtain ⟨halive, hnext | ⟨rfl, -⟩⟩ := act_cases hact
      · rcases next_memory hok (hat θ halive) hnext with hsame | ⟨x, data, tmp, hphase, hops⟩
        · exact .inl hsame
        · have hreplace := hat θ halive
          rw [hphase] at hreplace
          exact .inr ⟨θ, x, data, tmp, hphase, hreplace.1.pending.last, hops⟩
      · exact .inl ⟨rfl, rfl⟩
    | environment henv =>
      obtain ⟨p, rfl⟩ := henv
      exact .inl ⟨rfl, rfl⟩

/-- A process exits just before it would replace the file with its buy; another one that was
waiting for the lock then records its own. -/
def crashBeforeReplace : List (Actors.Move ThreadId Request Pid) :=
  let btc : BuyCall := .record ⟨false, none⟩ 0 0 "BTC" (.fin 50000)
  let eth : BuyCall := .record ⟨false, none⟩ 0 0 "ETH" (.fin 3000)
  .ask ⟨1, 0⟩ (.start btc) :: List.replicate 11 (.ask ⟨1, 0⟩ .run) ++
    .ask ⟨2, 0⟩ (.start eth) :: List.replicate 6 (.ask ⟨2, 0⟩ .run) ++
    .event 1 :: List.replicate 11 (.ask ⟨2, 0⟩ .run)

/-- Only the buy of the process that lives is in the file. -/
theorem buyMemory_serial_crash :
    ∃ c, (buyMemory .ascii).performAll (Config.start .ascii ⟨none, []⟩) crashBeforeReplace =
        some c ∧
      c.shared.log.map (fun e => (e.thread, e.replaced)) = [(⟨1, 0⟩, false), (⟨2, 0⟩, true)] ∧
      c.shared.disk.memory.get? "ETH" = some (.at 3000 0) ∧
      c.shared.disk.memory.get? "BTC" = none ∧
      Complete ⟨none, []⟩ (replacedOps c.shared.log) c.shared.disk := by
  have hrun : ((buyMemory .ascii).performAll (Config.start .ascii ⟨none, []⟩)
      crashBeforeReplace).any (fun c => decide
        (c.shared.log.map (fun e => (e.thread, e.replaced)) = [(⟨1, 0⟩, false), (⟨2, 0⟩, true)] ∧
          c.shared.disk.memory.get? "ETH" = some (.at 3000 0) ∧
          c.shared.disk.memory.get? "BTC" = none)) = true := by
    decide
  obtain ⟨c, hc, htest⟩ := (Option.any_eq_true _ _).mp hrun
  obtain ⟨hlog, heth, hbtc⟩ := of_decide_eq_true htest
  exact ⟨c, hc, hlog, heth, hbtc,
    (buyMemory_serial ⟨none, []⟩ c (Actors.reachable_of_performAll hc)).1⟩

end KeelTrader.Core.SharedBuys
