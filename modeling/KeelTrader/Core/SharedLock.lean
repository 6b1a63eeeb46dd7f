import KeelTrader.Core.LiveWriter

set_option relaxedAutoImplicit false
set_option autoImplicit false

/-!
# One lock object for several holders

A second `acquire_alpaca_account_lock` by the same service returns the lock object of the first,
and nobody counts the holders: the first `release` of the object gives the lock up for all of them.
What an acquire returned is valid until somebody in the process releases that object.

## Main definitions

* `KeelTrader.Core.LiveWriter.lockActors` — the threads with their requests, and process exits.
* `KeelTrader.Core.LiveWriter.acquisitions`, `releases` — the successful acquires and the releases
  of a process in a run.
* `KeelTrader.Core.LiveWriter.Intact` — what a run without a release of the object keeps.

## Main results

* `KeelTrader.Core.LiveWriter.intact_run` — in such a run the object stays live.
* `KeelTrader.Core.LiveWriter.held_until_released` — until the object is released, its process
  holds the kernel lock, and no other process acquires it.
-/

namespace KeelTrader.Core.LiveWriter

/-- The threads with their requests, and process exits. -/
def lockActors (S : PyStr) (account : String) : Actors ThreadId Phase Machine Request Pid where
  act := act S account
  event p m := m.exit p

/-- A request to a thread, or the exit of a process. -/
abbrev LockMove := Actors.Move ThreadId Request Pid

/-- A call of `acquire_alpaca_account_lock` is over, and returned a lock object. -/
def Phase.hasLock : Phase → Bool
  | .finished _ (.lock _) => true
  | _ => false

/-- The move ended an acquire of process `p` with a lock object. -/
def acquires (p : Pid) (move : LockMove) (c' : Config) : Bool :=
  match move with
  | .ask θ .run => decide (θ.pid = p) && (c'.localOf θ).hasLock
  | _ => false

/-- The number of successful acquires of process `p` in a run. -/
def acquisitions (S : PyStr) (account : String) (p : Pid) : Config → List LockMove → ℕ
  | _, [] => 0
  | c, move :: moves =>
    match (lockActors S account).perform c move with
    | none => 0
    | some c' => (if acquires p move c' then 1 else 0) + acquisitions S account p c' moves

/-- The number of releases that the threads of process `p` call in a run. -/
def releases (p : Pid) (moves : List LockMove) : ℕ :=
  moves.countP fun move =>
    match move with
    | .ask θ (.release _) => decide (θ.pid = p)
    | _ => false

/-- No release of the lock object has been called, and whoever of process `p` an acquire has
returned it to last holds a live object. -/
structure Intact (S : PyStr) (account : String) (p : Pid) (lock : ℕ) (c : Config) : Prop where
  holds : (outline S account).Holds c
  unreleased : ∀ θ, (c.localOf θ).releasing ≠ some lock
  returned : ∀ θ call, θ.pid = p → c.localOf θ = .finished call (.lock lock) →
    c.shared.Live p lock

section Runs

variable {S : PyStr} {account : String} {p : Pid} {lock : ℕ} {c c' : Config} {move : LockMove}
  {moves : List LockMove} {content : Option LockPayload}

/-! ## Steps -/

/-- A call that is no release does not turn into one. -/
lemma next_releasing {θ : ThreadId} {m m' : Machine} {phase phase' : Phase}
    (hnext : next θ m phase = some (phase', m')) (h : phase'.releasing = some lock) :
    phase.releasing = some lock := by
  cases phase with
  | idle | finished => cases hnext
  | acqEnter call | relEnter h' | relReenter h' =>
    obtain ⟨m₁, -, hstep⟩ := Option.map_eq_some_iff.mp hnext
    cases hstep
    exact h
  | acqLook | acqFound | acqFlock | relTest | relSet | relGet =>
    simp only [next] at hnext
    repeat' split at hnext
    all_goals cases hnext
    all_goals exact h
  | acqOpen | acqRefused | acqClose | acqTruncate | acqWrite | acqCreate | acqRegister
  | acqLeave | relExit | relUnlock | relClose | relPop | relLeave =>
    cases hnext
    first | exact h | cases h

/-- Only a request to release the lock object starts a release of it. -/
lemma act_releasing {θ : ThreadId} {m m' : Machine} {phase phase' : Phase} {request : Request}
    (hact : act S account θ m phase request = some (phase', m'))
    (hne : request ≠ .release lock) (h : phase'.releasing = some lock) :
    phase.releasing = some lock := by
  cases request with
  | run =>
    simp only [act] at hact
    split at hact
    · cases hact
    · exact next_releasing hact h
  | acquire call =>
    simp only [act] at hact
    split at hact <;> cases hact
    cases h
  | release h' =>
    simp only [act] at hact
    split at hact <;> cases hact
    cases h
    exact absurd rfl hne

/-- A move changes the phase of the thread that it asks, if any. -/
lemma perform_phase (hperform : (lockActors S account).perform c move = some c') (θ : ThreadId) :
    c'.localOf θ = c.localOf θ ∨ ∃ request, move = .ask θ request ∧
      act S account θ c.shared (c.localOf θ) request = some (c'.localOf θ, c'.shared) := by
  cases move with
  | event q =>
    cases hperform
    exact .inl rfl
  | ask θ' request =>
    obtain ⟨⟨phase', m'⟩, hact, rfl⟩ := Option.map_eq_some_iff.mp hperform
    dsimp only
    by_cases hθ : θ = θ'
    · subst hθ
      rw [Function.update_self]
      exact .inr ⟨request, rfl, hact⟩
    · rw [Function.update_of_ne hθ]
      exact .inl rfl

/-- A live lock object that nobody releases stays live, unless its process exits. -/
lemma live_perform (hholds : (outline S account).Holds c)
    (hunreleased : ∀ θ, (c.localOf θ).releasing ≠ some lock)
    (hperform : (lockActors S account).perform c move = some c') (halive : move ≠ .event p)
    (hlive : c.shared.Live p lock) : c'.shared.Live p lock := by
  have hstep : (accountLock S account).Step c c' := Actors.step_of_perform hperform
  rcases live_step hholds hstep hlive with hlive' | ⟨θ, -, hphase⟩ | hexited
  · exact hlive'
  · refine absurd ?_ (hunreleased θ)
    rw [hphase]
    rfl
  · -- a step of a thread makes no process exit
    have hbefore : c.shared.exited p = false := hholds.1.lock_alive p lock hlive.owned
    cases move with
    | ask θ request =>
      obtain ⟨⟨phase', m'⟩, hact, rfl⟩ := Option.map_eq_some_iff.mp hperform
      have hsafe := (act_ok hholds.1 (hholds.2 θ) hact).1
      rw [hsafe.exited, hbefore] at hexited
      cases hexited
    | event q =>
      cases hperform
      have hne : p ≠ q := by
        rintro rfl
        exact halive rfl
      have hsame := exited_exit_of_ne (m := c.shared) hne
      rw [show (c.shared.exit q).exited p = true from hexited, hbefore] at hsame
      cases hsame

/-- **Steps.** A move that neither releases the lock object nor ends its process keeps it intact,
and live if it was. -/
theorem intact_perform (h : Intact S account p lock c)
    (hperform : (lockActors S account).perform c move = some c')
    (hne : ∀ θ, move ≠ .ask θ (.release lock)) (halive : move ≠ .event p) :
    Intact S account p lock c' ∧ (c.shared.Live p lock → c'.shared.Live p lock) := by
  have hlive := live_perform h.holds h.unreleased hperform halive
  have hholds : (outline S account).Holds c' :=
    (outline S account).holds_step h.holds (Actors.step_of_perform hperform)
  refine ⟨⟨hholds, ?_, ?_⟩, hlive⟩
  · intro θ hrel
    rcases perform_phase hperform θ with hsame | ⟨request, rfl, hact⟩
    · rw [hsame] at hrel
      exact h.unreleased θ hrel
    · exact h.unreleased θ (act_releasing hact (fun heq => hne θ (by rw [heq])) hrel)
  · intro θ call hp hfinished
    rcases perform_phase hperform θ with hsame | ⟨request, rfl, hact⟩
    · rw [hsame] at hfinished
      exact hlive (h.returned θ call hp hfinished)
    · rw [hfinished] at hact
      rcases finished_step h.holds ⟨request, hact⟩ with ⟨lock', heq, hlive', -⟩ | ⟨-, e, heq⟩ |
        ⟨-, heq⟩ <;> cases heq
      rw [← hp]
      exact hlive'

/-- **Runs.** A run in which the lock object is not released and its process does not exit keeps it
intact, and live if it was. -/
theorem intact_run (h : Intact S account p lock c)
    (hrun : (lockActors S account).performAll c moves = some c')
    (hne : ∀ θ, .ask θ (.release lock) ∉ moves) (halive : .event p ∉ moves) :
    Intact S account p lock c' ∧ (c.shared.Live p lock → c'.shared.Live p lock) := by
  induction moves generalizing c with
  | nil =>
    cases hrun
    exact ⟨h, id⟩
  | cons move moves ih =>
    obtain ⟨c₁, hfirst, hrest⟩ := Option.bind_eq_some_iff.mp hrun
    obtain ⟨hintact, hlive⟩ := intact_perform h hfirst
      (fun θ heq => hne θ (heq ▸ List.mem_cons_self)) (fun heq => halive (heq ▸ List.mem_cons_self))
    obtain ⟨hintact', hlive'⟩ := ih hintact hrest
      (fun θ hmem => hne θ (List.mem_cons_of_mem _ hmem))
      (fun hmem => halive (List.mem_cons_of_mem _ hmem))
    exact ⟨hintact', fun hl => hlive' (hlive hl)⟩

/-- A machine where nobody is in a call. -/
lemma intact_start (content : Option LockPayload) (p : Pid) (lock : ℕ) :
    Intact S account p lock (Config.start content) where
  holds := outline_start content
  unreleased θ h := by cases h
  returned θ call _ h := by cases h

/-! ## Until the release -/

/-- No other process acquires the lock of a live lock object. -/
lemma other_acquire (hholds : (outline S account).Holds c) (hlive : c.shared.Live p lock)
    {θ : ThreadId} (hne : θ.pid ≠ p) {call : AcquireCall} {outcome : Outcome} {m' : Machine}
    (hstep : (accountLock S account).thread θ (c.localOf θ) c.shared (.finished call outcome) m')
    (h : ℕ) : outcome ≠ .lock h := by
  rintro rfl
  obtain ⟨hheld, howner⟩ := hholds.1.live_holds p lock hlive
  rcases finished_step hholds hstep with ⟨lock', heq, hlive', hheld'⟩ | ⟨-, e, heq⟩ | ⟨-, heq⟩ <;>
    cases heq
  -- the call only left its critical section
  obtain ⟨request, hact⟩ := hstep
  obtain ⟨-, hnext | ⟨-, ⟨_, hphase⟩ | ⟨_, hphase, -⟩⟩⟩ := act_cases hact
  · obtain ⟨result, -, -, rfl⟩ := next_finished hnext
    have heq : lock = h := Option.some.inj (hheld.symm.trans hheld')
    subst heq
    obtain ⟨l, hl, hpid, -⟩ := hlive
    obtain ⟨l', hl', hpid', -⟩ := hlive'
    have hsame : l = l' := Option.some.inj (hl.symm.trans hl')
    exact hne (hpid'.symm.trans (hsame ▸ hpid))
  · cases hphase
  · cases hphase

/-- A description of another process does not get a lock that is held. -/
lemma tryLock_of_held {f : Flock Pid} {d : ℕ} {q : Pid} (hheld : f.holder = some lock)
    (howner : f.owner lock = some p) (hd : f.owner d = some q) (hne : q ≠ p) :
    f.tryLock d = none := by
  cases htry : f.tryLock d with
  | none => rfl
  | some f' =>
    have heq := Flock.eq_of_tryLock htry hheld
    rw [← heq, howner] at hd
    exact absurd (Option.some.inj hd).symm hne

/-- **One object, several holders.** Once an acquire has returned a lock object, then as long as
nobody has called a release of this object and the process has not exited, in any interleaving of
the calls of all threads and processes the process holds the kernel lock through the object, every
other process fails to lock the file, and none of its acquires returns a lock object. -/
theorem held_until_released {pre post : List LockMove} {c₁ : Config} {θ : ThreadId}
    {call : AcquireCall}
    (hpre : (lockActors S account).performAll (Config.start content) pre = some c₁)
    (hreturned : c₁.localOf θ = .finished call (.lock lock))
    (hpost : (lockActors S account).performAll c₁ post = some c)
    (hunreleased : ∀ θ', .ask θ' (.release lock) ∉ pre ++ post)
    (halive : .event θ.pid ∉ pre ++ post) :
    c.shared.flock.holder = some lock ∧ c.shared.flock.owner lock = some θ.pid ∧
      (∀ d q, c.shared.flock.owner d = some q → q ≠ θ.pid → c.shared.flock.tryLock d = none) ∧
      ∀ θ' call' outcome m', θ'.pid ≠ θ.pid →
        (accountLock S account).thread θ' (c.localOf θ') c.shared (.finished call' outcome) m' →
        ∀ h, outcome ≠ .lock h := by
  obtain ⟨hintact, -⟩ := intact_run (intact_start content θ.pid lock) hpre
    (fun θ' hmem => hunreleased θ' (List.mem_append_left _ hmem))
    (fun hmem => halive (List.mem_append_left _ hmem))
  have hlive₁ := hintact.returned θ call rfl hreturned
  obtain ⟨hintact', hlive⟩ := intact_run hintact hpost
    (fun θ' hmem => hunreleased θ' (List.mem_append_right _ hmem))
    (fun hmem => halive (List.mem_append_right _ hmem))
  obtain ⟨hheld, howner⟩ := hintact'.holds.1.live_holds _ _ (hlive hlive₁)
  refine ⟨hheld, howner, fun d q hd hne => tryLock_of_held hheld howner hd hne, ?_⟩
  intro θ' call' outcome m' hne hstep
  exact other_acquire hintact'.holds (hlive hlive₁) hne hstep

end Runs

/-! ## Two acquires and one release -/

/-- `acquire_alpaca_account_lock`, and the steps of the call. -/
def acquireMoves (p : Pid) (service : String) (steps : ℕ) : List LockMove :=
  .ask ⟨p, 0⟩ (.acquire ⟨service, "live_writer", false⟩) ::
    List.replicate steps (.ask ⟨p, 0⟩ .run)

/-- A release of the lock object, and the steps of the call. -/
def releaseMoves (p : Pid) (lock : ℕ) : List LockMove :=
  .ask ⟨p, 0⟩ (.release lock) :: List.replicate 10 (.ask ⟨p, 0⟩ .run)

/-- A process acquires the lock twice. -/
def acquiredTwice : List LockMove := acquireMoves 1 "svc_a" 9 ++ acquireMoves 1 "svc_a" 4

/-- The process releases the lock object once, and another process acquires the lock. -/
theorem not_held_after_one_release :
    ∃ c c', (lockActors .ascii "live_writer").performAll (Config.start none)
        (acquiredTwice ++ releaseMoves 1 0) = some c ∧
      acquisitions .ascii "live_writer" 1 (Config.start none)
        (acquiredTwice ++ releaseMoves 1 0) = 2 ∧
      releases 1 (acquiredTwice ++ releaseMoves 1 0) = 1 ∧
      c.shared.flock.holder = none ∧
      (lockActors .ascii "live_writer").performAll c (acquireMoves 2 "svc_b" 9) = some c' ∧
      c'.localOf ⟨2, 0⟩ = .finished ⟨"svc_b", "live_writer", false⟩ (.lock 1) := by
  have hsome : ((lockActors .ascii "live_writer").performAll (Config.start none)
      (acquiredTwice ++ releaseMoves 1 0)).isSome = true := by decide +kernel
  have hc := (Option.some_get hsome).symm
  have hsome' : ((lockActors .ascii "live_writer").performAll (Option.get _ hsome)
      (acquireMoves 2 "svc_b" 9)).isSome = true := rfl
  exact ⟨_, _, hc, by decide +kernel, by decide +kernel, rfl, (Option.some_get hsome').symm, rfl⟩

/-- While the process has released nothing, it holds the kernel lock after the second acquire and
an attempt of another process. -/
theorem held_until_released_twice :
    ∃ c₁ c, (lockActors .ascii "live_writer").performAll (Config.start none)
        (acquireMoves 1 "svc_a" 9) = some c₁ ∧
      (lockActors .ascii "live_writer").performAll c₁
        (acquireMoves 1 "svc_a" 4 ++ acquireMoves 2 "svc_b" 7) = some c ∧
      c.shared.flock.holder = some 0 ∧ c.shared.flock.owner 0 = some 1 := by
  have hsome : ((lockActors .ascii "live_writer").performAll (Config.start none)
      (acquireMoves 1 "svc_a" 9)).isSome = true := by decide +kernel
  have hpre := (Option.some_get hsome).symm
  have hreturned : (Option.get _ hsome).localOf ⟨1, 0⟩ =
      .finished ⟨"svc_a", "live_writer", false⟩ (.lock 0) := rfl
  have hsome' : ((lockActors .ascii "live_writer").performAll (Option.get _ hsome)
      (acquireMoves 1 "svc_a" 4 ++ acquireMoves 2 "svc_b" 7)).isSome = true := rfl
  have hpost := (Option.some_get hsome').symm
  obtain ⟨hheld, howner, -⟩ := held_until_released hpre hreturned hpost
    (by intro θ'; simp [acquireMoves]) (by simp [acquireMoves])
  exact ⟨_, _, hpre, hpost, hheld, howner⟩

end KeelTrader.Core.LiveWriter
