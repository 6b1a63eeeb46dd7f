import Mathlib.Data.Option.Basic
import Mathlib.Logic.Function.Basic
import Mathlib.Tactic

set_option relaxedAutoImplicit false
set_option autoImplicit false

/-!
# Exclusive file locks

The exclusive advisory lock of one file, held by an open file description. It is dropped by
unlocking or closing the description, and when the process that opened it exits.

## Main definitions

* `Flock P` — the open descriptions of the file, the process of each, and the one that holds the
  lock.
* `Flock.openFile`, `tryLock`, `unlock`, `close`, `exit` — the operations of the kernel.

## Main results

* `Flock.tryLock_eq_some` — when an attempt succeeds, and what it does.
* `Flock.holder_unlock_of_ne`, `holder_close_of_ne`, `holder_exit_of_ne` — the lock of another
  description is kept.
-/

/-- The open file descriptions of one file, and the one that holds its exclusive lock. -/
structure Flock (P : Type) where
  /-- The next description. -/
  next : ℕ
  /-- The process of an open description. -/
  owner : ℕ → Option P
  /-- The description that holds the lock. -/
  holder : Option ℕ
  /-- Descriptions are numbered in the order they are opened. -/
  fresh : ∀ d, next ≤ d → owner d = none
  /-- The lock is held by an open description. -/
  holder_open : ∀ d, holder = some d → owner d ≠ none

namespace Flock

variable {P : Type}

/-- A file that nobody has open. -/
def empty : Flock P where
  next := 0
  owner _ := none
  holder := none
  fresh _ _ := rfl
  holder_open _ h := nomatch h

/-- An open description has a number already. -/
lemma lt_next (f : Flock P) {d : ℕ} {p : P} (h : f.owner d = some p) : d < f.next := by
  by_contra hnot
  rw [f.fresh d (not_lt.mp hnot)] at h
  cases h

/-- `open`: the new description is `f.next`. -/
def openFile (f : Flock P) (p : P) : Flock P where
  next := f.next + 1
  owner := Function.update f.owner f.next (some p)
  holder := f.holder
  fresh d hd := by
    rw [Function.update_of_ne (by omega)]
    exact f.fresh d (by omega)
  holder_open d hd := by
    by_cases hnew : d = f.next
    · simp [hnew]
    · rw [Function.update_of_ne hnew]
      exact f.holder_open d hd

/-- `flock(LOCK_EX | LOCK_NB)`; `none` when it would block. -/
def tryLock (f : Flock P) (d : ℕ) : Option (Flock P) :=
  if h : f.owner d ≠ none ∧ (f.holder = none ∨ f.holder = some d) then
    some { f with holder := some d, holder_open := by rintro _ ⟨⟩; exact h.1 }
  else none

/-- `flock(LOCK_UN)`. -/
def unlock (f : Flock P) (d : ℕ) : Flock P where
  next := f.next
  owner := f.owner
  holder := if f.holder = some d then none else f.holder
  fresh := f.fresh
  holder_open d' hd' := by
    split at hd'
    · cases hd'
    · exact f.holder_open d' hd'

/-- `close`. -/
def close (f : Flock P) (d : ℕ) : Flock P where
  next := f.next
  owner := Function.update f.owner d none
  holder := if f.holder = some d then none else f.holder
  fresh d' hd' := by
    by_cases h : d' = d
    · simp [h]
    · rw [Function.update_of_ne h]
      exact f.fresh d' hd'
  holder_open d' hd' := by
    split at hd'
    · cases hd'
    · next hne =>
      rw [Function.update_of_ne (by rintro rfl; exact hne hd')]
      exact f.holder_open d' hd'

/-- The process `p` exits, which closes its descriptions. -/
def exit [DecidableEq P] (f : Flock P) (p : P) : Flock P where
  next := f.next
  owner d := if f.owner d = some p then none else f.owner d
  holder := f.holder.filter fun d => f.owner d ≠ some p
  fresh d hd := by simp [f.fresh d hd]
  holder_open d hd := by
    obtain ⟨hheld, hother⟩ := Option.filter_eq_some_iff.mp hd
    rw [if_neg (by simpa using hother)]
    exact f.holder_open d hheld

section

variable {f f' : Flock P} {d d' : ℕ} {p : P}

lemma owner_openFile_self : (f.openFile p).owner f.next = some p := by
  simp [openFile]

lemma owner_openFile_of_some {q : P} (h : f.owner d = some q) :
    (f.openFile p).owner d = some q := by
  have hlt := f.lt_next h
  show Function.update f.owner f.next (some p) d = some q
  rw [Function.update_of_ne (by omega)]
  exact h

/-- When an attempt to lock succeeds, and what it does. -/
theorem tryLock_eq_some (h : f.tryLock d = some f') :
    (f.holder = none ∨ f.holder = some d) ∧ f'.holder = some d ∧ f'.owner = f.owner ∧
      f'.next = f.next := by
  unfold tryLock at h
  split at h
  · next hfree =>
    cases h
    exact ⟨hfree.2, rfl, rfl, rfl⟩
  · cases h

/-- A lock that is held is not taken away. -/
lemma eq_of_tryLock (h : f.tryLock d = some f') (hheld : f.holder = some d') : d' = d := by
  rcases (tryLock_eq_some h).1 with hnone | hsome
  · rw [hnone] at hheld
    cases hheld
  · rw [hsome] at hheld
    exact (Option.some.inj hheld).symm

theorem holder_unlock_of_ne (hne : d' ≠ d) (h : f.holder = some d') :
    (f.unlock d).holder = some d' := by
  simp [unlock, h, hne]

theorem holder_close_of_ne (hne : d' ≠ d) (h : f.holder = some d') :
    (f.close d).holder = some d' := by
  simp [close, h, hne]

lemma owner_close_of_ne (hne : d' ≠ d) : (f.close d).owner d' = f.owner d' :=
  Function.update_of_ne hne _ _

theorem holder_exit_of_ne [DecidableEq P] {q : P} (hne : q ≠ p) (howner : f.owner d = some q)
    (h : f.holder = some d) : (f.exit p).holder = some d := by
  simp [exit, h, howner, hne]

/-- An exit leaves no description of the process open. -/
lemma ne_of_owner_exit [DecidableEq P] {q : P} (h : (f.exit p).owner d = some q) :
    f.owner d = some q ∧ q ≠ p := by
  by_cases hp : f.owner d = some p
  · simp [exit, hp] at h
  · have hq : f.owner d = some q := by simpa [exit, hp] using h
    refine ⟨hq, ?_⟩
    rintro rfl
    exact hp hq

lemma owner_exit_of_ne [DecidableEq P] {q : P} (hne : q ≠ p) (howner : f.owner d = some q) :
    (f.exit p).owner d = some q := by
  simp [exit, howner, hne]

end

end Flock
