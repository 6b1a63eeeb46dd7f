import Mathlib.Algebra.Order.Group.Defs
import Mathlib.Data.Option.Basic
import Mathlib.Tactic

set_option relaxedAutoImplicit false
set_option autoImplicit false

/-!
# Expiring memories

A keyed memory in which every value carries the time it was written, and from which values
older than a window are pruned now and then. Pruning may happen at any moments: whatever they
are, the memory holds the last write of every key that is still inside the window, and holds
nothing but last writes.

## Main definitions

* `Expiring.Memory K V T` — what is remembered under each key, and since when.
* `Expiring.prune`, `Expiring.write` — its two operations.
* `Expiring.Remembers window now last m` — `m` holds last writes only, and every last write
  that is inside the window at `now`.

## Main results

* `Expiring.Remembers.prune`, `Expiring.Remembers.write` — both operations keep it.
* `Expiring.Remembers.mono` — it survives the passage of time.
-/

namespace Expiring

variable {K V T : Type}

/-- What is remembered under each key, with the time it was written. -/
abbrev Memory (K V T : Type) : Type := K → Option (V × T)

section Prune

variable [AddCommGroup T] [LinearOrder T]

/-- Forget what is older than `window` at the time `now`. -/
def prune (window now : T) (m : Memory K V T) : Memory K V T :=
  fun k => (m k).filter fun r => decide (now - r.2 ≤ window)

lemma prune_eq_some {window now : T} {m : Memory K V T} {k : K} {r : V × T} :
    prune window now m k = some r ↔ m k = some r ∧ now - r.2 ≤ window := by
  simp [prune, Option.filter_eq_some_iff]

end Prune

/-- Remember `v` under `k` since `t`. -/
def write [DecidableEq K] (k : K) (v : V) (t : T) (m : Memory K V T) : Memory K V T :=
  Function.update m k (some (v, t))

/-- `m` holds last writes only, and every last write that is inside the window at `now`. The
last writes are those of a memory `last` that is never pruned. -/
structure Remembers [AddCommGroup T] [LinearOrder T] (window now : T) (last m : Memory K V T) :
    Prop where
  /-- Nothing but last writes. -/
  sound : ∀ k r, m k = some r → last k = some r
  /-- Every last write inside the window. -/
  complete : ∀ k r, last k = some r → now - r.2 ≤ window → m k = some r

namespace Remembers

variable [AddCommGroup T] [LinearOrder T] {window now t : T} {last m : Memory K V T}

/-- An empty memory, when nothing was ever written. -/
lemma empty : Remembers window now (fun _ => none : Memory K V T) fun _ => none where
  sound := by simp
  complete := by simp

/-- A write is remembered, and is the last of its key. -/
theorem write [DecidableEq K] (h : Remembers window now last m) (k : K) (v : V) (t : T) :
    Remembers window now (Expiring.write k v t last) (Expiring.write k v t m) where
  sound := by
    intro k' r hr
    by_cases hk : k' = k
    · subst hk
      simpa [Expiring.write] using hr
    · simp only [Expiring.write, Function.update_of_ne hk] at hr ⊢
      exact h.sound k' r hr
  complete := by
    intro k' r hr hin
    by_cases hk : k' = k
    · subst hk
      simpa [Expiring.write] using hr
    · simp only [Expiring.write, Function.update_of_ne hk] at hr ⊢
      exact h.complete k' r hr hin

variable [IsOrderedAddMonoid T]

/-- As time passes, fewer writes are inside the window. -/
theorem mono (h : Remembers window now last m) (hle : now ≤ t) :
    Remembers window t last m where
  sound := h.sound
  complete := by
    intro k r hr hin
    exact h.complete k r hr (le_trans (sub_le_sub_right hle r.2) hin)

/-- Pruning at a later time forgets only what has left the window. -/
theorem prune (h : Remembers window now last m) (hle : now ≤ t) :
    Remembers window t last (Expiring.prune window t m) where
  sound := by
    intro k r hr
    exact h.sound k r (prune_eq_some.mp hr).1
  complete := by
    intro k r hr hin
    exact prune_eq_some.mpr ⟨(h.mono hle).complete k r hr hin, hin⟩

end Remembers

end Expiring
