import Mathlib.Data.List.Basic
import Mathlib.Data.List.Infix
import Mathlib.Tactic

set_option relaxedAutoImplicit false
set_option autoImplicit false

/-!
# Where a fact of a run comes from

A run is a fold of a step function over its events. A fact that holds at the end of the run, and
not at its start, was brought about by one of the events, and holds ever since: by the last event
before which it did not hold.

## Main results

* `Origin.exists_origin` — the event that brought a fact about.
* `Origin.not_mem_of_from` — since then no event happened that ends the fact.
-/

namespace Origin

variable {σ ε : Type} {step : σ → ε → σ} {P : σ → Prop} {s : σ} {events : List ε}

/-- `P` comes from the event between `front` and `rest`, and holds ever since. -/
structure From (step : σ → ε → σ) (P : σ → Prop) (s : σ) (front : List ε) (e : ε)
    (rest : List ε) : Prop where
  before : ¬P (front.foldl step s)
  after : P (step (front.foldl step s) e)
  since : ∀ mid, mid <+: rest → P (mid.foldl step (step (front.foldl step s) e))

/-- **Origin.** What holds at the end of a run, and not at its start, comes from an event. -/
theorem exists_origin (hstart : ¬P s) (hend : P (events.foldl step s)) :
    ∃ front e rest, events = front ++ e :: rest ∧ From step P s front e rest := by
  induction events using List.reverseRecOn with
  | nil => exact absurd hend hstart
  | append_singleton events e ih =>
    rw [List.foldl_append] at hend
    by_cases hbefore : P (events.foldl step s)
    · -- the origin is an earlier event, and `P` also holds after the last one
      obtain ⟨front, e', rest, rfl, horigin⟩ := ih hbefore
      refine ⟨front, e', rest ++ [e], by simp, horigin.before, horigin.after, fun mid hmid => ?_⟩
      rcases List.prefix_concat_iff.mp hmid with rfl | hmid
      · simpa [List.foldl_append] using hend
      · exact horigin.since mid hmid
    · refine ⟨events, e, [], rfl, hbefore, hend, fun mid hmid => ?_⟩
      rw [List.prefix_nil.mp hmid]
      exact hend

/-- An event that ends a fact does not happen after its origin. -/
theorem not_mem_of_from {front rest : List ε} {e e' : ε} (h : From step P s front e rest)
    (hends : ∀ t, ¬P (step t e')) : e' ∉ rest := by
  intro hmem
  obtain ⟨before, after, rfl⟩ := List.append_of_mem hmem
  have hsince := h.since (before ++ [e']) ⟨after, by simp⟩
  rw [List.foldl_append] at hsince
  exact hends _ hsince

end Origin
