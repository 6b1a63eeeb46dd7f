import Mathlib.Data.List.Basic
import Mathlib.Tactic

set_option relaxedAutoImplicit false
set_option autoImplicit false

/-!
# Recorded runs

A run of a partial step function with all the states it went through, so that a property can
speak of two moments of the run at once: of what was seen at one moment, and of what is true at a
later one.

## Main definitions

* `RecordedRun step` — the events of a run and the state before and after each.
* `RecordedRun.Seen` — what an observer has seen up to a moment.
* `RecordedRun.replay` — the run of a list of events that are all possible.

## Main results

* `RecordedRun.invariant` — what holds at the start and is kept by the steps holds at every moment.
* `RecordedRun.seen_succ` — what has been seen after one more event.
-/

/-- The events of a run, and the states it goes through. -/
structure RecordedRun {σ ε : Type} (step : σ → ε → Option σ) where
  events : List ε
  state : ℕ → σ
  step_eq : ∀ k (hk : k < events.length), step (state k) events[k] = some (state (k + 1))

namespace RecordedRun

variable {σ ε ν : Type} {step : σ → ε → Option σ}

/-- **Invariants.** What holds at the start and is kept by every step holds at every moment. -/
theorem invariant (r : RecordedRun step) {P : σ → Prop} (h0 : P (r.state 0))
    (hstep : ∀ s e s', P s → step s e = some s' → P s') :
    ∀ k, k ≤ r.events.length → P (r.state k) := by
  intro k
  induction k with
  | zero => exact fun _ => h0
  | succ k ih =>
    intro hk
    apply hstep _ _ _ (ih (by omega))
    exact r.step_eq k (by omega)

/-! ## Observations -/

/-- `v` has been observed up to the moment `k`. -/
def Seen (r : RecordedRun step) (obs : σ → Option ν) (k : ℕ) (v : ν) : Prop :=
  ∃ i ≤ k, obs (r.state i) = some v

variable {r : RecordedRun step} {obs : σ → Option ν} {k : ℕ} {v : ν}

lemma seen_of_obs (h : obs (r.state k) = some v) : r.Seen obs k v := ⟨k, le_rfl, h⟩

/-- Something is seen for the first time, or was seen before. -/
theorem seen_succ : r.Seen obs (k + 1) v ↔ r.Seen obs k v ∨ obs (r.state (k + 1)) = some v := by
  constructor
  · rintro ⟨i, hi, hv⟩
    rcases Nat.le_succ_iff.mp hi with hle | rfl
    · exact Or.inl ⟨i, hle, hv⟩
    · exact Or.inr hv
  · rintro (⟨i, hi, hv⟩ | hv)
    · exact ⟨i, by omega, hv⟩
    · exact seen_of_obs hv

/-- A step that leaves the observation as it is shows nothing new. -/
lemma seen_succ_of_eq (h : obs (r.state (k + 1)) = obs (r.state k)) :
    r.Seen obs (k + 1) v ↔ r.Seen obs k v := by
  rw [seen_succ, h]
  constructor
  · rintro (hseen | hv)
    · exact hseen
    · exact seen_of_obs hv
  · exact Or.inl

/-! ## Replaying events -/

/-- The state after the first `k` events; an impossible event changes nothing. -/
def stateAfter (step : σ → ε → Option σ) (s : σ) (events : List ε) (k : ℕ) : σ :=
  (events.take k).foldl (fun s e => (step s e).getD s) s

lemma stateAfter_succ (s : σ) {events : List ε} (hk : k < events.length) :
    stateAfter step s events (k + 1) =
      (step (stateAfter step s events k) events[k]).getD (stateAfter step s events k) := by
  unfold stateAfter
  rw [List.take_succ_eq_append_getElem hk, List.foldl_append]
  rfl

/-- Every event is possible when it comes. -/
def Possible (step : σ → ε → Option σ) (s : σ) (events : List ε) : Prop :=
  ∀ k (hk : k < events.length), (step (stateAfter step s events k) events[k]).isSome

instance (s : σ) (events : List ε) : Decidable (Possible step s events) :=
  inferInstanceAs (Decidable (∀ k, ∀ _ : k < events.length, _))

/-- The run of events that are all possible. -/
def replay (s : σ) (events : List ε) (h : Possible step s events) : RecordedRun step where
  events := events
  state := stateAfter step s events
  step_eq k hk := by
    obtain ⟨s', hs'⟩ := Option.isSome_iff_exists.mp (h k hk)
    rw [stateAfter_succ s hk, hs', Option.getD_some]

end RecordedRun
