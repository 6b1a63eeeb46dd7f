import Mathlib.Algebra.BigOperators.Ring.Finset
import Mathlib.Algebra.BigOperators.Fin
import Mathlib.Tactic.LinearCombination
import Mathlib.Tactic.Ring

set_option relaxedAutoImplicit false
set_option autoImplicit false

/-!
# Backward sums

A sequence that is computed from its end by `a t = x t + w t * a (t + 1)`. Its closed form weighs
each later term with the product of the weights before it. A weight of zero cuts off everything
after it, and weights that are a constant or zero leave a sum of powers up to the first zero.

## Main definitions

* `BackwardSum.tail` — the sequence, by the number of terms that are left.

## Main results

* `BackwardSum.tail_eq_sum` — the closed form.
* `BackwardSum.tail_masked` — the closed form for a constant weight with a mask.
* `BackwardSum.tail_congr_of_cut` — nothing after a zero weight matters.
* `BackwardSum.tail_add_potential` — differences of a potential telescope.
-/

namespace BackwardSum

open Finset

variable {R : Type} [CommRing R]

/-- The sequence at `t`, with `m` terms left. -/
def tail (x w : ℕ → R) : ℕ → ℕ → R
  | 0, _ => 0
  | m + 1, t => x t + w t * tail x w m (t + 1)

variable {x x' w w' v : ℕ → R} {m m' t e : ℕ}

/-- **Closed form.** Each term is weighed with the product of the weights before it. -/
theorem tail_eq_sum (x w : ℕ → R) (m t : ℕ) :
    tail x w m t = ∑ k ∈ range m, (∏ j ∈ range k, w (t + j)) * x (t + k) := by
  induction m generalizing t with
  | zero => rfl
  | succ m ih =>
    rw [tail, ih, sum_range_succ', mul_sum, prod_range_zero, one_mul, add_zero, add_comm]
    congr 1
    refine sum_congr rfl fun k _ => ?_
    rw [prod_range_succ', add_zero, mul_comm _ (w t), mul_assoc, add_right_comm t 1 k, ← add_assoc]
    congr 2
    refine prod_congr rfl fun j _ => ?_
    rw [add_right_comm t 1 j, add_assoc]

/-- A product of masked constants is a power, or zero. -/
lemma prod_masked {mask : ℕ → R} (hmask : ∀ j, mask j = 0 ∨ mask j = 1) (c : R) (k t : ℕ)
    [Decidable (∀ j < k, mask (t + j) = 1)] :
    ∏ j ∈ range k, c * mask (t + j) = if ∀ j < k, mask (t + j) = 1 then c ^ k else 0 := by
  split_ifs with hall
  · have hconst : ∀ j ∈ range k, c * mask (t + j) = c := fun j hj => by
      rw [hall j (mem_range.mp hj), mul_one]
    rw [prod_congr rfl hconst, prod_const, card_range]
  · push Not at hall
    obtain ⟨j, hj, hne⟩ := hall
    refine prod_eq_zero (mem_range.mpr hj) ?_
    rw [(hmask (t + j)).resolve_right hne, mul_zero]

/-- **Masks.** A constant weight with a mask sums the powers of the constant up to the first zero of
the mask. -/
theorem tail_masked [DecidableEq R] {mask : ℕ → R}
    (hmask : ∀ j, mask j = 0 ∨ mask j = 1) (c : R) (x : ℕ → R) (m t : ℕ) :
    tail x (fun j => c * mask j) m t =
      ∑ k ∈ range m with ∀ j < k, mask (t + j) = 1, c ^ k * x (t + k) := by
  rw [tail_eq_sum, sum_filter]
  refine sum_congr rfl fun k _ => ?_
  rw [prod_masked hmask, ite_mul, zero_mul]

/-- **Cuts.** Two sequences that agree up to a zero weight agree, however long they go on. -/
theorem tail_congr_of_cut (ht : t ≤ e) (hm : e < t + m) (hm' : e < t + m') (hcut : w e = 0)
    (hx : ∀ i, t ≤ i → i ≤ e → x i = x' i) (hw : ∀ i, t ≤ i → i ≤ e → w i = w' i) :
    tail x w m t = tail x' w' m' t := by
  induction m generalizing t m' with
  | zero => omega
  | succ m ih =>
    obtain ⟨m', rfl⟩ : ∃ k, m' = k + 1 := ⟨m' - 1, by omega⟩
    rw [tail, tail, hx t le_rfl ht, ← hw t le_rfl ht]
    rcases ht.eq_or_lt with rfl | hlt
    · rw [hcut, zero_mul, zero_mul]
    · have hrest : tail x w m (t + 1) = tail x' w' m' (t + 1) :=
        ih (by omega) (by omega) (by omega) (fun i hi => hx i (by omega))
          fun i hi => hw i (by omega)
      rw [hrest]

/-- **Telescoping.** The differences of a potential sum to the potential at the two ends. -/
theorem tail_add_potential (x w v : ℕ → R) (m t : ℕ) :
    tail (fun i => x i + w i * v (i + 1) - v i) w m t + v t =
      tail x w m t + (∏ j ∈ range m, w (t + j)) * v (t + m) := by
  induction m generalizing t with
  | zero => simp [tail]
  | succ m ih =>
    have hprod : ∏ j ∈ range (m + 1), w (t + j) = w t * ∏ j ∈ range m, w (t + 1 + j) := by
      rw [prod_range_succ', mul_comm, add_zero]
      refine congrArg (w t * ·) (prod_congr rfl fun j _ => ?_)
      rw [add_right_comm, add_assoc]
    have hend : t + (m + 1) = t + 1 + m := by omega
    have hrest := ih (t + 1)
    rw [tail, tail, hprod, hend]
    linear_combination w t * hrest

end BackwardSum
