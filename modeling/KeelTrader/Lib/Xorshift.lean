import Mathlib.Data.Finite.Defs
import Mathlib.Data.Finite.Prod
import Mathlib.Tactic

set_option relaxedAutoImplicit false
set_option autoImplicit false

/-!
# Xorshift

A word that is combined with a shifted copy of itself. Each of the shifts is linear in exclusive or,
and maps only zero to itself, so that combining permutes the words of a width. So does the
multiplication with a constant that has an inverse. A generator that is built of them goes through
words other than zero only, and draws every word but zero.

## Main definitions

* `Xorshift.rightXor`, `Xorshift.leftXor` — a word, combined with a shifted copy.
* `Xorshift.next` — the three shifts of a generator.

## Main results

* `Xorshift.xor_injective` — a word can be recovered from its combination with a linear image.
* `Xorshift.next_bijective`, `Xorshift.next_eq_zero` — the generator permutes the words, with zero
  fixed.
* `Xorshift.mul_bijective` — multiplication with an invertible constant permutes the words.
-/

namespace Xorshift

open Function

variable {w k a b c : ℕ} {x y : BitVec w}

/-- A word, combined with a copy that is shifted right. -/
def rightXor (k : ℕ) (x : BitVec w) : BitVec w := x ^^^ (x >>> k)

/-- A word, combined with a copy that is shifted left. -/
def leftXor (k : ℕ) (x : BitVec w) : BitVec w := x ^^^ (x <<< k)

/-- The shifts of a generator. -/
def next (a b c : ℕ) (x : BitVec w) : BitVec w := rightXor c (leftXor b (rightXor a x))

/-- There are finitely many words of a width. -/
lemma finite_bitVec (w : ℕ) : Finite (BitVec w) :=
  Finite.of_injective BitVec.toFin fun _ _ h => BitVec.toFin_inj.mp h

/-- A word that is its own right shift is zero. -/
lemma eq_zero_of_ushiftRight (hk : 0 < k) (h : x >>> k = x) : x = 0#w := by
  have hdiv : x.toNat / 2 ^ k = x.toNat := by
    rw [← Nat.shiftRight_eq_div_pow, ← BitVec.toNat_ushiftRight, h]
  rw [Nat.div_eq_self] at hdiv
  rcases hdiv with hzero | hone
  · exact BitVec.eq_of_toNat_eq hzero
  · exact absurd hone (Nat.one_lt_two_pow hk.ne').ne'

/-- A word that is its own left shift is zero. -/
lemma eq_zero_of_shiftLeft (hk : 0 < k) (h : x <<< k = x) : x = 0#w := by
  refine BitVec.eq_of_getLsbD_eq fun i hi => ?_
  rw [BitVec.getLsbD_zero]
  -- the lowest bits are shifted in, and each bit comes from a lower one
  induction i using Nat.strong_induction_on with
  | _ i ih =>
    rw [← h, BitVec.getLsbD_shiftLeft]
    rcases lt_or_ge i k with hlow | hhigh
    · simp [hlow]
    · simp [ih (i - k) (by omega) (by omega)]

lemma xor_xor_comm (x y u v : BitVec w) : (x ^^^ u) ^^^ (y ^^^ v) = (x ^^^ y) ^^^ (u ^^^ v) := by
  ext i hi
  simp [Bool.xor_left_comm]

/-- A word can be recovered from its combination with a linear image, when only zero is its own
image. -/
lemma xor_injective {f : BitVec w → BitVec w} (hlinear : ∀ x y, f (x ^^^ y) = f x ^^^ f y)
    (hfixed : ∀ x, f x = x → x = 0#w) : Injective fun x => x ^^^ f x := by
  intro x y h
  have hzero : (x ^^^ y) ^^^ f (x ^^^ y) = 0#w := by
    rw [hlinear, ← xor_xor_comm]
    exact BitVec.xor_eq_zero_iff.mpr h
  have hself := (BitVec.xor_eq_zero_iff.mp hzero).symm
  exact BitVec.xor_eq_zero_iff.mp (hfixed _ hself)

lemma rightXor_injective (hk : 0 < k) : Injective (rightXor k : BitVec w → BitVec w) :=
  xor_injective (fun x y => BitVec.ushiftRight_xor_distrib x y k)
    fun _ => eq_zero_of_ushiftRight hk

lemma leftXor_injective (hk : 0 < k) : Injective (leftXor k : BitVec w → BitVec w) :=
  xor_injective (fun x y => BitVec.shiftLeft_xor_distrib x y k) fun _ => eq_zero_of_shiftLeft hk

/-! ## The generator -/

lemma next_injective (ha : 0 < a) (hb : 0 < b) (hc : 0 < c) :
    Injective (next a b c : BitVec w → BitVec w) := by
  intro x y h
  have hleft := rightXor_injective hc h
  have hright := leftXor_injective hb hleft
  exact rightXor_injective ha hright

/-- **The generator permutes the words.** -/
theorem next_bijective (ha : 0 < a) (hb : 0 < b) (hc : 0 < c) :
    Bijective (next a b c : BitVec w → BitVec w) := by
  have := finite_bitVec w
  exact Finite.injective_iff_bijective.mp (next_injective ha hb hc)

lemma next_zero (a b c : ℕ) : next a b c (0#w) = 0#w := by
  simp [next, rightXor, leftXor]

/-- The generator draws zero after zero only. -/
theorem next_eq_zero (ha : 0 < a) (hb : 0 < b) (hc : 0 < c) : next a b c x = 0#w ↔ x = 0#w := by
  constructor
  · intro h
    apply next_injective ha hb hc
    rw [h, next_zero]
  · rintro rfl
    exact next_zero a b c

/-- **Multiplication** with a constant that has an inverse permutes the words. -/
theorem mul_bijective {m n : BitVec w} (h : m * n = 1#w) : Bijective fun x => x * m := by
  have hcancel (x : BitVec w) : x * n * m = x := by
    rw [BitVec.mul_assoc, BitVec.mul_comm n, h, BitVec.mul_one]
  have hcancel' (x : BitVec w) : x * m * n = x := by
    rw [BitVec.mul_assoc, h, BitVec.mul_one]
  constructor
  · intro x y hxy
    dsimp only at hxy
    rw [← hcancel' x, hxy, hcancel']
  · intro y
    exact ⟨y * n, hcancel y⟩

end Xorshift
