import Mathlib.Algebra.Order.Field.Basic
import Mathlib.Data.List.Sort
import Mathlib.Tactic

set_option relaxedAutoImplicit false
set_option autoImplicit false

/-!
# The median of a list

The middle value of the sorted list, or the mean of its two middle values. Which side of a
bound the median lies on can be decided by counting: fewer than half of the values (rounded up)
at or above the bound put it below.

## Main definitions

* `median l` — the median of `l`, `0` when `l` is empty.

## Main results

* `median_perm` — the order of the values does not matter.
* `getD_lt_of_lt_countP` — in a sorted list the values below a bound come first.
* `median_lt_of_countP` — too few values at or above a bound put the median below it.
-/

variable {α : Type} [Field α] [LinearOrder α]

/-- The middle value of the sorted list, or the mean of its two middle values. -/
def median (l : List α) : α :=
  let sorted := l.insertionSort (· ≤ ·)
  let n := sorted.length
  if n % 2 = 1 then sorted.getD (n / 2) 0
  else (sorted.getD (n / 2 - 1) 0 + sorted.getD (n / 2) 0) / 2

/-- The order of the values does not matter. -/
theorem median_perm {l l' : List α} (h : l.Perm l') : median l = median l' := by
  have hsorted : l.insertionSort (· ≤ ·) = l'.insertionSort (· ≤ ·) := by
    have hperm : (l.insertionSort (· ≤ ·)).Perm (l'.insertionSort (· ≤ ·)) :=
      ((List.perm_insertionSort _ l).trans h).trans (List.perm_insertionSort _ l').symm
    exact hperm.eq_of_sortedLE List.sortedLE_insertionSort List.sortedLE_insertionSort
  simp only [median, hsorted]

/-- In a sorted list the values below a bound come first. -/
theorem getD_lt_of_lt_countP {l : List α} {t : α} (hsorted : l.Pairwise (· ≤ ·)) {i : ℕ}
    (hi : i < l.countP fun x => decide (x < t)) : l.getD i 0 < t := by
  induction l generalizing i with
  | nil => simp at hi
  | cons a l ih =>
    obtain ⟨hle, htail⟩ := List.pairwise_cons.mp hsorted
    by_cases ha : a < t
    · cases i with
      | zero => simpa using ha
      | succ i =>
        rw [List.countP_cons_of_pos (by simpa using ha)] at hi
        exact ih htail (by omega)
    · -- the least value is not below the bound, so none is
      have hnone : (a :: l).countP (fun x => decide (x < t)) = 0 := by
        rw [List.countP_eq_zero]
        intro x hx
        rcases List.mem_cons.mp hx with rfl | hx
        · simpa using ha
        · simpa using le_trans (not_lt.mp ha) (hle x hx)
      omega

section Ordered

variable [IsStrictOrderedRing α]

/-- More than half of the values below a bound put the median below it. -/
lemma median_lt_of_lt_countP {l : List α} {t : α}
    (h : l.length / 2 < l.countP fun x => decide (x < t)) : median l < t := by
  have hperm := List.perm_insertionSort (· ≤ ·) l
  have hsorted := List.pairwise_insertionSort (· ≤ ·) l
  have hlength : (l.insertionSort (· ≤ ·)).length = l.length := hperm.length_eq
  have hcount := hperm.countP_eq fun x => decide (x < t)
  have hupper : (l.insertionSort (· ≤ ·)).getD (l.length / 2) 0 < t :=
    getD_lt_of_lt_countP hsorted (by omega)
  have hlower : (l.insertionSort (· ≤ ·)).getD (l.length / 2 - 1) 0 < t :=
    getD_lt_of_lt_countP hsorted (by omega)
  simp only [median, hlength]
  by_cases hodd : l.length % 2 = 1
  · rw [if_pos hodd]
    exact hupper
  · rw [if_neg hodd, div_lt_iff₀ (by norm_num : (0 : α) < 2)]
    linarith

/-- **Counting.** Fewer than half of the values, rounded up, at or above a bound put the median
below it. -/
theorem median_lt_of_countP {l : List α} {t : α}
    (h : (l.countP fun x => decide (t ≤ x)) < l.length - l.length / 2) : median l < t := by
  apply median_lt_of_lt_countP
  have hsplit := List.length_eq_countP_add_countP (fun x => decide (t ≤ x)) (l := l)
  have hbelow : (l.countP fun x => decide (x < t)) =
      l.countP fun x => decide ¬(decide (t ≤ x) = true) :=
    List.countP_congr fun x _ => by simp
  omega

end Ordered
