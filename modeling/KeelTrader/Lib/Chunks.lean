import Mathlib.Data.List.Flatten
import Mathlib.Data.List.Range
import Mathlib.Tactic

set_option relaxedAutoImplicit false
set_option autoImplicit false

/-!
# Work in batches

A list cut into batches of a fixed size, of which the last may be shorter. Work that treats the
entries of a batch one by one does not depend on the size.

## Main definitions

* `chunks n xs` — the batches of `n` entries.

## Main results

* `flatten_chunks`, `flatten_map_chunks` — the batches, joined, are the list, and so is what is made
  of them entry by entry.
-/

universe u v

variable {α : Type u} {β : Type v}

/-- The batches of `n` entries, as a loop over their starts cuts them. -/
def chunks (n : ℕ) (xs : List α) : List (List α) :=
  (List.range ((xs.length + n - 1) / n)).map fun j => (xs.drop (j * n)).take n

/-- The first `j` batches are the first `j * n` entries. -/
lemma flatten_batches (n : ℕ) (xs : List α) (j : ℕ) :
    ((List.range j).map fun i => (xs.drop (i * n)).take n).flatten = xs.take (j * n) := by
  induction j with
  | zero => simp
  | succ j ih =>
    rw [List.range_succ, List.map_append, List.flatten_append, ih, Nat.succ_mul, List.take_add]
    simp

/-- **Batches.** Joined, they are the list. -/
theorem flatten_chunks {n : ℕ} (hn : 0 < n) (xs : List α) : (chunks n xs).flatten = xs := by
  rw [chunks, flatten_batches]
  refine List.take_of_length_le ?_
  have h := Nat.lt_div_mul_add hn (a := xs.length + n - 1)
  omega

/-- Work on batches that makes one result of each entry makes the results of all entries. -/
lemma flatten_map_chunks {n : ℕ} (hn : 0 < n) (f : α → β) (xs : List α) :
    ((chunks n xs).map fun batch => batch.map f).flatten = xs.map f := by
  rw [← List.map_flatten, flatten_chunks hn]
