import Mathlib.Data.List.Sort
import Mathlib.Tactic

set_option relaxedAutoImplicit false
set_option autoImplicit false

/-!
# The best few of a list

Sorting a list and keeping its first elements picks the best ones. When the order tells the
elements of the list apart, the pick does not depend on the order in which they are listed.

## Main definitions

* `topBy r k l` — the first `k` elements of `l`, sorted by `r`.

## Main results

* `topBy_perm` — the pick of a permutation.
* `rel_of_notMem_topBy` — what is left out comes after what is picked.
* `filter_insertionSort` — sorting keeps the order of ties.
-/

variable {α : Type} (r : α → α → Prop) [DecidableRel r]

/-- The first `k` elements of `l`, sorted by `r`. -/
def topBy (k : ℕ) (l : List α) : List α := (l.insertionSort r).take k

variable {r}

lemma mem_of_mem_topBy {k : ℕ} {l : List α} {a : α} (h : a ∈ topBy r k l) : a ∈ l := by
  have hsorted := List.mem_of_mem_take h
  rwa [List.mem_insertionSort] at hsorted

lemma length_topBy (k : ℕ) (l : List α) : (topBy r k l).length = min k l.length := by
  rw [topBy, List.length_take, List.length_insertionSort]

/-- The pick has no element more often than the list, under any image. -/
lemma nodup_map_topBy {β : Type} {f : α → β} {k : ℕ} {l : List α} (h : (l.map f).Nodup) :
    ((topBy r k l).map f).Nodup := by
  have hsorted : ((l.insertionSort r).map f).Nodup :=
    ((List.perm_insertionSort r l).map f).nodup_iff.mpr h
  exact hsorted.sublist ((List.take_sublist k _).map f)

section Order

variable [Std.Total r] [IsTrans α r]

/-- **Permutations.** When the order is antisymmetric on the list, its pick is that of every
permutation. -/
theorem topBy_perm {k : ℕ} {l l' : List α} (hperm : l'.Perm l)
    (hanti : ∀ a ∈ l, ∀ b ∈ l, r a b → r b a → a = b) : topBy r k l' = topBy r k l := by
  have hsorted : (l'.insertionSort r).Perm (l.insertionSort r) :=
    (List.perm_insertionSort r l').trans (hperm.trans (List.perm_insertionSort r l).symm)
  have heq : l'.insertionSort r = l.insertionSort r := by
    refine List.Perm.eq_of_pairwise (fun a b ha hb hab hba => ?_)
      (List.pairwise_insertionSort r l') (List.pairwise_insertionSort r l) hsorted
    rw [List.mem_insertionSort] at ha hb
    exact hanti a (hperm.mem_iff.mp ha) b hb hab hba
  rw [topBy, heq, topBy]

/-- **What is left out** comes after everything that is picked. -/
theorem rel_of_notMem_topBy {k : ℕ} {l : List α} {a b : α} (ha : a ∈ l) (hnot : a ∉ topBy r k l)
    (hb : b ∈ topBy r k l) : r b a := by
  have hsplit := List.take_append_drop k (l.insertionSort r)
  have hdrop : a ∈ (l.insertionSort r).drop k := by
    have hmem : a ∈ l.insertionSort r := (List.mem_insertionSort r).mpr ha
    rw [← hsplit, List.mem_append] at hmem
    exact hmem.resolve_left hnot
  have hpairwise := List.pairwise_insertionSort r l
  rw [← hsplit, List.pairwise_append] at hpairwise
  exact hpairwise.2.2 b hb a hdrop

end Order

/-- Entries that are tied keep their order when a list is sorted. -/
lemma filter_insertionSort (p : α → Bool) (l : List α)
    (htie : ∀ a b, p a = true → p b = true → r a b) :
    (l.insertionSort r).filter p = l.filter p := by
  have hpairwise : (l.filter p).Pairwise r := by
    refine List.pairwise_of_forall_mem_list fun a ha b hb => ?_
    exact htie a b (List.mem_filter.mp ha).2 (List.mem_filter.mp hb).2
  have hsub : (l.filter p).Sublist (l.insertionSort r) :=
    List.sublist_insertionSort hpairwise List.filter_sublist
  have hfilter : ((l.filter p).filter p).Sublist ((l.insertionSort r).filter p) := hsub.filter p
  rw [List.filter_filter] at hfilter
  simp only [Bool.and_self] at hfilter
  have hlength := ((List.perm_insertionSort r l).filter p).length_eq
  exact (hfilter.eq_of_length hlength.symm).symm
