import Mathlib.Algebra.Order.BigOperators.Group.Finset
import Mathlib.Algebra.Order.Field.Basic
import Mathlib.Tactic

set_option relaxedAutoImplicit false
set_option autoImplicit false

/-!
# Capped water-filling

A budget is shared in proportion to positive weights, under a cap for each name. A round gives
the names above the cap just the cap, and what they leave is shared by the others. The common
level of the others rises from round to round, so that a name that was capped once stays above
the cap; and the budget never runs out. What is left at the end is the water-filling of the
budget: one level for all, cut at the cap.

A name counts as above the cap when its share exceeds the cap by more than a tolerance, so a
share may end between the cap and the cap with the tolerance.

## Main definitions

* `WaterFilling.level` — the level at which names share a budget.
* `WaterFilling.overflow` — the names whose share is above the cap.
* `WaterFilling.Filling` — the invariant of the rounds, at the level reached so far.
* `WaterFilling.Filled` — the water-filling of a budget.

## Main results

* `WaterFilling.Filling.level_ge` — the level does not fall.
* `WaterFilling.Filling.round` — a round keeps the invariant.
* `WaterFilling.Filling.final`, `WaterFilling.Filling.exhausted` — the two ways to end.
* `WaterFilling.Filled.le_cap`, `Filled.sum_le`, `Filled.mono` — what a water-filling satisfies.
-/

namespace WaterFilling

variable {ι 𝕜 : Type} [DecidableEq ι] [Field 𝕜] [LinearOrder 𝕜] [IsStrictOrderedRing 𝕜]
  {r w : ι → 𝕜} {cap eps gross L : 𝕜} {all s : Finset ι}

/-- The level at which the names `s` share a budget in proportion to `r`. -/
def level (r : ι → 𝕜) (budget : 𝕜) (s : Finset ι) : 𝕜 := budget / ∑ i ∈ s, r i

/-- The names whose share of a budget is above the cap. -/
def overflow (r : ι → 𝕜) (cap eps budget : 𝕜) (s : Finset ι) : Finset ι :=
  s.filter fun i => cap + eps < level r budget s * r i

/-- What is left of `gross` when the names of `all` that are not in `s` have the cap. -/
def left (cap gross : 𝕜) (all s : Finset ι) : 𝕜 := gross - (all \ s).card * cap

/-- **The invariant of the rounds.** The names `s` are not capped yet, and `L` is the level of
the round before. -/
structure Filling (r : ι → 𝕜) (cap gross : 𝕜) (all s : Finset ι) (L : 𝕜) : Prop where
  /-- The names left are some of all. -/
  subset : s ⊆ all
  /-- The level is not negative. -/
  nonneg : 0 ≤ L
  /-- Every capped name is above the cap at this level. -/
  capped : ∀ i ∈ all \ s, cap < L * r i
  /-- There is budget left. -/
  left_pos : 0 < left cap gross all s
  /-- It is enough for the names left, at this level. -/
  share_le : L * ∑ i ∈ s, r i ≤ left cap gross all s

/-- **The water-filling** of a budget at the level `L`. -/
structure Filled (r : ι → 𝕜) (cap eps gross : 𝕜) (all : Finset ι) (w : ι → 𝕜) (L : 𝕜) : Prop where
  /-- The level is not negative. -/
  nonneg : 0 ≤ L
  /-- Each name has the cap and is above it, or has its share. -/
  share : ∀ i ∈ all, w i = cap ∧ cap < L * r i ∨ w i = L * r i ∧ L * r i ≤ cap + eps
  /-- The budget is spent, unless every name has the cap. -/
  sum : ∑ i ∈ all, w i = gross ∨
    (∀ i ∈ all, w i = cap ∧ cap < L * r i) ∧ ∑ i ∈ all, w i = all.card * cap ∧
      all.card * cap < gross

/-! ## Rounds -/

lemma left_self (cap gross : 𝕜) (all : Finset ι) : left cap gross all all = gross := by
  simp [left]

/-- Before the first round. -/
lemma Filling.start (hgross : 0 < gross) : Filling r cap gross all all 0 where
  subset := subset_rfl
  nonneg := le_rfl
  capped := by simp
  left_pos := by rwa [left_self]
  share_le := by
    rw [left_self, zero_mul]
    exact hgross.le

omit [LinearOrder 𝕜] [IsStrictOrderedRing 𝕜] in
/-- Capping more names leaves less. -/
lemma left_sdiff {n : Finset ι} (hs : s ⊆ all) (hn : n ⊆ s) :
    left cap gross all (s \ n) = left cap gross all s - n.card * cap := by
  have hsplit : all \ (s \ n) = (all \ s) ∪ n := by
    ext i
    simp only [Finset.mem_sdiff, Finset.mem_union]
    constructor
    · rintro ⟨hall, hnot⟩
      by_cases hi : i ∈ s
      · exact .inr (not_not.mp fun hin => hnot ⟨hi, hin⟩)
      · exact .inl ⟨hall, hi⟩
    · rintro (⟨hall, hi⟩ | hi)
      · exact ⟨hall, fun h => hi h.1⟩
      · exact ⟨hs (hn hi), fun h => h.2 hi⟩
  have hdisjoint : Disjoint (all \ s) n :=
    Finset.disjoint_of_subset_right hn Finset.sdiff_disjoint
  unfold left
  rw [hsplit, Finset.card_union_of_disjoint hdisjoint]
  push_cast
  ring

section Round

variable (h : Filling r cap gross all s L) (hr : ∀ i ∈ all, 0 < r i)

include h hr

/-- The names left have some weight. -/
lemma Filling.sum_pos (hs : s.Nonempty) : 0 < ∑ i ∈ s, r i :=
  Finset.sum_pos (fun i hi => hr i (h.subset hi)) hs

/-- The names left share what is left. -/
lemma Filling.level_mul_sum (hs : s.Nonempty) :
    level r (left cap gross all s) s * ∑ i ∈ s, r i = left cap gross all s :=
  div_mul_cancel₀ _ (h.sum_pos hr hs).ne'

/-- **The level does not fall.** -/
theorem Filling.level_ge (hs : s.Nonempty) : L ≤ level r (left cap gross all s) s := by
  unfold level
  rw [le_div_iff₀ (h.sum_pos hr hs)]
  exact h.share_le

/-- The level of a round is positive. -/
lemma Filling.level_pos (hs : s.Nonempty) : 0 < level r (left cap gross all s) s :=
  div_pos h.left_pos (h.sum_pos hr hs)

/-- A capped name is above the cap at the new level as well. -/
lemma Filling.capped_level (hs : s.Nonempty) {i : ι} (hi : i ∈ all \ s) :
    cap < level r (left cap gross all s) s * r i := by
  have hpos := hr i (Finset.mem_sdiff.mp hi).1
  calc cap < L * r i := h.capped i hi
    _ ≤ level r (left cap gross all s) s * r i :=
      mul_le_mul_of_nonneg_right (h.level_ge hr hs) hpos.le

/-- **Round.** Capping the names that overflow keeps the invariant, at the level of the round. -/
theorem Filling.round (heps : 0 ≤ eps)
    (hover : (overflow r cap eps (left cap gross all s) s).Nonempty) :
    Filling r cap gross all (s \ overflow r cap eps (left cap gross all s) s)
      (level r (left cap gross all s) s) := by
  set n := overflow r cap eps (left cap gross all s) s with hn
  set lvl := level r (left cap gross all s) s with hlvl
  have hsub : n ⊆ s := Finset.filter_subset _ _
  have hs : s.Nonempty := hover.mono hsub
  have habove : ∀ i ∈ n, cap < lvl * r i := by
    intro i hi
    have hi' := (Finset.mem_filter.mp hi).2
    exact lt_of_le_of_lt (le_add_of_nonneg_right heps) hi'
  -- the capped names give up some of their share
  have hless : n.card * cap < ∑ i ∈ n, lvl * r i := by
    rw [← nsmul_eq_mul, ← Finset.sum_const]
    exact Finset.sum_lt_sum_of_nonempty hover habove
  have hsum : lvl * ∑ i ∈ s \ n, r i + ∑ i ∈ n, lvl * r i = left cap gross all s := by
    rw [← Finset.mul_sum, ← mul_add, Finset.sum_sdiff hsub]
    exact h.level_mul_sum hr hs
  have hlvl0 : 0 ≤ lvl := (h.level_pos hr hs).le
  have hrest : 0 ≤ lvl * ∑ i ∈ s \ n, r i :=
    mul_nonneg hlvl0 (Finset.sum_nonneg fun i hi =>
      (hr i (h.subset (Finset.mem_sdiff.mp hi).1)).le)
  refine ⟨Finset.sdiff_subset.trans h.subset, hlvl0, fun i hi => ?_, ?_, ?_⟩
  · obtain ⟨hall, hnot⟩ := Finset.mem_sdiff.mp hi
    by_cases his : i ∈ s
    · exact habove i (not_not.mp fun hin => hnot (Finset.mem_sdiff.mpr ⟨his, hin⟩))
    · exact h.capped_level hr hs (Finset.mem_sdiff.mpr ⟨hall, his⟩)
  · rw [left_sdiff h.subset hsub]
    linarith
  · rw [left_sdiff h.subset hsub]
    linarith

/-- **End.** When nothing overflows, the names left get their share. -/
theorem Filling.final (hs : s.Nonempty)
    (hover : overflow r cap eps (left cap gross all s) s = ∅)
    (hcapped : ∀ i ∈ all \ s, w i = cap)
    (hshare : ∀ i ∈ s, w i = level r (left cap gross all s) s * r i) :
    Filled r cap eps gross all w (level r (left cap gross all s) s) where
  nonneg := (h.level_pos hr hs).le
  share := by
    intro i hi
    by_cases his : i ∈ s
    · right
      refine ⟨hshare i his, not_lt.mp fun hlt => ?_⟩
      have hmem : i ∈ overflow r cap eps (left cap gross all s) s :=
        Finset.mem_filter.mpr ⟨his, hlt⟩
      rw [hover] at hmem
      exact absurd hmem (Finset.notMem_empty i)
    · left
      have hi' : i ∈ all \ s := Finset.mem_sdiff.mpr ⟨hi, his⟩
      exact ⟨hcapped i hi', h.capped_level hr hs hi'⟩
  sum := by
    left
    rw [← Finset.sum_sdiff h.subset, Finset.sum_congr rfl hcapped, Finset.sum_congr rfl hshare,
      ← Finset.mul_sum, h.level_mul_sum hr hs, Finset.sum_const, nsmul_eq_mul, left]
    ring

end Round

/-- **End.** When every name is capped, budget is left over. -/
theorem Filling.exhausted (h : Filling r cap gross all ∅ L) (hcapped : ∀ i ∈ all, w i = cap) :
    Filled r cap eps gross all w L where
  nonneg := h.nonneg
  share := by
    intro i hi
    exact .inl ⟨hcapped i hi, h.capped i (by simpa using hi)⟩
  sum := by
    right
    have hleft := h.left_pos
    rw [left, Finset.sdiff_empty, sub_pos] at hleft
    refine ⟨fun i hi => ⟨hcapped i hi, h.capped i (by simpa using hi)⟩, ?_, hleft⟩
    rw [Finset.sum_congr rfl hcapped, Finset.sum_const, nsmul_eq_mul]

/-! ## Water-fillings -/

section Filled

variable (h : Filled r cap eps gross all w L)

include h

omit [DecidableEq ι] in
/-- No name has more than the cap and the tolerance. -/
theorem Filled.le_cap (heps : 0 ≤ eps) {i : ι} (hi : i ∈ all) : w i ≤ cap + eps := by
  rcases h.share i hi with ⟨hw, -⟩ | ⟨hw, hle⟩
  · rw [hw]
    exact le_add_of_nonneg_right heps
  · rw [hw]
    exact hle

omit [DecidableEq ι] [IsStrictOrderedRing 𝕜] in
/-- No more than the budget is spent. -/
theorem Filled.sum_le : ∑ i ∈ all, w i ≤ gross := by
  rcases h.sum with hsum | ⟨-, hsum, hlt⟩
  · exact hsum.le
  · rw [hsum]
    exact hlt.le

omit [DecidableEq ι] in
/-- **A heavier name** gets no less, up to the tolerance. -/
theorem Filled.mono (heps : 0 ≤ eps) {i j : ι} (hi : i ∈ all) (hj : j ∈ all) (hij : r j ≤ r i) :
    w j - eps ≤ w i := by
  have hle : L * r j ≤ L * r i := mul_le_mul_of_nonneg_left hij h.nonneg
  have hcap := h.le_cap heps hj
  rcases h.share i hi with ⟨hwi, -⟩ | ⟨hwi, -⟩
  · linarith
  · rcases h.share j hj with ⟨hwj, hlt⟩ | ⟨hwj, -⟩ <;> linarith

omit [DecidableEq ι] in
/-- Every name gets something. -/
theorem Filled.pos (hcap : 0 < cap) (hgross : 0 < gross) (hr : ∀ i ∈ all, 0 < r i) {i : ι}
    (hi : i ∈ all) : 0 < w i := by
  rcases h.share i hi with ⟨hw, -⟩ | ⟨hw, -⟩
  · rwa [hw]
  · have hL : L ≠ 0 := by
      rintro rfl
      -- at the level zero nothing is spent
      rcases h.sum with hsum | ⟨hall, -⟩
      · have hzero : ∀ j ∈ all, w j = 0 := by
          intro j hj
          rcases h.share j hj with ⟨-, hlt⟩ | ⟨hwj, -⟩
          · rw [zero_mul] at hlt
            exact absurd hlt (not_lt.mpr hcap.le)
          · rw [hwj, zero_mul]
        rw [Finset.sum_eq_zero hzero] at hsum
        exact hgross.ne hsum
      · have hlt := (hall i hi).2
        rw [zero_mul] at hlt
        exact absurd hlt (not_lt.mpr hcap.le)
    rw [hw]
    exact mul_pos (lt_of_le_of_ne h.nonneg hL.symm) (hr i hi)

end Filled

end WaterFilling
