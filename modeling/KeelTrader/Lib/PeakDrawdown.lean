import Mathlib.Order.Bounds.Basic
import Mathlib.Tactic

set_option relaxedAutoImplicit false
set_option autoImplicit false

/-!
# Drawdowns of a path

The drawdown of a path at a moment is how far its value is below the largest value so far, as a
share of that. A single pass that keeps the peak and the largest drawdown computes the maximum
drawdown of the whole path.

## Main definitions

* `IsDrawdownOf` — a drawdown of a path.
* `IsMaxDrawdown` — the largest one.
* `StreamedDrawdown` — what a single pass over the path has computed.

## Main results

* `StreamedDrawdown.singleton`, `StreamedDrawdown.concat` — the pass, one value at a time.
* `IsMaxDrawdown.unique` — the path determines its maximum drawdown.
-/

variable {K : Type} [Field K] [LinearOrder K]

/-- `d` is the drawdown of the path at one of its values: from the peak of the path up to there. -/
def IsDrawdownOf (path : List K) (d : K) : Prop :=
  ∃ front v back peak, path = front ++ v :: back ∧ IsGreatest {x | x ∈ front ++ [v]} peak ∧
    d = (peak - v) / peak

/-- `d` is the largest drawdown of the path. -/
def IsMaxDrawdown (path : List K) (d : K) : Prop := IsGreatest {d | IsDrawdownOf path d} d

/-- The peak of the path and its largest drawdown. -/
structure StreamedDrawdown (path : List K) (peak dd : K) : Prop where
  peak : IsGreatest {x | x ∈ path} peak
  largest : IsMaxDrawdown path dd

/-- **Uniqueness.** The path determines its maximum drawdown. -/
theorem IsMaxDrawdown.unique {path : List K} {d d' : K} (h : IsMaxDrawdown path d)
    (h' : IsMaxDrawdown path d') : d = d' := IsGreatest.unique h h'

omit [Field K] in
/-- The largest value of a longer path. -/
lemma isGreatest_concat {path : List K} {peak : K} (h : IsGreatest {x | x ∈ path} peak) (v : K) :
    IsGreatest {x | x ∈ path ++ [v]} (max peak v) := by
  constructor
  · rcases max_choice peak v with hmax | hmax
    · rw [hmax]
      exact List.mem_append_left _ h.1
    · rw [hmax]
      exact List.mem_append_right _ (List.mem_singleton_self v)
  · intro x hx
    rcases List.mem_append.mp hx with hx | hx
    · exact (h.2 hx).trans (le_max_left _ _)
    · rw [List.mem_singleton.mp hx]
      exact le_max_right _ _

/-- A longer path has one drawdown more. -/
lemma isDrawdownOf_concat {path : List K} {peak : K} (h : IsGreatest {x | x ∈ path} peak)
    (v d : K) : IsDrawdownOf (path ++ [v]) d ↔
      IsDrawdownOf path d ∨ d = (max peak v - v) / max peak v := by
  constructor
  · rintro ⟨front, w, back, top, hsplit, htop, rfl⟩
    rcases back.eq_nil_or_concat with rfl | ⟨back', w', rfl⟩
    · obtain ⟨rfl, hw⟩ := List.append_inj' hsplit rfl
      cases hw
      right
      rw [htop.unique (isGreatest_concat h v)]
    · left
      have hsplit' : path ++ [v] = (front ++ w :: back') ++ [w'] := by
        rw [hsplit, List.append_assoc, List.cons_append, List.concat_eq_append]
      obtain ⟨rfl, -⟩ := List.append_inj' hsplit' rfl
      exact ⟨front, w, back', top, rfl, htop, rfl⟩
  · rintro (⟨front, w, back, top, rfl, htop, rfl⟩ | rfl)
    · exact ⟨front, w, back ++ [v], top, by simp, htop, rfl⟩
    · exact ⟨path, v, [], max peak v, rfl, isGreatest_concat h v, rfl⟩

/-- A longer path has no smaller maximum drawdown. -/
lemma IsMaxDrawdown.le_concat {path : List K} {peak d d' v : K}
    (hpeak : IsGreatest {x | x ∈ path} peak) (h : IsMaxDrawdown path d)
    (h' : IsMaxDrawdown (path ++ [v]) d') : d ≤ d' :=
  h'.2 ((isDrawdownOf_concat hpeak v d).mpr (.inl h.1))

namespace StreamedDrawdown

/-- A path of one value has no drawdown. -/
theorem singleton (v : K) : StreamedDrawdown [v] v 0 := by
  have hpeak : IsGreatest {x | x ∈ [v]} v :=
    ⟨List.mem_singleton_self v, fun x hx => (List.mem_singleton.mp hx).le⟩
  have hzero : (0 : K) = (v - v) / v := by rw [sub_self, zero_div]
  refine ⟨hpeak, ⟨[], v, [], v, rfl, hpeak, hzero⟩, ?_⟩
  rintro d ⟨front, w, back, top, hsplit, htop, rfl⟩
  have hfront : front = [] := by
    cases front with
    | nil => rfl
    | cons a front => simp at hsplit
  subst hfront
  cases hsplit
  rw [htop.unique hpeak, sub_self, zero_div]

/-- **One value more.** The peak moves up to the value, and the maximum up to its drawdown. -/
theorem concat {path : List K} {peak dd : K} (h : StreamedDrawdown path peak dd) (v : K) :
    StreamedDrawdown (path ++ [v]) (max peak v)
      (max dd ((max peak v - v) / max peak v)) := by
  refine ⟨isGreatest_concat h.peak v, ?_, ?_⟩
  · refine (isDrawdownOf_concat h.peak v _).mpr ?_
    rcases max_choice dd ((max peak v - v) / max peak v) with hmax | hmax
    · rw [hmax]
      exact .inl h.largest.1
    · rw [hmax]
      exact .inr rfl
  · intro d hd
    rcases (isDrawdownOf_concat h.peak v d).mp hd with hd | rfl
    · exact (h.largest.2 hd).trans (le_max_left _ _)
    · exact le_max_right _ _

end StreamedDrawdown
