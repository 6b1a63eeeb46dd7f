import Mathlib.Algebra.Order.Field.Basic
import Mathlib.Data.List.GetD
import Mathlib.Data.List.ReduceOption
import KeelTrader.Lib.CarryForward
import KeelTrader.Lib.Rolling

set_option relaxedAutoImplicit false
set_option autoImplicit false

/-!
# Columns with missing values

A column of a table, in which values may be missing. Arithmetic has a value where all its operands
have one; rolling statistics skip what is missing.

## Main definitions

* `Column K` — a column of values, some of them missing.
* `Column.values xs` — a column without missing values.
* `Column.map`, `Column.zip`, `Column.shift`, `Column.fillna`, `Column.clip` — its operations.
* `Column.ffill`, `Column.bfill` — the missing values filled from above and from below.
* `Column.FilledWith` — what a column shows once both are done.
* `Column.rollingMean`, `Column.rollingMax`, `Column.rollingStd` — statistics over the newest rows,
  with a value from the first row that has one.
* `Column.rowMax` — the largest value of each row of some columns.

## Main results

* `Column.map_values`, `Column.zip_values`, `Column.pctChange_values`, `Column.rollingMean_values`
  and their like — the operations on columns without missing values.
* `Column.getD_bfill_ffill_iff` — a filled column.

## Implementation notes

Quotients by zero have the value `0` of the field; a table would have an infinity there.
-/

universe u

/-- A column of values, some of which are missing. -/
abbrev Column (K : Type u) := List (Option K)

lemma reduceOption_map_some {K : Type u} (xs : List K) : (xs.map some).reduceOption = xs := by
  rw [List.reduceOption, List.filterMap_map]
  exact List.filterMap_some

namespace Column

variable {K : Type u}

/-- A column without missing values. -/
def values (xs : List K) : Column K := List.map some xs

/-- Change every value. -/
def map (f : K → K) (a : Column K) : Column K := List.map (Option.map f) a

/-- Combine two columns row by row. -/
def zip (f : K → K → K) (a b : Column K) : Column K := List.zipWith (Option.map₂ f) a b

/-- Move the values down by `n` rows. -/
def shift (n : ℕ) (a : Column K) : Column K :=
  (List.range a.length).map fun i => if i < n then none else a.getD (i - n) none

/-- A value in place of the missing ones. -/
def fillna (c : K) (a : Column K) : Column K := List.map (fun x => some (x.getD c)) a

@[simp] lemma length_values (xs : List K) : (values xs).length = xs.length := List.length_map _

@[simp] lemma map_values (f : K → K) (xs : List K) : (values xs).map f = values (xs.map f) := by
  rw [map, values, values, List.map_map, List.map_map]
  rfl

@[simp] lemma zip_values (f : K → K → K) (xs ys : List K) :
    zip f (values xs) (values ys) = values (List.zipWith f xs ys) := by
  rw [zip, values, values, values, List.zipWith_map, List.map_zipWith]
  rfl

@[simp] lemma fillna_values (c : K) (xs : List K) : (values xs).fillna c = values xs := by
  rw [fillna, values, List.map_map]
  rfl

/-! ## Rows -/

section Rows

variable {i : ℕ}

/-- A missing value where there is no row. -/
lemma getD_values {xs : List K} (hi : i < xs.length) (d : K) :
    (values xs).getD i none = some (xs.getD i d) := by
  rw [List.getD_eq_getElem _ _ (by rwa [length_values]), List.getD_eq_getElem _ _ hi]
  exact List.getElem_map some

lemma getD_map (f : K → K) (a : Column K) : (a.map f).getD i none = (a.getD i none).map f := by
  rw [map, List.getD_eq_getElem?_getD, List.getD_eq_getElem?_getD, List.getElem?_map]
  cases a[i]? <;> rfl

lemma getD_zip (f : K → K → K) {a b : Column K} (ha : i < a.length) (hb : i < b.length) :
    (zip f a b).getD i none = Option.map₂ f (a.getD i none) (b.getD i none) := by
  rw [zip, List.getD_eq_getElem _ _ (by rw [List.length_zipWith]; exact lt_min ha hb),
    List.getD_eq_getElem _ _ ha, List.getD_eq_getElem _ _ hb, List.getElem_zipWith]

lemma length_shift (n : ℕ) (a : Column K) : (a.shift n).length = a.length := by
  rw [shift, List.length_map, List.length_range]

lemma getD_shift (n : ℕ) {a : Column K} (hi : i < a.length) :
    (a.shift n).getD i none = if i < n then none else a.getD (i - n) none := by
  rw [List.getD_eq_getElem _ _ (by rwa [length_shift])]
  simp only [shift, List.getElem_map, List.getElem_range]

end Rows

/-! ## The first rows -/

section Take

variable (n : ℕ)

/-- A row of the first ones is that of the column. -/
lemma getD_take {n i : ℕ} (h : i < n) (a : Column K) (d : Option K) :
    (a.take n).getD i d = a.getD i d := by
  rw [List.getD_eq_getElem?_getD, List.getD_eq_getElem?_getD, List.getElem?_take_of_lt h]

@[simp] lemma take_values (xs : List K) : (values xs).take n = values (xs.take n) :=
  List.map_take.symm

lemma take_map (f : K → K) (a : Column K) : (a.map f).take n = map f (a.take n) :=
  List.map_take.symm

lemma take_zip (f : K → K → K) (a b : Column K) :
    (zip f a b).take n = zip f (a.take n) (b.take n) :=
  List.take_zipWith

lemma take_fillna (c : K) (a : Column K) : (a.fillna c).take n = fillna c (a.take n) :=
  List.map_take.symm

lemma take_shift (m : ℕ) (a : Column K) : (a.shift m).take n = shift m (a.take n) := by
  unfold shift
  rw [← List.map_take, List.take_range, List.length_take]
  refine List.map_congr_left fun i hi => ?_
  have hlt := List.mem_range.mp hi
  by_cases hm : i < m
  · rw [if_pos hm, if_pos hm]
  · rw [if_neg hm, if_neg hm, List.getD_eq_getElem?_getD, List.getD_eq_getElem?_getD,
      List.getElem?_take, if_pos (by omega)]

end Take

/-! ## Filling -/

section Fill

/-- The latest value of the rows above in place of a missing one; above all rows there is `last`. -/
def ffill : Option K → Column K → Column K
  | _, [] => []
  | last, x :: a => x.or last :: ffill (x.or last) a

/-- The next value of the rows below in place of a missing one. -/
def bfill : Column K → Column K
  | [] => []
  | x :: a =>
    let below := bfill a
    x.or (below.headD none) :: below

/-- A filled column shows the latest value up to a row or else, where there is none, the first
value of all. -/
def FilledWith (a : Column K) (i : ℕ) (x : K) : Prop :=
  CarryForward.IsLatest (fun j => a.getD j none) i x ∨
    ∃ j > i, a.getD j none = some x ∧ ∀ k < j, a.getD k none = none

lemma length_ffill (last : Option K) (a : Column K) : (ffill last a).length = a.length := by
  induction a generalizing last with
  | nil => rfl
  | cons x a ih => exact congrArg (· + 1) (ih _)

lemma take_ffill (n : ℕ) (last : Option K) (a : Column K) :
    (ffill last a).take n = ffill last (a.take n) := by
  induction a generalizing last n with
  | nil => rw [ffill, List.take_nil, ffill]
  | cons x a ih =>
    cases n with
    | zero => rfl
    | succ n => exact congrArg _ (ih n _)

/-- The first row is filled with what is above. -/
lemma getD_ffill_zero (last : Option K) {a : Column K} (ha : 0 < a.length) :
    (ffill last a).getD 0 none = (a.getD 0 none).or last := by
  cases a with
  | nil => cases ha
  | cons x a => rfl

/-- A further row is filled with the row above. -/
lemma getD_ffill_succ (last : Option K) {a : Column K} {i : ℕ} (hi : i + 1 < a.length) :
    (ffill last a).getD (i + 1) none = (a.getD (i + 1) none).or ((ffill last a).getD i none) := by
  induction a generalizing last i with
  | nil => cases hi
  | cons x a ih =>
    have hi : i < a.length := Nat.lt_of_succ_lt_succ hi
    simp only [ffill, List.getD_cons_succ]
    cases i with
    | zero => exact getD_ffill_zero _ hi
    | succ i => exact ih _ hi

/-- A row is filled with the row below. -/
lemma getD_bfill (a : Column K) (i : ℕ) :
    (bfill a).getD i none = (a.getD i none).or ((bfill a).getD (i + 1) none) := by
  induction a generalizing i with
  | nil => rfl
  | cons x a ih =>
    cases i with
    | zero =>
      simp only [bfill, List.getD_cons_zero, List.getD_cons_succ]
      cases bfill a <;> rfl
    | succ i => exact ih i

variable {a : Column K} {i : ℕ} {x : K}

/-- Filled from above, a row has the latest value. -/
theorem getD_ffill_iff (hi : i < a.length) : (ffill none a).getD i none = some x ↔
    CarryForward.IsLatest (fun j => a.getD j none) i x := by
  induction i with
  | zero =>
    rw [getD_ffill_zero none hi, Option.or_none]
    refine ⟨fun h => .of_eq_some h, ?_⟩
    rintro ⟨j, hj, hvalue, -⟩
    obtain rfl := Nat.le_zero.mp hj
    exact hvalue
  | succ i ih =>
    rw [getD_ffill_succ none hi]
    cases hvalue : a.getD (i + 1) none with
    | some y =>
      rw [Option.some_or]
      exact ⟨fun h => .of_eq_some (hvalue.trans h),
        fun h => congrArg some (h.eq_of_eq_some hvalue).symm⟩
    | none =>
      rw [Option.none_or, ih (Nat.lt_of_succ_lt hi)]
      constructor
      · intro h
        refine h.mono (Nat.le_succ i) fun j hlt hle => ?_
        rwa [show j = i + 1 by omega]
      · rintro ⟨j, hj, hlatest, hafter⟩
        have hne : j ≠ i + 1 := by
          rintro rfl
          exact absurd (hvalue.symm.trans hlatest) (Option.some_ne_none x).symm
        exact ⟨j, by omega, hlatest, fun k hlt hle => hafter k hlt (by omega)⟩

/-- Filled from below, a row has the next value. -/
theorem getD_bfill_iff : (bfill a).getD i none = some x ↔
    ∃ j ≥ i, a.getD j none = some x ∧ ∀ k, i ≤ k → k < j → a.getD k none = none := by
  induction hrest : a.length - i generalizing i with
  | zero =>
    have hmissing : ∀ j ≥ i, a.getD j none = none := fun j hj =>
      List.getD_eq_default _ _ (by omega)
    have hlength : (bfill a).length = a.length := by
      clear hrest hmissing
      induction a with
      | nil => rfl
      | cons x a ih => exact congrArg (· + 1) ih
    rw [List.getD_eq_default _ _ (by omega)]
    refine iff_of_false (by simp) ?_
    rintro ⟨j, hj, hvalue, -⟩
    rw [hmissing j hj] at hvalue
    cases hvalue
  | succ n ih =>
    rw [getD_bfill]
    cases hvalue : a.getD i none with
    | some y =>
      rw [Option.some_or]
      constructor
      · intro h
        exact ⟨i, le_rfl, hvalue.trans h, fun k hle hlt => absurd hle (not_le.mpr hlt)⟩
      · rintro ⟨j, hj, hnext, hbetween⟩
        rcases hj.lt_or_eq with hlt | rfl
        · rw [hbetween i le_rfl hlt] at hvalue
          cases hvalue
        · exact hvalue.symm.trans hnext
    | none =>
      rw [Option.none_or, ih (by omega)]
      constructor
      · rintro ⟨j, hj, hnext, hbetween⟩
        refine ⟨j, by omega, hnext, fun k hle hlt => ?_⟩
        rcases hle.lt_or_eq with hgt | rfl
        · exact hbetween k hgt hlt
        · exact hvalue
      · rintro ⟨j, hj, hnext, hbetween⟩
        have hne : j ≠ i := by
          rintro rfl
          rw [hvalue] at hnext
          cases hnext
        exact ⟨j, by omega, hnext, fun k hle hlt => hbetween k (by omega) hlt⟩

/-- Nothing is filled from above where there is nothing above. -/
lemma getD_ffill_eq_none_iff (hi : i < a.length) :
    (ffill none a).getD i none = none ↔ ∀ j ≤ i, a.getD j none = none := by
  induction i with
  | zero =>
    rw [getD_ffill_zero none hi, Option.or_none]
    exact ⟨fun h j hj => Nat.le_zero.mp hj ▸ h, fun h => h 0 le_rfl⟩
  | succ i ih =>
    rw [getD_ffill_succ none hi, Option.or_eq_none_iff, ih (Nat.lt_of_succ_lt hi)]
    constructor
    · rintro ⟨hlast, hbefore⟩ j hj
      rcases hj.lt_or_eq with hlt | rfl
      · exact hbefore j (Nat.le_of_lt_succ hlt)
      · exact hlast
    · exact fun h => ⟨h (i + 1) le_rfl, fun j hj => h j (Nat.le_succ_of_le hj)⟩

/-- **Filling.** What a column shows that is filled from above, and then from below. -/
theorem getD_bfill_ffill_iff (hi : i < a.length) :
    (bfill (ffill none a)).getD i none = some x ↔ FilledWith a i x := by
  have hlt : ∀ {j}, (ffill none a).getD j none ≠ none → j < a.length := by
    intro j hj
    by_contra hge
    exact hj (List.getD_eq_default _ _ (by rw [length_ffill]; omega))
  rw [getD_bfill_iff]
  constructor
  · rintro ⟨j, hj, hvalue, hbetween⟩
    have hjlt : j < a.length := hlt (by rw [hvalue]; exact Option.some_ne_none x)
    have hlatest := (getD_ffill_iff hjlt).mp hvalue
    rcases hj.lt_or_eq with hij | rfl
    · -- nothing is above the row before `j`, so the value stands in row `j`
      have hnone := (getD_ffill_eq_none_iff (by omega : j - 1 < a.length)).mp
        (hbetween (j - 1) (by omega) (by omega))
      obtain ⟨k, hk, hkvalue, -⟩ := hlatest
      have hkj : k = j := by
        by_contra hne
        exact Option.some_ne_none x (hkvalue.symm.trans (hnone k (by omega)))
      exact .inr ⟨j, hij, hkj ▸ hkvalue, fun k hk => hnone k (by omega)⟩
    · exact .inl hlatest
  · rintro (hlatest | ⟨j, hj, hvalue, hbefore⟩)
    · exact ⟨i, le_rfl, (getD_ffill_iff hi).mpr hlatest,
        fun k hle hlt => absurd hle (not_le.mpr hlt)⟩
    · have hjlt : j < a.length := by
        by_contra hge
        rw [List.getD_eq_default _ _ (by omega)] at hvalue
        cases hvalue
      exact ⟨j, hj.le, (getD_ffill_iff hjlt).mpr (.of_eq_some hvalue), fun k _ hkj =>
        (getD_ffill_eq_none_iff (by omega)).mpr fun l hl => hbefore l (by omega)⟩

/-- A column that has a value in its first row is filled from above alone. -/
theorem getD_bfill_ffill_of_head (hi : i < a.length) (h : a.getD 0 none ≠ none) :
    (bfill (ffill none a)).getD i none = (ffill none a).getD i none := by
  have hne : (ffill none a).getD i none ≠ none := fun hnone =>
    h ((getD_ffill_eq_none_iff hi).mp hnone 0 (Nat.zero_le i))
  rw [getD_bfill]
  obtain ⟨y, hy⟩ := Option.ne_none_iff_exists'.mp hne
  rw [hy, Option.some_or]

end Fill

section Statistics

variable [Field K]

/-- The change of each value, relative to the one `n` rows above. -/
def pctChange (n : ℕ) (a : Column K) : Column K := zip (fun x prev => x / prev - 1) a (a.shift n)

/-- The mean of the newest `w` rows. -/
def rollingMean (w : ℕ) (a : Column K) : Column K :=
  rolling w (fun rows : List (Option K) =>
    match rows.reduceOption with
    | [] => none
    | vals => some (vals.sum / vals.length)) a

/-- The sample standard deviation of the newest `w` rows, which needs two values. -/
def rollingStd (sqrt : K → K) (w : ℕ) (a : Column K) : Column K :=
  rolling w (fun rows : List (Option K) =>
    let vals := rows.reduceOption
    let mean := vals.sum / vals.length
    if vals.length < 2 then none
    else some (sqrt ((vals.map fun v => (v - mean) ^ 2).sum / (vals.length - 1)))) a

lemma take_pctChange (n m : ℕ) (a : Column K) :
    (a.pctChange m).take n = pctChange m (a.take n) := by
  rw [pctChange, take_zip, take_shift, pctChange]

lemma take_rollingMean (n w : ℕ) (a : Column K) :
    (a.rollingMean w).take n = rollingMean w (a.take n) :=
  take_rolling w _ a n

lemma take_rollingStd (n : ℕ) (sqrt : K → K) (w : ℕ) (a : Column K) :
    (a.rollingStd sqrt w).take n = rollingStd sqrt w (a.take n) :=
  take_rolling w _ a n

/-- Over rows that all have a value, the change is missing in the first `n` rows only. -/
lemma pctChange_values (n : ℕ) (xs : List K) :
    pctChange n (values xs) = (List.range xs.length).map fun i =>
      if i < n then none else some (xs.getD i 0 / xs.getD (i - n) 0 - 1) := by
  have hlength : (pctChange n (values xs)).length = xs.length := by
    rw [pctChange, zip, List.length_zipWith, length_shift, length_values, min_self]
  refine List.ext_getElem (by rw [hlength, List.length_map, List.length_range]) fun i hi _ => ?_
  rw [hlength] at hi
  have hvalues : i < (values xs).length := by rwa [length_values]
  rw [List.getElem_map, List.getElem_range, ← List.getD_eq_getElem _ none, pctChange,
    getD_zip _ hvalues (by rwa [length_shift]), getD_values hi 0, getD_shift n hvalues]
  by_cases hn : i < n
  · rw [if_pos hn, if_pos hn]
    rfl
  · rw [if_neg hn, if_neg hn, getD_values (by omega) 0]
    rfl

/-- Over rows that all have a value, the mean is that of the window. -/
lemma rollingMean_values {w : ℕ} (hw : 0 < w) (xs : List K) :
    rollingMean w (values xs) =
      values (rolling w (fun vals : List K => vals.sum / vals.length) xs) := by
  rw [rollingMean, values, rolling_map, values, map_rolling]
  refine rolling_congr fun i hi => ?_
  rw [reduceOption_map_some]
  cases hwin : window w xs i with
  | nil => exact absurd hwin (window_ne_nil hw hi)
  | cons x entries => rfl

end Statistics

section Order

variable [LinearOrder K]

/-- The values, kept between two bounds. -/
def clip (lo hi : K) (a : Column K) : Column K := a.map fun x => min (max x lo) hi

/-- The values, kept above a bound. -/
def clipLower (lo : K) (a : Column K) : Column K := a.map fun x => max x lo

/-- The largest of the newest `w` rows. -/
def rollingMax (w : ℕ) (a : Column K) : Column K := rolling w (fun rows => rows.reduceOption.max?) a

/-- The largest value of each row of some columns. -/
def rowMax (rows : ℕ) (columns : List (Column K)) : Column K :=
  (List.range rows).map fun i => (columns.map fun a => a.getD i none).reduceOption.max?

lemma take_clip (n : ℕ) (lo hi : K) (a : Column K) :
    (a.clip lo hi).take n = clip lo hi (a.take n) :=
  take_map n _ a

lemma take_clipLower (n : ℕ) (lo : K) (a : Column K) :
    (a.clipLower lo).take n = clipLower lo (a.take n) :=
  take_map n _ a

lemma take_rollingMax (n w : ℕ) (a : Column K) :
    (a.rollingMax w).take n = rollingMax w (a.take n) :=
  take_rolling w _ a n

lemma take_rowMax (n rows : ℕ) (columns : List (Column K)) :
    (rowMax rows columns).take n = rowMax (min n rows) (columns.map (List.take n)) := by
  unfold rowMax
  rw [← List.map_take, List.take_range]
  refine List.map_congr_left fun i hi => ?_
  have hlt := List.mem_range.mp hi
  congr 2
  rw [List.map_map]
  refine List.map_congr_left fun a _ => ?_
  show a.getD i none = (a.take n).getD i none
  rw [List.getD_eq_getElem?_getD, List.getD_eq_getElem?_getD, List.getElem?_take,
    if_pos (by omega)]

lemma clip_values (lo hi : K) (xs : List K) :
    (values xs).clip lo hi = values (xs.map fun x => min (max x lo) hi) :=
  map_values _ xs

lemma clipLower_values (lo : K) (xs : List K) :
    (values xs).clipLower lo = values (xs.map fun x => max x lo) :=
  map_values _ xs

/-- Over rows that all have a value, the largest is that of the window. -/
lemma rollingMax_values {w : ℕ} (hw : 0 < w) (d : K) (xs : List K) :
    rollingMax w (values xs) = values (rolling w (fun vals => vals.max?.getD d) xs) := by
  rw [rollingMax, values, rolling_map, values, map_rolling]
  refine rolling_congr fun i hi => ?_
  rw [reduceOption_map_some]
  cases hmax : (window w xs i).max? with
  | none => exact absurd (List.max?_eq_none_iff.mp hmax) (window_ne_nil hw hi)
  | some x => rfl

end Order

end Column
