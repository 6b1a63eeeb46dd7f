import Mathlib.Algebra.BigOperators.Group.List.Basic
import Mathlib.Tactic

set_option relaxedAutoImplicit false
set_option autoImplicit false

/-!
# Rolling computations over a series

A transform of a series looks back over `m` entries when each of its rows is decided by the `m`
newest entries at that row. Such a transform is causal: later entries change no row. It also
forgets: the last row of a long series is the last row of its newest `m` entries.

## Main definitions

* `newest m xs` — the newest `m` entries of a series, or all of them when there are fewer.
* `window m xs i` — the newest `m` entries at position `i`.
* `HasMemory m f` — the rows of the transform `f` look back over `m` entries.
* `rolling w g` — apply `g` to the window of each position.
* `RunningSum` — the sum of a window that moves along a series.

## Main results

* `HasMemory.append`, `HasMemory.forget` — a transform with a memory is causal, and forgets.
* `HasMemory.comp` — the memories of two transforms, one after the other.
* `RunningSum.trail_window` — a running sum over at most `w` entries has the newest `w`.
-/

universe u v w

variable {α : Type u} {β : Type v} {γ : Type w}

/-! ## Windows -/

/-- The newest `m` entries of a series, or all of them when there are fewer. -/
def newest (m : ℕ) (xs : List α) : List α := xs.drop (xs.length - m)

/-- The newest `m` entries of a series at position `i`. -/
def window (m : ℕ) (xs : List α) (i : ℕ) : List α := newest m (xs.take (i + 1))

lemma length_newest (m : ℕ) (xs : List α) : (newest m xs).length = min m xs.length := by
  rw [newest, List.length_drop]
  omega

/-- The newest of the newest. -/
lemma newest_newest {m m' : ℕ} (h : m' ≤ m) (xs : List α) :
    newest m' (newest m xs) = newest m' xs := by
  unfold newest
  rw [List.drop_drop, List.length_drop]
  congr 1
  omega

lemma newest_map (m : ℕ) (f : α → β) (xs : List α) :
    newest m (xs.map f) = (newest m xs).map f := by
  rw [newest, newest, List.map_drop, List.length_map]

/-- One more entry joins the newest, and the oldest of them leaves when they are too many. -/
lemma newest_concat (m : ℕ) (xs : List α) (x : α) :
    newest m (xs ++ [x]) =
      if m < (newest m xs ++ [x]).length then (newest m xs ++ [x]).tail
      else newest m xs ++ [x] := by
  have hlength : (newest m xs ++ [x]).length = min m xs.length + 1 := by
    rw [List.length_append, length_newest, List.length_singleton]
  have happend : newest m xs ++ [x] = (xs ++ [x]).drop (xs.length - m) := by
    rw [newest, List.drop_append_of_le_length (by omega)]
  rw [hlength]
  by_cases h : m ≤ xs.length
  · rw [if_pos (by omega), happend, List.tail_drop, newest]
    congr 1
    rw [List.length_append, List.length_singleton]
    omega
  · rw [if_neg (by omega), happend, newest]
    congr 1
    rw [List.length_append, List.length_singleton]
    omega

/-- Entries join the newest as they join the whole series. -/
lemma newest_append_newest (m : ℕ) (xs ys : List α) :
    newest m (newest m xs ++ ys) = newest m (xs ++ ys) := by
  have happend : newest m xs ++ ys = (xs ++ ys).drop (xs.length - m) := by
    rw [newest, List.drop_append_of_le_length (by omega)]
  rw [happend, newest, newest, List.drop_drop, List.length_drop, List.length_append]
  congr 1
  omega

lemma length_window (m : ℕ) {xs : List α} {i : ℕ} (hi : i < xs.length) :
    (window m xs i).length = min m (i + 1) := by
  rw [window, length_newest, List.length_take]
  omega

/-- A window as a slice. -/
lemma window_eq_drop (m : ℕ) {xs : List α} {i : ℕ} (hi : i < xs.length) :
    window m xs i = (xs.take (i + 1)).drop (i + 1 - m) := by
  rw [window, newest, List.length_take]
  congr 1
  omega

/-- A window of a position in the series has that position. -/
lemma window_ne_nil {m : ℕ} {xs : List α} {i : ℕ} (hm : 0 < m) (hi : i < xs.length) :
    window m xs i ≠ [] := by
  rw [← List.length_pos_iff, length_window m hi]
  omega

lemma window_map (m : ℕ) (f : α → β) (xs : List α) (i : ℕ) :
    window m (xs.map f) i = (window m xs i).map f := by
  rw [window, window, ← List.map_take, newest_map]

/-- Later entries are in no window. -/
lemma window_append (m : ℕ) {xs : List α} {i : ℕ} (hi : i < xs.length) (ys : List α) :
    window m (xs ++ ys) i = window m xs i := by
  rw [window, window, List.take_append_of_le_length (by omega)]

/-- The window of the last position. -/
lemma window_last (m : ℕ) (xs : List α) : window m xs (xs.length - 1) = newest m xs := by
  rw [window, List.take_of_length_le (by omega)]

/-- A shorter window is the end of a longer one. -/
lemma window_mono {m m' : ℕ} (h : m' ≤ m) (xs : List α) (i : ℕ) :
    window m' xs i = newest m' (window m xs i) := by
  rw [window, window, newest_newest h]

/-- The window of an earlier position is the start of a longer window. -/
lemma window_sub (m d : ℕ) {xs : List α} {i : ℕ} (hi : i < xs.length) (hd : d ≤ i) :
    window m xs (i - d) = (window (m + d) xs i).take ((window (m + d) xs i).length - d) := by
  rw [length_window _ hi, window_eq_drop _ hi, window_eq_drop _ (by omega), List.drop_take,
    List.drop_take, List.take_take]
  rw [show i - d + 1 - m = i + 1 - (m + d) by omega]
  congr 1
  omega

/-- What stands `k` entries back stands `k` entries from the end of a window. -/
lemma getElem?_window {m k : ℕ} {xs : List α} {i : ℕ} (hi : i < xs.length) (hkm : k < m)
    (hki : k ≤ i) : (window m xs i)[(window m xs i).length - 1 - k]? = xs[i - k]? := by
  rw [length_window _ hi, window_eq_drop _ hi, List.getElem?_drop,
    List.getElem?_take_of_lt (by omega)]
  congr 1
  omega

section SameWindow

variable {m : ℕ} {xs ys : List α} {i j : ℕ}

/-- Positions with the same window have as many entries before them, up to its width. -/
lemma le_iff_of_window_eq (hi : i < xs.length) (hj : j < ys.length)
    (h : window m xs i = window m ys j) {k : ℕ} (hk : k < m) : k ≤ i ↔ k ≤ j := by
  have hlength := congrArg List.length h
  rw [length_window _ hi, length_window _ hj] at hlength
  omega

/-- Positions with the same window have the same entries before them, up to its width. -/
lemma getElem?_eq_of_window_eq (hi : i < xs.length) (hj : j < ys.length)
    (h : window m xs i = window m ys j) {k : ℕ} (hk : k < m) (hki : k ≤ i) :
    xs[i - k]? = ys[j - k]? := by
  have hkj := (le_iff_of_window_eq hi hj h hk).mp hki
  rw [← getElem?_window hi hk hki, ← getElem?_window hj hk hkj, h]

lemma getD_eq_of_window_eq (hi : i < xs.length) (hj : j < ys.length)
    (h : window m xs i = window m ys j) {k : ℕ} (hk : k < m) (hki : k ≤ i) (d : α) :
    xs.getD (i - k) d = ys.getD (j - k) d := by
  rw [List.getD_eq_getElem?_getD, List.getD_eq_getElem?_getD,
    getElem?_eq_of_window_eq hi hj h hk hki]

/-- Positions with the same window have the same shorter windows before them. -/
lemma window_sub_eq {d : ℕ} (hi : i < xs.length) (hj : j < ys.length) (hdi : d ≤ i) (hdj : d ≤ j)
    (h : window (m + d) xs i = window (m + d) ys j) :
    window m xs (i - d) = window m ys (j - d) := by
  rw [window_sub m d hi hdi, window_sub m d hj hdj, h]

/-- Positions with the same window have the same shorter windows. -/
lemma window_eq_of_le {m' : ℕ} (hle : m' ≤ m) (h : window m xs i = window m ys j) :
    window m' xs i = window m' ys j := by
  rw [window_mono hle, h, ← window_mono hle]

end SameWindow

/-! ## Memory -/

/-- The transform has a row for each entry, and the newest `m` entries decide it. -/
structure HasMemory (m : ℕ) (f : List α → List β) : Prop where
  length_eq : ∀ xs, (f xs).length = xs.length
  row_eq : ∀ {xs ys : List α} {i j : ℕ}, i < xs.length → j < ys.length →
    window m xs i = window m ys j → (f xs)[i]? = (f ys)[j]?

namespace HasMemory

variable {m m' : ℕ} {f : List α → List β}

/-- **Causality.** Later entries change no row. -/
theorem append (h : HasMemory m f) {xs : List α} {i : ℕ} (hi : i < xs.length) (ys : List α) :
    (f (xs ++ ys))[i]? = (f xs)[i]? := by
  have hlong : i < (xs ++ ys).length := by
    rw [List.length_append]
    omega
  exact h.row_eq hlong hi (window_append m hi ys)

/-- **Forgetting.** The last row is the last row of the newest entries. -/
theorem forget (h : HasMemory m f) (hle : m ≤ m') (hpos : 0 < m') (xs : List α) :
    (f (newest m' xs)).getLast? = (f xs).getLast? := by
  rw [List.getLast?_eq_getElem?, List.getLast?_eq_getElem?, h.length_eq, h.length_eq]
  have hlength := length_newest m' xs
  rcases Nat.eq_zero_or_pos xs.length with hnil | hxs
  · rw [List.length_eq_zero_iff.mp (by omega : (newest m' xs).length = 0),
      List.length_eq_zero_iff.mp hnil]
  refine h.row_eq (by omega) (by omega) ?_
  rw [window_last, window_last, newest_newest hle]

/-- A longer memory. -/
lemma mono (h : HasMemory m f) (hle : m ≤ m') : HasMemory m' f where
  length_eq := h.length_eq
  row_eq := fun hi hj hwin => h.row_eq hi hj (window_eq_of_le hle hwin)

/-- The series itself. -/
lemma id : HasMemory 1 (fun xs : List α => xs) where
  length_eq := fun _ => rfl
  row_eq := fun hi hj hwin => getElem?_eq_of_window_eq hi hj hwin one_pos (Nat.zero_le _)

/-- A change of every entry, before. -/
lemma comp_map {g : List β → List γ} (h : HasMemory m g) (t : α → β) :
    HasMemory m fun xs => g (xs.map t) where
  length_eq := fun xs => by rw [h.length_eq, List.length_map]
  row_eq := by
    intro xs ys i j hi hj hwin
    refine h.row_eq (by rwa [List.length_map]) (by rwa [List.length_map]) ?_
    rw [window_map, window_map, hwin]

/-- A change of every row, after. -/
lemma map (h : HasMemory m f) (t : β → γ) : HasMemory m fun xs => (f xs).map t where
  length_eq := fun xs => by rw [List.length_map, h.length_eq]
  row_eq := by
    intro xs ys i j hi hj hwin
    rw [List.getElem?_map, List.getElem?_map, h.row_eq hi hj hwin]

/-- Two transforms, combined row by row. -/
lemma zipWith {δ : Type*} {g : List α → List γ} (hf : HasMemory m f) (hg : HasMemory m g)
    (t : β → γ → δ) : HasMemory m fun xs => List.zipWith t (f xs) (g xs) where
  length_eq := fun xs => by rw [List.length_zipWith, hf.length_eq, hg.length_eq, min_self]
  row_eq := by
    intro xs ys i j hi hj hwin
    rw [List.getElem?_zipWith, List.getElem?_zipWith, hf.row_eq hi hj hwin,
      hg.row_eq hi hj hwin]

/-- **Composition.** A transform that looks back `w` rows of one that looks back `m` further
entries. -/
theorem comp {w : ℕ} {g : List β → List γ} (hf : HasMemory (m + 1) f) (hg : HasMemory w g) :
    HasMemory (m + w) fun xs => g (f xs) where
  length_eq := fun xs => by rw [hg.length_eq, hf.length_eq]
  row_eq := by
    intro xs ys i j hi hj hwin
    have hfi : i < (f xs).length := by rwa [hf.length_eq]
    have hfj : j < (f ys).length := by rwa [hf.length_eq]
    refine hg.row_eq hfi hfj ?_
    have hlength : min w (i + 1) = min w (j + 1) := by
      have h := congrArg List.length hwin
      rw [length_window _ hi, length_window _ hj] at h
      omega
    refine List.ext_getElem?' fun n hn => ?_
    rw [length_window _ hfi, length_window _ hfj, ← hlength, max_self] at hn
    -- row `n` of the windows stands `k` rows back
    obtain ⟨k, hk⟩ : ∃ k, n + k + 1 = min w (i + 1) := ⟨min w (i + 1) - 1 - n, by omega⟩
    have hrow := getElem?_window (m := w) (k := k) hfi (by omega) (by omega)
    have hrow' := getElem?_window (m := w) (k := k) hfj (by omega) (by omega)
    rw [length_window _ hfi, show min w (i + 1) - 1 - k = n by omega] at hrow
    rw [length_window _ hfj, show min w (j + 1) - 1 - k = n by omega] at hrow'
    rw [hrow, hrow']
    refine hf.row_eq (by omega) (by omega) ?_
    exact window_sub_eq hi hj (by omega) (by omega) (window_eq_of_le (by omega) hwin)

/-- A row of the values that several transforms have at its position. -/
lemma columns {d : β} {fs : List (List α → List β)} (h : ∀ f ∈ fs, HasMemory m f) :
    HasMemory m fun xs => (List.range xs.length).map fun i => fs.map fun f => (f xs).getD i d where
  length_eq := fun xs => by rw [List.length_map, List.length_range]
  row_eq := by
    intro xs ys i j hi hj hwin
    rw [List.getElem?_map, List.getElem?_map, List.getElem?_range hi, List.getElem?_range hj,
      Option.map_some, Option.map_some]
    refine congrArg some (List.map_congr_left fun f hf => ?_)
    rw [List.getD_eq_getElem?_getD, List.getD_eq_getElem?_getD, (h f hf).row_eq hi hj hwin]

end HasMemory

/-! ## Rolling windows -/

/-- Apply `g` to the window of each position. -/
def rolling (w : ℕ) (g : List α → β) (xs : List α) : List β :=
  (List.range xs.length).map fun i => g (window w xs i)

lemma rolling_congr {w : ℕ} {g g' : List α → β} {xs : List α}
    (h : ∀ i < xs.length, g (window w xs i) = g' (window w xs i)) :
    rolling w g xs = rolling w g' xs :=
  List.map_congr_left fun i hi => h i (List.mem_range.mp hi)

lemma rolling_map (w : ℕ) (t : γ → α) (g : List α → β) (xs : List γ) :
    rolling w g (xs.map t) = rolling w (fun entries => g (entries.map t)) xs := by
  unfold rolling
  rw [List.length_map]
  exact List.map_congr_left fun i _ => congrArg g (window_map w t xs i)

lemma map_rolling (w : ℕ) (t : β → γ) (g : List α → β) (xs : List α) :
    (rolling w g xs).map t = rolling w (fun entries => t (g entries)) xs := by
  rw [rolling, rolling, List.map_map]
  rfl

lemma length_rolling (w : ℕ) (g : List α → β) (xs : List α) :
    (rolling w g xs).length = xs.length := by
  rw [rolling, List.length_map, List.length_range]

lemma getElem?_rolling (w : ℕ) (g : List α → β) {xs : List α} {i : ℕ} (hi : i < xs.length) :
    (rolling w g xs)[i]? = some (g (window w xs i)) := by
  rw [rolling, List.getElem?_map, List.getElem?_range hi, Option.map_some]

/-- The rows of the first entries of a series are the first rows. -/
lemma take_rolling (w : ℕ) (g : List α → β) (xs : List α) (n : ℕ) :
    (rolling w g xs).take n = rolling w g (xs.take n) := by
  unfold rolling
  rw [← List.map_take, List.take_range, List.length_take]
  refine List.map_congr_left fun i hi => ?_
  have hlt := List.mem_range.mp hi
  rw [window, window, List.take_take, min_eq_left (by omega)]

/-- A transform is rolling when its rows are. -/
lemma eq_rolling {w : ℕ} {g : List α → β} {xs : List α} {rows : List β}
    (hlength : rows.length = xs.length)
    (hrow : ∀ i < xs.length, rows[i]? = some (g (window w xs i))) : rows = rolling w g xs := by
  refine List.ext_getElem?' fun i hi => ?_
  rw [hlength, length_rolling, max_self] at hi
  rw [hrow i hi, getElem?_rolling w g hi]

/-- A rolling transform looks back as far as its window. -/
lemma hasMemory_rolling (w : ℕ) (g : List α → β) : HasMemory w (rolling w g) where
  length_eq := length_rolling w g
  row_eq := by
    intro xs ys i j hi hj hwin
    rw [getElem?_rolling w g hi, getElem?_rolling w g hj, hwin]

/-! ## Running sums -/

/-- The sum of a window that moves along a series, kept without adding it up again. -/
structure RunningSum (α : Type u) [AddCommGroup α] where
  entries : List α
  acc : α
  acc_eq : acc = entries.sum

namespace RunningSum

variable [AddCommGroup α]

/-- Nothing in the window. -/
def empty : RunningSum α := ⟨[], 0, rfl⟩

/-- An entry joins the window. -/
def append (s : RunningSum α) (x : α) : RunningSum α where
  entries := s.entries ++ [x]
  acc := s.acc + x
  acc_eq := by rw [List.sum_append, List.sum_singleton, s.acc_eq]

/-- The oldest entry leaves the window. -/
def popleft (s : RunningSum α) : RunningSum α where
  entries := s.entries.tail
  acc := s.acc - s.entries.headD 0
  acc_eq := by
    rw [s.acc_eq]
    cases s.entries with
    | nil => simp
    | cons x xs => simp

/-- One position further: an entry joins, and the oldest leaves when there are more than `w`. -/
def trail (w : ℕ) (s : RunningSum α) (x : α) : RunningSum α :=
  if w < (s.append x).entries.length then (s.append x).popleft else s.append x

/-- The running sums along a series. -/
def scan (w : ℕ) : RunningSum α → List α → List (RunningSum α)
  | _, [] => []
  | s, x :: xs => s.trail w x :: scan w (s.trail w x) xs

/-- **Step.** A running sum over the newest `w` entries stays one. -/
theorem trail_window {w : ℕ} {s : RunningSum α} {xs : List α} (h : s.entries = newest w xs)
    (x : α) : (s.trail w x).entries = newest w (xs ++ [x]) := by
  have happend : (s.append x).entries = newest w xs ++ [x] := by
    rw [← h]
    rfl
  rw [newest_concat, ← happend, trail]
  by_cases hw : w < (s.append x).entries.length
  · rw [if_pos hw, if_pos hw]
    rfl
  · rw [if_neg hw, if_neg hw]

lemma length_scan (w : ℕ) (s : RunningSum α) (xs : List α) : (s.scan w xs).length = xs.length := by
  induction xs generalizing s with
  | nil => rfl
  | cons x xs ih => rw [scan, List.length_cons, ih, List.length_cons]

/-- **Run.** Along a series, the running sums are those of the windows. -/
theorem getElem?_scan {w : ℕ} {s : RunningSum α} {before xs : List α}
    (h : s.entries = newest w before) {i : ℕ} (hi : i < xs.length) :
    ∃ t : RunningSum α, (s.scan w xs)[i]? = some t ∧
      t.entries = window w (before ++ xs) (before.length + i) := by
  induction xs generalizing s before i with
  | nil => exact absurd hi (Nat.not_lt_zero i)
  | cons x xs ih =>
    have hstep := trail_window h x
    cases i with
    | zero =>
      refine ⟨s.trail w x, rfl, ?_⟩
      rw [hstep, window, List.take_append, List.take_of_length_le (by omega)]
      congr 2
      rw [show before.length + 0 + 1 - before.length = 1 by omega]
      rfl
    | succ i =>
      obtain ⟨t, ht, hentries⟩ := ih hstep (Nat.lt_of_succ_lt_succ hi)
      refine ⟨t, ht, ?_⟩
      rw [hentries, List.append_assoc, List.singleton_append, List.length_append,
        List.length_singleton, Nat.add_right_comm, Nat.add_assoc]

/-- What is read off the running sums along a series is rolling. -/
theorem map_scan (w : ℕ) (g : α → List α → β) (xs : List α) :
    ((empty.scan w xs).map fun s => g s.acc s.entries) =
      rolling w (fun entries => g entries.sum entries) xs := by
  refine eq_rolling ?_ fun i hi => ?_
  · rw [List.length_map, length_scan]
  · have hempty : (empty : RunningSum α).entries = newest w [] := List.drop_nil.symm
    obtain ⟨t, ht, hentries⟩ := getElem?_scan hempty hi
    rw [List.nil_append, List.length_nil, Nat.zero_add] at hentries
    rw [List.getElem?_map, ht, Option.map_some, t.acc_eq, hentries]

end RunningSum
