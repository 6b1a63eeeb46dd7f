import Mathlib.Algebra.Order.Floor.Ring
import Mathlib.Data.Rat.Floor
import Mathlib.Tactic

set_option relaxedAutoImplicit false
set_option autoImplicit false

/-!
# Gate windows and training bars

Where the gate places its windows (`generate_offsets` of `research/eval.py`), which bars the
trainer reads (`build_dataset` of `models/xgb/train.py`), and when the two, or two sets of
windows, share a bar.

## Main definitions

* `KeelTrader.Research.Rng` — a seeded generator with the contract of `randint`.
* `KeelTrader.Research.offsetRange`, `generateOffsets` — the range of start offsets, and the
  offsets.
* `KeelTrader.Research.startRange` — the range between two fractions of the file.
* `KeelTrader.Research.windowBars` — the bars of a window.
* `KeelTrader.Research.buildDataset` — the rows of the training set and the bars read for them.
* `KeelTrader.Research.Unseen`, `LeakageFree` — no bar in common, and training before gating.

## Main results

* `KeelTrader.Research.offsetRange_spec` — the range is not empty and inside the file.
* `KeelTrader.Research.leakageFree_iff_draws` — when the offsets that one seed draws leak no bar.
* `KeelTrader.Research.unseen_iff` — when adjacent ranges give disjoint windows, for every
  generator and seed.
* `KeelTrader.Research.mem_buildDataset`, `LeakageFree.rows` — the rows of the training set, and
  what they read.
* `KeelTrader.Research.leakageFree_iff` — exactly when training on a first fraction and gating on
  the rest is free of leakage.

## Implementation notes

Products of a length with a fraction are exact. The generator is a parameter of which only the
contract of `randint` is used; a window covers the bars from its offset to `window_steps` after
it.
-/

namespace KeelTrader.Research

/-! ## Offsets -/

/-- `int(x)`: truncation towards zero. -/
def pyInt (x : ℚ) : ℤ := if 0 ≤ x then ⌊x⌋ else ⌈x⌉

lemma pyInt_of_nonneg {x : ℚ} (h : 0 ≤ x) : pyInt x = ⌊x⌋ := if_pos h

/-- A seeded generator: the `i`-th call of `randint(lo, hi)` after `random.Random(seed)`, which
lies in the range whenever the range is not empty. -/
structure Rng where
  /-- The value of a call. -/
  randint : (seed : ℤ) → (i : ℕ) → (lo hi : ℤ) → ℤ
  /-- The contract of `randint`. -/
  mem_range : ∀ seed i lo hi, lo ≤ hi → lo ≤ randint seed i lo hi ∧ randint seed i lo hi ≤ hi

/-- The generator whose values are as close to `x` as the range allows. -/
def Rng.towards (x : ℤ) : Rng where
  randint _ _ lo hi := max lo (min hi x)
  mem_range _ _ _ _ h := ⟨le_max_left _ _, max_le h (min_le_left _ _)⟩

/-- The generator that draws the given distances from the start of its range, or its end where
these are too large. -/
def Rng.ofDraws (draws : List ℕ) : Rng where
  randint _ i lo hi := lo + min (draws.getD i 0 : ℤ) (hi - lo)
  mem_range _ i lo hi h := by
    have hnonneg : 0 ≤ min (draws.getD i 0 : ℤ) (hi - lo) := le_min (Nat.cast_nonneg _) (by omega)
    have hle := min_le_right (draws.getD i 0 : ℤ) (hi - lo)
    omega

/-- The `ValueError` of `generate_offsets`: "window_steps=… too large for … timesteps". -/
structure WindowTooLarge where
  windowSteps : ℕ
  numTimesteps : ℕ
  deriving DecidableEq, Repr

/-- The largest start offset of a window. -/
def maxOffset (numTimesteps windowSteps : ℕ) : ℤ := (numTimesteps : ℤ) - windowSteps - 1

/-- The range of start offsets that `generate_offsets` draws from. -/
def offsetRange (maxOffset : ℤ) (loFrac hiFrac : ℚ) : ℤ × ℤ :=
  let lo := max 0 (pyInt (maxOffset * loFrac))
  let hi := min maxOffset (pyInt (maxOffset * hiFrac))
  -- an empty range is replaced by the whole file
  if hi ≤ lo then (0, maxOffset) else (lo, hi)

/-- The `i`-th offset that is drawn. -/
def drawOffset (rng : Rng) (numTimesteps windowSteps : ℕ) (seed : ℤ) (loFrac hiFrac : ℚ) (i : ℕ) :
    ℤ :=
  rng.randint seed i (offsetRange (maxOffset numTimesteps windowSteps) loFrac hiFrac).1
    (offsetRange (maxOffset numTimesteps windowSteps) loFrac hiFrac).2

/-- `generate_offsets`. -/
def generateOffsets (rng : Rng) (numTimesteps nWindows windowSteps : ℕ) (seed : ℤ)
    (loFrac hiFrac : ℚ) : Except WindowTooLarge (List ℤ) :=
  if maxOffset numTimesteps windowSteps ≤ 0 then .error ⟨windowSteps, numTimesteps⟩
  else .ok ((List.range nWindows).map (drawOffset rng numTimesteps windowSteps seed loFrac hiFrac))

/-- The bar `t` belongs to the window of `windowSteps` steps that starts at `offset`. -/
def windowBars (windowSteps : ℕ) (offset t : ℤ) : Prop := offset ≤ t ∧ t ≤ offset + windowSteps

/-- The range is not empty and inside the file. -/
theorem offsetRange_spec {maxOffset : ℤ} (h : 0 < maxOffset) (loFrac hiFrac : ℚ) :
    0 ≤ (offsetRange maxOffset loFrac hiFrac).1 ∧
      (offsetRange maxOffset loFrac hiFrac).1 < (offsetRange maxOffset loFrac hiFrac).2 ∧
      (offsetRange maxOffset loFrac hiFrac).2 ≤ maxOffset := by
  simp only [offsetRange]
  by_cases hempty : min maxOffset (pyInt (maxOffset * hiFrac)) ≤
      max 0 (pyInt (maxOffset * loFrac))
  · rw [if_pos hempty]
    exact ⟨le_rfl, h, le_rfl⟩
  · rw [if_neg hempty]
    exact ⟨le_max_left _ _, not_le.mp hempty, min_le_left _ _⟩

section Offsets

variable {rng : Rng} {T W n : ℕ} {seed : ℤ} {lo hi : ℚ}

/-- Every offset is drawn from the range. -/
lemma drawOffset_mem (h : 0 < maxOffset T W) (rng : Rng) (seed : ℤ) (lo hi : ℚ) (i : ℕ) :
    (offsetRange (maxOffset T W) lo hi).1 ≤ drawOffset rng T W seed lo hi i ∧
      drawOffset rng T W seed lo hi i ≤ (offsetRange (maxOffset T W) lo hi).2 :=
  rng.mem_range seed i _ _ (le_of_lt (offsetRange_spec h lo hi).2.1)

/-- The offsets of a file that is long enough. -/
lemma generateOffsets_of_pos (h : 0 < maxOffset T W) :
    generateOffsets rng T n W seed lo hi =
      .ok ((List.range n).map (drawOffset rng T W seed lo hi)) :=
  if_neg (not_le.mpr h)

/-- Every window that is generated lies inside the file. -/
lemma generateOffsets_ok {offsets : List ℤ}
    (h : generateOffsets rng T n W seed lo hi = .ok offsets) :
    offsets.length = n ∧ ∀ o ∈ offsets, 0 ≤ o ∧ o + W < T := by
  have hpos : 0 < maxOffset T W := by
    by_contra hnot
    simp only [generateOffsets, if_pos (not_lt.mp hnot)] at h
    cases h
  rw [generateOffsets_of_pos hpos] at h
  cases h
  refine ⟨by simp, fun o ho => ?_⟩
  obtain ⟨i, -, rfl⟩ := List.mem_map.mp ho
  obtain ⟨hlo, hhi⟩ := drawOffset_mem hpos rng seed lo hi i
  obtain ⟨hfirst, -, hlast⟩ := offsetRange_spec hpos lo hi
  have hmax : maxOffset T W = (T : ℤ) - W - 1 := rfl
  omega

/-- A generator that aims at an offset of the range draws it. -/
lemma drawOffset_towards (seed : ℤ) {x : ℤ} (hlo : (offsetRange (maxOffset T W) lo hi).1 ≤ x)
    (hhi : x ≤ (offsetRange (maxOffset T W) lo hi).2) (i : ℕ) :
    drawOffset (Rng.towards x) T W seed lo hi i = x := by
  show max _ (min _ x) = x
  rw [min_eq_right hhi, max_eq_right hlo]

end Offsets

/-! ## Fractions of a range -/

/-- A fraction of the largest offset is an offset. -/
lemma pyInt_mul_mem {m : ℤ} (h : 0 < m) {q : ℚ} (h0 : 0 ≤ q) (h1 : q ≤ 1) :
    0 ≤ pyInt (m * q) ∧ pyInt (m * q) ≤ m := by
  have hm : (0 : ℚ) < m := by exact_mod_cast h
  have hnonneg : 0 ≤ (m : ℚ) * q := mul_nonneg hm.le h0
  have hle : (m : ℚ) * q ≤ m := by nlinarith
  rw [pyInt_of_nonneg hnonneg]
  refine ⟨Int.floor_nonneg.mpr hnonneg, ?_⟩
  have hfloor := Int.floor_le ((m : ℚ) * q)
  exact_mod_cast hfloor.trans hle

/-- The start offsets between two fractions of the largest one, or all of them when these are one
offset. -/
def startRange (T W : ℕ) (lo hi : ℚ) : ℤ × ℤ :=
  if ⌊((T : ℚ) - W - 1) * lo⌋ < ⌊((T : ℚ) - W - 1) * hi⌋ then
    (⌊((T : ℚ) - W - 1) * lo⌋, ⌊((T : ℚ) - W - 1) * hi⌋)
  else (0, (T : ℤ) - W - 1)

/-- The range that offsets are drawn from, for fractions of the file. -/
lemma offsetRange_eq_startRange {T W : ℕ} (h : 0 < maxOffset T W) {lo hi : ℚ} (h0 : 0 ≤ lo)
    (hlt : lo < hi) (h1 : hi ≤ 1) : offsetRange (maxOffset T W) lo hi = startRange T W lo hi := by
  have hcast : ((maxOffset T W : ℤ) : ℚ) = (T : ℚ) - W - 1 := by simp [maxOffset]
  have hm : (0 : ℚ) < maxOffset T W := by exact_mod_cast h
  have hfloor : ∀ {q : ℚ}, 0 ≤ q → pyInt (maxOffset T W * q) = ⌊((T : ℚ) - W - 1) * q⌋ := by
    intro q hq
    rw [pyInt_of_nonneg (mul_nonneg hm.le hq), hcast]
  have hlo := pyInt_mul_mem h h0 (hlt.le.trans h1)
  have hhi := pyInt_mul_mem h (h0.trans hlt.le) h1
  unfold offsetRange startRange
  rw [hfloor h0] at hlo ⊢
  rw [hfloor (h0.trans hlt.le)] at hhi ⊢
  dsimp only
  rw [max_eq_right hlo.1, min_eq_right hhi.2]
  by_cases hempty : ⌊((T : ℚ) - W - 1) * hi⌋ ≤ ⌊((T : ℚ) - W - 1) * lo⌋
  · rw [if_pos hempty, if_neg (not_lt.mpr hempty), maxOffset]
  · rw [if_neg hempty, if_pos (not_le.mp hempty)]

/-! ## In-sample and unseen windows -/

/-- No bar is both in a window generated for `[a, b]` and in one generated for `[b, c]`. -/
def Unseen (rng : Rng) (T n W : ℕ) (seed : ℤ) (a b c : ℚ) : Prop :=
  ∀ inSample unseen, generateOffsets rng T n W seed a b = .ok inSample →
    generateOffsets rng T n W seed b c = .ok unseen →
    ∀ o ∈ inSample, ∀ o' ∈ unseen, ∀ t, ¬(windowBars W o t ∧ windowBars W o' t)

/-- Windows share no bar exactly when they start more than a window apart. -/
lemma disjoint_windows_iff (W : ℕ) (o o' : ℤ) :
    (∀ t, ¬(windowBars W o t ∧ windowBars W o' t)) ↔ W < |o - o'| := by
  rw [lt_abs]
  constructor
  · intro h
    by_contra hnear
    push Not at hnear
    -- the later of the two starts lies in both windows
    exact h (max o o') ⟨⟨le_max_left _ _, by omega⟩, le_max_right _ _, by omega⟩
  · rintro hfar t ⟨⟨h1, h2⟩, h3, h4⟩
    omega

/-- **In-sample and unseen windows.** For every generator and seed, the windows of two adjacent
ranges share no bar exactly when every offset that is drawn from the first range is more than a
window away from every offset that is drawn from the second one. -/
theorem unseen_iff (T W n : ℕ) (a b c : ℚ) (hpos : (T : ℤ) - W - 1 > 0) (ha : 0 ≤ a) (hab : a < b)
    (hbc : b < c) (hc : c ≤ 1) (rng : Rng) (seed : ℤ) :
    Unseen rng T n W seed a b c ↔ ∀ i < n, ∀ j < n,
      (W : ℤ) < |rng.randint seed i (startRange T W a b).1 (startRange T W a b).2 -
        rng.randint seed j (startRange T W b c).1 (startRange T W b c).2| := by
  have hinSample := offsetRange_eq_startRange hpos ha hab (hbc.le.trans hc)
  have hunseen := offsetRange_eq_startRange hpos (ha.trans hab.le) hbc hc
  rw [← hinSample, ← hunseen]
  constructor
  · intro h i hi j hj
    exact (disjoint_windows_iff _ _ _).mp (h _ _ (generateOffsets_of_pos hpos)
      (generateOffsets_of_pos hpos) _ (List.mem_map_of_mem (List.mem_range.mpr hi)) _
      (List.mem_map_of_mem (List.mem_range.mpr hj)))
  · intro h inSample unseen hin hun o ho o' ho'
    rw [generateOffsets_of_pos hpos] at hin hun
    cases hin
    cases hun
    obtain ⟨i, hi, rfl⟩ := List.mem_map.mp ho
    obtain ⟨j, hj, rfl⟩ := List.mem_map.mp ho'
    exact (disjoint_windows_iff _ _ _).mpr (h i (List.mem_range.mp hi) j (List.mem_range.mp hj))

/-- With a window of one step, the first eight draws of seed `0` split 102 bars in two halves
without a common bar. -/
theorem unseen_iff_short_window :
    Unseen (.ofDraws [24, 48, 26, 2, 16, 32, 31, 25]) 102 8 1 0 0 (1 / 2) 1 := by
  have hleft : startRange 102 1 0 (1 / 2) = (0, 50) := by norm_num [startRange]
  have hright : startRange 102 1 (1 / 2) 1 = (50, 100) := by norm_num [startRange]
  refine (unseen_iff 102 1 8 0 (1 / 2) 1 (by decide) le_rfl (by norm_num) (by norm_num) le_rfl _
    0).mpr ?_
  rw [hleft, hright]
  decide +kernel

/-- With the default window and 1000 bars, the train split and the test split of a 60% cut share
bars for every generator and every seed. -/
theorem not_unseen_default_window :
    ¬∃ rng seed, Unseen rng 1000 8 720 seed 0 (3 / 5) 1 := by
  rintro ⟨rng, seed, h⟩
  have hpos : 0 < maxOffset 1000 720 := by decide
  -- all the offsets lie below 280, so no two are a window apart
  obtain ⟨h1, h2⟩ := drawOffset_mem hpos rng seed 0 (3 / 5) 0
  obtain ⟨h3, h4⟩ := drawOffset_mem hpos rng seed (3 / 5) 1 0
  obtain ⟨h5, -, h6⟩ := offsetRange_spec hpos 0 (3 / 5)
  obtain ⟨h7, -, h8⟩ := offsetRange_spec hpos (3 / 5) 1
  have hfar := (disjoint_windows_iff _ _ _).mp (h _ _ (generateOffsets_of_pos hpos)
    (generateOffsets_of_pos hpos) _ (List.mem_map_of_mem (List.mem_range.mpr (by decide : 0 < 8))) _
    (List.mem_map_of_mem (List.mem_range.mpr (by decide : 0 < 8))))
  rw [lt_abs] at hfar
  have hmax : maxOffset 1000 720 = 279 := by decide
  omega

/-! ## The training set -/

/-- What one round of the loops of `build_dataset` does: the bars whose close it reads, and the
row it appends, if any. -/
structure Visit (F : Type) where
  barsRead : List ℕ
  row : Option (F × Bool)

section Dataset

variable {F : Type} (feats : ℕ → ℕ → F) (close : ℕ → ℕ → ℚ) (horizon : ℕ) (upThreshold : ℚ)

/-- One round of the loops of `build_dataset`, at bar `t` and symbol `s`. -/
def visit (t s : ℕ) : Visit F :=
  let closeNow := close t s
  let closeFut := close (t + horizon) s
  { barsRead := [t, t + horizon]
    row := if closeNow ≤ 0 then none
      else some (feats t s, decide ((closeFut - closeNow) / closeNow > upThreshold)) }

/-- `t_max - horizon`, the number of bars that are sampled. -/
def sampledBars (numTimesteps : ℕ) (trainFrac : ℚ) : ℕ :=
  (pyInt (numTimesteps * trainFrac) - horizon).toNat

/-- The rounds of `build_dataset`. -/
def visits (numTimesteps numSymbols : ℕ) (trainFrac : ℚ) : List (Visit F) :=
  (List.range (sampledBars horizon numTimesteps trainFrac)).flatMap fun t =>
    (List.range numSymbols).map fun s => visit feats close horizon upThreshold t s

/-- `build_dataset`: the rows and their labels. -/
def buildDataset (numTimesteps numSymbols : ℕ) (trainFrac : ℚ) : List (F × Bool) :=
  (visits feats close horizon upThreshold numTimesteps numSymbols trainFrac).filterMap Visit.row

/-- The bars that `build_dataset` reads. -/
def datasetBars (numTimesteps numSymbols : ℕ) (trainFrac : ℚ) : List ℕ :=
  (visits feats close horizon upThreshold numTimesteps numSymbols trainFrac).flatMap Visit.barsRead

variable {feats close horizon upThreshold} {T S : ℕ} {f : ℚ}

/-- **Rows.** Every row of the training set is that of a sampled bar and a symbol with a positive
close, labelled by its return over the horizon, and reads two bars. -/
theorem mem_buildDataset {x : F} {y : Bool} :
    (x, y) ∈ buildDataset feats close horizon upThreshold T S f ↔
      ∃ t < sampledBars horizon T f, ∃ s < S, 0 < close t s ∧ x = feats t s ∧
        y = decide ((close (t + horizon) s - close t s) / close t s > upThreshold) ∧
        t ∈ datasetBars feats close horizon upThreshold T S f ∧
        t + horizon ∈ datasetBars feats close horizon upThreshold T S f := by
  simp only [buildDataset, datasetBars, visits, List.mem_filterMap, List.mem_flatMap, List.mem_map,
    List.mem_range]
  constructor
  · rintro ⟨v, ⟨t, ht, s, hs, rfl⟩, hrow⟩
    unfold visit at hrow
    dsimp only at hrow
    split at hrow
    · cases hrow
    · next hclose =>
      cases hrow
      exact ⟨t, ht, s, hs, not_le.mp hclose, rfl, rfl, ⟨_, ⟨t, ht, s, hs, rfl⟩, by simp [visit]⟩,
        ⟨_, ⟨t, ht, s, hs, rfl⟩, by simp [visit]⟩⟩
  · rintro ⟨t, ht, s, hs, hclose, rfl, rfl, -⟩
    refine ⟨_, ⟨t, ht, s, hs, rfl⟩, ?_⟩
    unfold visit
    exact if_neg (not_le.mpr hclose)

/-- The bars read are the sampled bars and their label bars, when there is a symbol. -/
lemma mem_datasetBars {r : ℕ} :
    r ∈ datasetBars feats close horizon upThreshold T S f ↔
      0 < S ∧ ∃ t < sampledBars horizon T f, r = t ∨ r = t + horizon := by
  simp only [datasetBars, visits, List.mem_flatMap, List.mem_map, List.mem_range]
  constructor
  · rintro ⟨v, ⟨t, ht, s, hs, rfl⟩, hr⟩
    exact ⟨by omega, t, ht, by simpa [visit] using hr⟩
  · rintro ⟨hS, t, ht, hr⟩
    exact ⟨_, ⟨t, ht, 0, hS, rfl⟩, by simpa [visit] using hr⟩

end Dataset

/-! ## Leakage -/

/-- Every bar that training on the first `f` of the file reads lies before every bar that a gate
window on the rest steps. -/
def LeakageFree {F : Type} (feats : ℕ → ℕ → F) (close : ℕ → ℕ → ℚ) (upThreshold : ℚ)
    (rng : Rng) (T S horizon n W : ℕ) (seed : ℤ) (f : ℚ) : Prop :=
  ∀ offsets, generateOffsets rng T n W seed f 1 = .ok offsets →
    ∀ r ∈ datasetBars feats close horizon upThreshold T S f, ∀ o ∈ offsets,
      ∀ t, windowBars W o t → (r : ℤ) < t

section Leakage

variable {F : Type} {feats : ℕ → ℕ → F} {close : ℕ → ℕ → ℚ} {upThreshold f : ℚ}
  {T S horizon n W : ℕ}

/-- **Rows without leakage.** A row of the training set and its label come from two bars that lie
before every bar that a window steps. -/
theorem LeakageFree.rows {rng : Rng} {seed : ℤ}
    (h : LeakageFree feats close upThreshold rng T S horizon n W seed f) {x : F} {y : Bool}
    (hrow : (x, y) ∈ buildDataset feats close horizon upThreshold T S f) {offsets : List ℤ}
    (hoffsets : generateOffsets rng T n W seed f 1 = .ok offsets) :
    ∃ t s, x = feats t s ∧
      y = decide ((close (t + horizon) s - close t s) / close t s > upThreshold) ∧
      ∀ o ∈ offsets, ∀ u, windowBars W o u → ((t + horizon : ℕ) : ℤ) < u := by
  obtain ⟨t, -, s, -, -, hx, hy, -, hlabel⟩ := mem_buildDataset.mp hrow
  exact ⟨t, s, hx, hy, fun o ho u hu => h offsets hoffsets _ hlabel o ho u hu⟩

/-- The gate on the rest of the file starts at the fraction of the largest offset. -/
lemma offsetRange_rest (hpos : 0 < maxOffset T W) (h0 : 0 < f) (h1 : f < 1) :
    offsetRange (maxOffset T W) f 1 = (⌊(maxOffset T W : ℚ) * f⌋, maxOffset T W) := by
  have hm : (0 : ℚ) < maxOffset T W := by exact_mod_cast hpos
  have hnonneg : 0 ≤ (maxOffset T W : ℚ) * f := mul_nonneg hm.le h0.le
  have hlt : (maxOffset T W : ℚ) * f < maxOffset T W := by nlinarith
  have hfloor : ⌊(maxOffset T W : ℚ) * f⌋ < maxOffset T W := Int.floor_lt.mpr hlt
  have hlo : 0 ≤ ⌊(maxOffset T W : ℚ) * f⌋ := Int.floor_nonneg.mpr hnonneg
  have hwhole : pyInt ((maxOffset T W : ℚ) * 1) = maxOffset T W := by
    rw [mul_one, pyInt_of_nonneg hm.le, Int.floor_intCast]
  simp only [offsetRange, hwhole, pyInt_of_nonneg hnonneg, min_self, max_eq_right hlo]
  exact if_neg (not_le.mpr hfloor)

/-- The number of sampled bars, as a difference. -/
lemma sampledBars_eq (h0 : 0 < f) :
    sampledBars horizon T f = (⌊(T : ℚ) * f⌋ - horizon).toNat := by
  unfold sampledBars
  rw [pyInt_of_nonneg (by positivity)]

/-- No bar that is read lies past the cut of the trainer. -/
lemma datasetBars_lt_cut (h0 : 0 < f) {r : ℕ}
    (hr : r ∈ datasetBars feats close horizon upThreshold T S f) :
    (r : ℤ) < ⌊(T : ℚ) * f⌋ := by
  obtain ⟨-, t, ht, hread⟩ := mem_datasetBars.mp hr
  rw [sampledBars_eq h0] at ht
  omega

/-- For one generator and seed training is free of leakage exactly when nothing is read, or every
window starts at or after the cut of the trainer. -/
theorem leakageFree_iff_draws (hpos : 0 < maxOffset T W) (h0 : 0 < f)
    (feats : ℕ → ℕ → F) (close : ℕ → ℕ → ℚ) (upThreshold : ℚ) (rng : Rng) (S horizon n : ℕ)
    (seed : ℤ) :
    LeakageFree feats close upThreshold rng T S horizon n W seed f ↔
      S = 0 ∨ ⌊(T : ℚ) * f⌋ ≤ horizon ∨
        ∀ i < n, ⌊(T : ℚ) * f⌋ ≤ drawOffset rng T W seed f 1 i := by
  constructor
  · intro h
    by_contra hnot
    push Not at hnot
    obtain ⟨hS, hhorizon, i, hi, hstart⟩ := hnot
    -- the last label bar is the last one before the cut of the trainer
    have hlast : (⌊(T : ℚ) * f⌋ - 1).toNat ∈
        datasetBars feats close horizon upThreshold T S f := by
      rw [mem_datasetBars, sampledBars_eq h0]
      exact ⟨Nat.pos_of_ne_zero hS, (⌊(T : ℚ) * f⌋ - horizon - 1).toNat, by omega,
        Or.inr (by omega)⟩
    have hbefore := h _ (generateOffsets_of_pos hpos) _ hlast _
      (List.mem_map_of_mem (List.mem_range.mpr hi)) _ ⟨le_rfl, by omega⟩
    omega
  · intro h offsets hoffsets r hr o ho t ht
    rw [generateOffsets_of_pos hpos] at hoffsets
    cases hoffsets
    obtain ⟨i, hi, rfl⟩ := List.mem_map.mp ho
    have hread := datasetBars_lt_cut h0 hr
    rcases h with hnone | hnone | hstart
    · have hS := (mem_datasetBars.mp hr).1
      omega
    · obtain ⟨-, t', ht', -⟩ := mem_datasetBars.mp hr
      rw [sampledBars_eq h0] at ht'
      omega
    · have hcut := hstart i (List.mem_range.mp hi)
      have hfirst := ht.1
      omega

/-- **When training is free of leakage.** For every generator and seed, training on the first
`f` of the file and gating on the rest have every bar read before every bar stepped if and only
if no window is drawn, nothing is sampled, or the two cuts fall on the same bar. -/
theorem leakageFree_iff (feats : ℕ → ℕ → F) (close : ℕ → ℕ → ℚ) (upThreshold : ℚ)
    (T S horizon n W : ℕ) (f : ℚ) (hpos : (T : ℤ) - W - 1 > 0) (h0 : 0 < f) (h1 : f < 1) :
    (∀ rng seed, LeakageFree feats close upThreshold rng T S horizon n W seed f) ↔
      n = 0 ∨ S = 0 ∨ ⌊(T : ℚ) * f⌋ ≤ horizon ∨
        ⌊(T : ℚ) * f⌋ ≤ ⌊((T : ℚ) - W - 1) * f⌋ := by
  have hcast : ((maxOffset T W : ℤ) : ℚ) = (T : ℚ) - W - 1 := by
    simp [maxOffset]
  have hrange := offsetRange_rest hpos h0 h1
  rw [hcast] at hrange
  have hstart : (offsetRange (maxOffset T W) f 1).1 = ⌊((T : ℚ) - W - 1) * f⌋ :=
    congrArg Prod.fst hrange
  have hordered := (offsetRange_spec hpos f 1).2.1
  simp only [leakageFree_iff_draws hpos h0]
  constructor
  · intro h
    by_contra hnot
    push Not at hnot
    obtain ⟨hn, hS, hhorizon, hcut⟩ := hnot
    -- a window that starts at the cut of the gate
    have hdraw := drawOffset_towards (T := T) (W := W) 0 (le_of_eq hstart)
      (le_trans (le_of_eq hstart.symm) hordered.le) 0
    rcases h (Rng.towards ⌊((T : ℚ) - W - 1) * f⌋) 0 with h | h | h
    · exact hS h
    · omega
    · have hafter := h 0 (Nat.pos_of_ne_zero hn)
      rw [hdraw] at hafter
      omega
  · rintro (rfl | hS | hhorizon | hcut) rng seed
    · exact Or.inr (Or.inr fun i hi => absurd hi (Nat.not_lt_zero i))
    · exact Or.inl hS
    · exact Or.inr (Or.inl hhorizon)
    · refine Or.inr (Or.inr fun i _ => ?_)
      obtain ⟨hlo, -⟩ := drawOffset_mem hpos rng seed f 1 i
      omega

/-- With the default window and horizon and 1000 bars, training on 60% leaks into the gate for
every generator and every seed. -/
theorem not_leakageFree_default_window :
    ¬∃ rng seed, LeakageFree (fun _ _ => ()) (fun _ _ => 1) 0 rng 1000 1 24 8 720 seed (3 / 5) := by
  rintro ⟨rng, seed, h⟩
  have hpos : 0 < maxOffset 1000 720 := by decide
  have hmax : maxOffset 1000 720 = 279 := by decide
  have hfloor : ⌊((1000 : ℕ) : ℚ) * (3 / 5)⌋ = 600 := by norm_num
  obtain ⟨-, hhi⟩ := drawOffset_mem hpos rng seed (3 / 5) 1 0
  obtain ⟨-, -, hfile⟩ := offsetRange_spec hpos (3 / 5) 1
  rw [leakageFree_iff_draws hpos (by norm_num), hfloor] at h
  rcases h with h | h | h
  · omega
  · omega
  · have hstart := h 0 (by decide)
    omega

/-- With a window of one step and 103 bars the two cuts of a 30% split are one bar: six bars are
sampled, and no draw of eight windows leaks any of them. -/
theorem leakageFree_iff_short_window :
    0 < sampledBars 24 103 (3 / 10) ∧
      ∀ rng seed, LeakageFree (fun _ _ => ()) (fun _ _ => 1) 0 rng 103 1 24 8 1 seed (3 / 10) := by
  refine ⟨by decide +kernel, ?_⟩
  refine (leakageFree_iff (fun _ _ => ()) (fun _ _ => 1) 0 103 1 24 8 1 (3 / 10) (by decide)
    (by norm_num) (by norm_num)).mpr (.inr (.inr (.inr ?_)))
  norm_num

end Leakage

end KeelTrader.Research
