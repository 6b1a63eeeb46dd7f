import Mathlib.Algebra.Order.Field.Basic
import KeelTrader.Lib.Column

set_option relaxedAutoImplicit false
set_option autoImplicit false

/-!
# The technical features

`forecast/technical.py`: the eight technical features of each bar, computed from the prices of
one symbol. Their order in a row is that of the spec in `forecast/features.py`.

## Main definitions

* `KeelTrader.Forecast.featureSpec` — the names of the features, in their order.
* `KeelTrader.Forecast.pctChange`, `rollingMean`, `rollingMax`, `rollingStdOfReturns`,
  `trueRange` — the helpers, loop by loop.
* `KeelTrader.Forecast.technicalFeatures` — the rows of features.
* `KeelTrader.Forecast.barFeatures` — the same, of a series of bars.

## Main results

* `KeelTrader.Forecast.rollingMean_eq`, `rollingMax_eq`, `rollingStdOfReturns_eq` — the helpers
  as functions of the window of each position.
* `KeelTrader.Forecast.technicalFeatures_eq_ok` — series of one length have a row for each bar.
* `KeelTrader.Forecast.barFeatures_hasMemory` — a row is decided by the newest 73 bars.

## Implementation notes

The arithmetic is that of any ordered field, and the square root is a parameter. Every index
below is inside its series, so the default of `List.getD` is never read.
-/

namespace KeelTrader.Forecast

universe u

/-- The four prices of a bar. -/
structure Ohlc (K : Type u) where
  /-- `open`. -/
  openPrice : K
  high : K
  low : K
  close : K
  deriving DecidableEq, Repr

variable {K : Type u} [Field K]

/-! ## The feature spec -/

/-- `FeatureField`, without its description. -/
structure FeatureField where
  name : String
  kind : String
  deriving DecidableEq, Repr

/-- The fields of `FEATURE_SPEC`. -/
def featureSpec : List FeatureField :=
  [⟨"chronos_close_delta_h1", "forecast"⟩,
    ⟨"chronos_high_delta_h1", "forecast"⟩,
    ⟨"chronos_low_delta_h1", "forecast"⟩,
    ⟨"chronos_close_delta_h24", "forecast"⟩,
    ⟨"chronos_high_delta_h24", "forecast"⟩,
    ⟨"chronos_low_delta_h24", "forecast"⟩,
    ⟨"forecast_confidence_h1", "forecast"⟩,
    ⟨"forecast_confidence_h24", "forecast"⟩,
    ⟨"return_1h", "technical"⟩,
    ⟨"return_24h", "technical"⟩,
    ⟨"volatility_24h", "technical"⟩,
    ⟨"ma_delta_24h", "technical"⟩,
    ⟨"ma_delta_72h", "technical"⟩,
    ⟨"atr_pct_24h", "technical"⟩,
    ⟨"trend_72h", "technical"⟩,
    ⟨"drawdown_72h", "technical"⟩]

/-- `FEATURE_NAMES`. -/
def featureNames : List String := featureSpec.map FeatureField.name

/-- `names_of_kind`. -/
def namesOfKind (kind : String) : List String :=
  (featureSpec.filter fun f => decide (f.kind = kind)).map FeatureField.name

/-! ## The rolling mean -/

/-- `_rolling_mean`. -/
def rollingMean (series : List K) (w : ℕ) : List K :=
  (RunningSum.empty.scan w series).map fun s => s.acc / s.entries.length

/-- The mean of the values in a window. -/
def meanOf (vals : List K) : K := vals.sum / vals.length

/-- **Running sum.** The rolling mean is the mean of the window of each position. -/
theorem rollingMean_eq (series : List K) (w : ℕ) :
    rollingMean series w = rolling w meanOf series :=
  RunningSum.map_scan w (fun (acc : K) entries => acc / entries.length) series

lemma rollingMean_hasMemory (w : ℕ) : HasMemory w fun series : List K => rollingMean series w := by
  simp only [rollingMean_eq]
  exact hasMemory_rolling w meanOf

/-! ## The other helpers -/

variable [LinearOrder K]

/-- `_EPS`. -/
def eps : K := 1e-8

/-- `_VOL_FALLBACK`. -/
def volFallback : K := 0.01

/-- `_clip`. -/
def clip (x lo hi : K) : K := if x < lo then lo else if hi < x then hi else x

/-- The relative change from `prev`, or `0` where `prev` is too small to divide by. -/
def change (prev cur : K) : K := if eps < |prev| then (cur - prev) / prev else 0

/-- `_pct_change`. -/
def pctChange (series : List K) (n : ℕ) : List K :=
  (List.range series.length).map fun i =>
    if i < n then 0 else change (series.getD (i - n) 0) (series.getD i 0)

/-- `_rolling_max`. -/
def rollingMax (series : List K) (w : ℕ) : List K :=
  (List.range series.length).map fun i =>
    let lo := i + 1 - w
    ((series.take (i + 1)).drop lo).max?.getD 0

/-- The one-bar returns of the bars from `lo` to before `hi`. -/
def returnsFrom (closes : List K) (lo hi : ℕ) : List K :=
  (List.range' lo (hi - lo)).map fun j => change (closes.getD (j - 1) 0) (closes.getD j 0)

/-- The standard deviation of a sample, with the mean of the sample. -/
def sampleStd (sqrt : K → K) (vals : List K) : K :=
  let mean := vals.sum / vals.length
  sqrt ((vals.map fun v => (v - mean) ^ 2).sum / (vals.length - 1))

/-- The standard deviation of the returns in a window, if there are two of them. -/
def volatilityOf (sqrt : K → K) (vals : List K) : K :=
  if vals.length < 2 then volFallback else sampleStd sqrt vals

/-- `_rolling_std_of_returns`. -/
def rollingStdOfReturns (sqrt : K → K) (closes : List K) (w : ℕ) : List K :=
  (List.range closes.length).map fun i =>
    volatilityOf sqrt (returnsFrom closes (max 1 (i + 1 - w)) (i + 1))

/-- `_true_range`. -/
def trueRange (highs lows closes : List K) : List K :=
  (List.range closes.length).map fun i =>
    let hl := highs.getD i 0 - lows.getD i 0
    if i = 0 then hl
    else
      let pc := closes.getD (i - 1) 0
      max (max hl |highs.getD i 0 - pc|) |lows.getD i 0 - pc|

/-! ## The features -/

/-- `ma_delta_24h` and `ma_delta_72h`. -/
def maDelta (closes : List K) (w : ℕ) : List K :=
  List.zipWith (fun close ma => clip ((close - ma) / max ma eps) (-0.5) 0.5) closes
    (rollingMean closes w)

/-- `atr_pct_24h`. -/
def atrPct (highs lows closes : List K) (w : ℕ) : List K :=
  List.zipWith (fun atr close => clip (atr / max close eps) 0 0.5)
    (rollingMean (trueRange highs lows closes) w) closes

/-- `drawdown_72h`. -/
def drawdown (closes : List K) (w : ℕ) : List K :=
  List.zipWith (fun close rmax => clip ((close - rmax) / max rmax eps) (-1) 0) closes
    (rollingMax closes w)

/-- The columns of features, in their order. -/
def technicalColumns (sqrt : K → K) (highs lows closes : List K) : List (List K) :=
  [(pctChange closes 1).map fun x => clip x (-0.5) 0.5,
    (pctChange closes 24).map fun x => clip x (-1) 1,
    rollingStdOfReturns sqrt closes 24,
    maDelta closes 24,
    maDelta closes 72,
    atrPct highs lows closes 24,
    (pctChange closes 72).map fun x => clip x (-1) 1,
    drawdown closes 72]

/-- `technical_features`, or the text of the `ValueError` it raises. -/
def technicalFeatures (sqrt : K → K) (opens highs lows closes : List K) :
    Except String (List (List K)) :=
  let n := closes.length
  if ¬(opens.length = highs.length ∧ highs.length = lows.length ∧ lows.length = n) then
    .error "OHLC series must be equal length"
  else if n = 0 then .ok []
  else
    .ok ((List.range n).map fun i =>
      (technicalColumns sqrt highs lows closes).map fun column => column.getD i 0)

/-- The rows of features of a series of bars. -/
def barFeatures (sqrt : K → K) (bars : List (Ohlc K)) : List (List K) :=
  (List.range bars.length).map fun i =>
    (technicalColumns sqrt (bars.map Ohlc.high) (bars.map Ohlc.low) (bars.map Ohlc.close)).map
      fun column => column.getD i 0

/-! ## The helpers as functions of a window -/

/-- The largest of the values in a window. -/
def maxOf (vals : List K) : K := vals.max?.getD 0

/-- The one-bar returns, of which the first bar has none. -/
def oneBarReturns (closes : List K) : List (Option K) :=
  (List.range closes.length).map fun j =>
    if j = 0 then none else some (change (closes.getD (j - 1) 0) (closes.getD j 0))

lemma rollingMax_eq (series : List K) (w : ℕ) : rollingMax series w = rolling w maxOf series := by
  refine eq_rolling ?_ fun i hi => ?_
  · rw [rollingMax, List.length_map, List.length_range]
  · rw [rollingMax, List.getElem?_map, List.getElem?_range hi, Option.map_some, maxOf,
      window_eq_drop w hi]

lemma getElem?_oneBarReturns {closes : List K} {j : ℕ} (hj : j < closes.length) :
    (oneBarReturns closes)[j]? =
      some (if j = 0 then none else some (change (closes.getD (j - 1) 0) (closes.getD j 0))) := by
  rw [oneBarReturns, List.getElem?_map, List.getElem?_range hj, Option.map_some]

lemma length_oneBarReturns (closes : List K) : (oneBarReturns closes).length = closes.length := by
  rw [oneBarReturns, List.length_map, List.length_range]

/-- The window of a list of positions. -/
lemma window_range (w : ℕ) {n i : ℕ} (hi : i < n) :
    window w (List.range n) i = List.range' (i + 1 - w) (i + 1 - (i + 1 - w)) := by
  rw [window_eq_drop w (by rwa [List.length_range]), List.take_range,
    min_eq_left (by omega : i + 1 ≤ n), List.range_eq_range', List.drop_range']
  congr 1
  omega

/-- The returns in the window of a bar. -/
lemma reduceOption_window_oneBarReturns (closes : List K) (w : ℕ) {i : ℕ}
    (hi : i < closes.length) :
    (window w (oneBarReturns closes) i).reduceOption =
      returnsFrom closes (max 1 (i + 1 - w)) (i + 1) := by
  have hsome : ∀ lo len, 1 ≤ lo →
      ((List.range' lo len).map fun j =>
        if j = 0 then none else some (change (closes.getD (j - 1) 0) (closes.getD j 0))) =
      ((List.range' lo len).map fun j => change (closes.getD (j - 1) 0) (closes.getD j 0)).map
        some := by
    intro lo len hlo
    rw [List.map_map]
    refine List.map_congr_left fun j hj => ?_
    have hlt := (List.mem_range'_1.mp hj).1
    rw [if_neg (by omega)]
    rfl
  rw [oneBarReturns, window_map, window_range w hi, returnsFrom]
  rcases Nat.eq_zero_or_pos (i + 1 - w) with hzero | hpos
  · rw [hzero, Nat.sub_zero, List.range'_succ, List.map_cons, if_pos rfl,
      List.reduceOption_cons_of_none, hsome _ _ le_rfl, reduceOption_map_some]
    rfl
  · rw [hsome _ _ hpos, max_eq_right hpos, reduceOption_map_some]

/-- **Returns.** The rolling deviation is that of the returns in the window of each position. -/
theorem rollingStdOfReturns_eq (sqrt : K → K) (closes : List K) (w : ℕ) :
    rollingStdOfReturns sqrt closes w =
      rolling w (fun vals => volatilityOf sqrt vals.reduceOption) (oneBarReturns closes) := by
  refine eq_rolling ?_ fun i hi => ?_
  · rw [rollingStdOfReturns, List.length_map, List.length_range, length_oneBarReturns]
  · rw [length_oneBarReturns] at hi
    rw [rollingStdOfReturns, List.getElem?_map, List.getElem?_range hi, Option.map_some,
      reduceOption_window_oneBarReturns closes w hi]

/-! ## The memory of the features -/

lemma rollingMax_hasMemory (w : ℕ) : HasMemory w fun series : List K => rollingMax series w := by
  simp only [rollingMax_eq]
  exact hasMemory_rolling w maxOf

/-- The change over `n` bars reaches one bar further than `n`. -/
lemma pctChange_hasMemory (n : ℕ) :
    HasMemory (n + 1) fun series : List K => pctChange series n where
  length_eq := fun series => by rw [pctChange, List.length_map, List.length_range]
  row_eq := by
    intro xs ys i j hi hj hwin
    have hback := le_iff_of_window_eq hi hj hwin (Nat.lt_succ_self n)
    have hnow := getD_eq_of_window_eq hi hj hwin (Nat.succ_pos n) (Nat.zero_le i) 0
    rw [pctChange, pctChange, List.getElem?_map, List.getElem?_map, List.getElem?_range hi,
      List.getElem?_range hj, Option.map_some, Option.map_some]
    by_cases hn : n ≤ i
    · have hprev := getD_eq_of_window_eq hi hj hwin (Nat.lt_succ_self n) hn 0
      rw [if_neg (not_lt.mpr hn), if_neg (not_lt.mpr (hback.mp hn)), hprev]
      exact congrArg (fun cur => some (change _ cur)) hnow
    · rw [if_pos (not_le.mp hn), if_pos (not_le.mp (mt hback.mpr hn))]

/-- The return of a bar reaches one bar back; the first bar is the one that has none there. -/
lemma oneBarReturns_hasMemory : HasMemory 2 fun closes : List K => oneBarReturns closes where
  length_eq := length_oneBarReturns
  row_eq := by
    intro xs ys i j hi hj hwin
    have hback := le_iff_of_window_eq hi hj hwin one_lt_two
    have hnow := getD_eq_of_window_eq hi hj hwin two_pos (Nat.zero_le i) 0
    rw [getElem?_oneBarReturns hi, getElem?_oneBarReturns hj]
    by_cases hfirst : 1 ≤ i
    · have hprev := getD_eq_of_window_eq hi hj hwin one_lt_two hfirst 0
      have hfirst' := hback.mp hfirst
      rw [if_neg (by omega), if_neg (by omega), hprev]
      exact congrArg (fun cur => some (some (change _ cur))) hnow
    · have hfirst' := mt hback.mpr hfirst
      rw [if_pos (by omega), if_pos (by omega)]

/-- The deviation of `w` returns reaches one bar further than `w`. -/
lemma rollingStdOfReturns_hasMemory (sqrt : K → K) (w : ℕ) :
    HasMemory (1 + w) fun closes => rollingStdOfReturns sqrt closes w := by
  simp only [rollingStdOfReturns_eq]
  exact oneBarReturns_hasMemory.comp (hasMemory_rolling w _)

/-- The true range of a bar reaches one bar back; the first bar is the one that has none there. -/
lemma trueRange_hasMemory :
    HasMemory 2 fun bars : List (Ohlc K) =>
      trueRange (bars.map Ohlc.high) (bars.map Ohlc.low) (bars.map Ohlc.close) where
  length_eq := fun bars => by rw [trueRange, List.length_map, List.length_range, List.length_map]
  row_eq := by
    intro xs ys i j hi hj hwin
    have hback := le_iff_of_window_eq hi hj hwin one_lt_two
    have hprice : ∀ price : Ohlc K → K, ∀ k < 2, k ≤ i →
        (xs.map price).getD (i - k) 0 = (ys.map price).getD (j - k) 0 := by
      intro price k hk hki
      refine getD_eq_of_window_eq (m := 2) ?_ ?_ ?_ hk hki 0
      · rwa [List.length_map]
      · rwa [List.length_map]
      · rw [window_map, window_map, hwin]
    have hhigh := hprice Ohlc.high 0 two_pos (Nat.zero_le i)
    have hlow := hprice Ohlc.low 0 two_pos (Nat.zero_le i)
    rw [Nat.sub_zero, Nat.sub_zero] at hhigh hlow
    rw [trueRange, trueRange, List.getElem?_map, List.getElem?_map,
      List.getElem?_range (by rwa [List.length_map]),
      List.getElem?_range (by rwa [List.length_map]), Option.map_some, Option.map_some]
    by_cases hfirst : 1 ≤ i
    · have hfirst' := hback.mp hfirst
      have hclose := hprice Ohlc.close 1 one_lt_two hfirst
      rw [if_neg (by omega), if_neg (by omega), hhigh, hlow, hclose]
    · have hfirst' := mt hback.mpr hfirst
      rw [if_pos (by omega), if_pos (by omega), hhigh, hlow]

lemma maDelta_hasMemory (w : ℕ) :
    HasMemory (1 + w) fun closes : List K => maDelta closes w := by
  unfold maDelta
  exact (HasMemory.id.mono (Nat.le_add_right 1 w)).zipWith
    ((rollingMean_hasMemory w).mono (Nat.le_add_left w 1)) _

lemma drawdown_hasMemory (w : ℕ) :
    HasMemory (1 + w) fun closes : List K => drawdown closes w := by
  unfold drawdown
  exact (HasMemory.id.mono (Nat.le_add_right 1 w)).zipWith
    ((rollingMax_hasMemory w).mono (Nat.le_add_left w 1)) _

lemma atrPct_hasMemory (w : ℕ) :
    HasMemory (1 + w) fun bars : List (Ohlc K) =>
      atrPct (bars.map Ohlc.high) (bars.map Ohlc.low) (bars.map Ohlc.close) w := by
  unfold atrPct
  exact (trueRange_hasMemory.comp (rollingMean_hasMemory w)).zipWith
    ((HasMemory.id.mono (Nat.le_add_right 1 w)).comp_map Ohlc.close) _

/-- The columns of features, as transforms of a series of bars. -/
def barColumns (sqrt : K → K) : List (List (Ohlc K) → List K) :=
  [fun bars => (pctChange (bars.map Ohlc.close) 1).map fun x => clip x (-0.5) 0.5,
    fun bars => (pctChange (bars.map Ohlc.close) 24).map fun x => clip x (-1) 1,
    fun bars => rollingStdOfReturns sqrt (bars.map Ohlc.close) 24,
    fun bars => maDelta (bars.map Ohlc.close) 24,
    fun bars => maDelta (bars.map Ohlc.close) 72,
    fun bars => atrPct (bars.map Ohlc.high) (bars.map Ohlc.low) (bars.map Ohlc.close) 24,
    fun bars => (pctChange (bars.map Ohlc.close) 72).map fun x => clip x (-1) 1,
    fun bars => drawdown (bars.map Ohlc.close) 72]

lemma map_barColumns (sqrt : K → K) (bars : List (Ohlc K)) :
    (barColumns sqrt).map (fun f => f bars) =
      technicalColumns sqrt (bars.map Ohlc.high) (bars.map Ohlc.low) (bars.map Ohlc.close) := rfl

/-- No column looks back over more than 73 bars. -/
lemma barColumns_hasMemory (sqrt : K → K) : ∀ f ∈ barColumns sqrt, HasMemory 73 f := by
  have hclose : ∀ {m : ℕ} {f : List K → List K}, HasMemory m f → m ≤ 73 →
      HasMemory 73 fun bars : List (Ohlc K) => f (bars.map Ohlc.close) :=
    fun h hm => (h.mono hm).comp_map Ohlc.close
  simp only [barColumns, List.forall_mem_cons]
  refine ⟨?_, ?_, ?_, ?_, ?_, ?_, ?_, ?_, List.forall_mem_nil _⟩
  · exact hclose ((pctChange_hasMemory 1).map _) (by norm_num)
  · exact hclose ((pctChange_hasMemory 24).map _) (by norm_num)
  · exact hclose (rollingStdOfReturns_hasMemory sqrt 24) (by norm_num)
  · exact hclose (maDelta_hasMemory 24) (by norm_num)
  · exact hclose (maDelta_hasMemory 72) (by norm_num)
  · exact (atrPct_hasMemory 24).mono (by norm_num)
  · exact hclose ((pctChange_hasMemory 72).map _) (by norm_num)
  · exact hclose (drawdown_hasMemory 72) (by norm_num)

/-- **Memory.** A row of features is decided by the newest 73 bars. -/
theorem barFeatures_hasMemory (sqrt : K → K) :
    HasMemory 73 fun bars : List (Ohlc K) => barFeatures sqrt bars :=
  HasMemory.columns (d := 0) (barColumns_hasMemory sqrt)

lemma length_of_mem_technicalColumns {sqrt : K → K} {bars : List (Ohlc K)} {column : List K}
    (h : column ∈ technicalColumns sqrt (bars.map Ohlc.high) (bars.map Ohlc.low)
      (bars.map Ohlc.close)) : column.length = bars.length := by
  rw [← map_barColumns] at h
  obtain ⟨f, hf, rfl⟩ := List.mem_map.mp h
  exact (barColumns_hasMemory sqrt f hf).length_eq bars

lemma length_barFeatures (sqrt : K → K) (bars : List (Ohlc K)) :
    (barFeatures sqrt bars).length = bars.length :=
  (barFeatures_hasMemory sqrt).length_eq bars

/-- Series of one length have a row for each bar. -/
theorem technicalFeatures_eq_ok (sqrt : K → K) (bars : List (Ohlc K)) :
    technicalFeatures sqrt (bars.map Ohlc.openPrice) (bars.map Ohlc.high) (bars.map Ohlc.low)
      (bars.map Ohlc.close) = .ok (barFeatures sqrt bars) := by
  unfold technicalFeatures barFeatures
  simp only [List.length_map, and_self, not_true_eq_false, if_false]
  by_cases hnil : bars.length = 0
  · rw [if_pos hnil, hnil]
    rfl
  · rw [if_neg hnil]

end KeelTrader.Forecast
