import KeelTrader.Forecast.Technical
import KeelTrader.Lib.Dict

set_option relaxedAutoImplicit false
set_option autoImplicit false

/-!
# The exporter's features

`compute_features` of `sim/export_data.py` computes the features of a symbol with operations on
the columns of a table. Its eight technical columns are the rows of `forecast/technical.py`.

## Main definitions

* `KeelTrader.Sim.PriceFrame`, `ForecastFrame` — the tables that it reads.
* `KeelTrader.Sim.computeFeatures` — the table of features.

## Main results

* `KeelTrader.Sim.pctChange_values`, `trueRange_values` — the columns that have missing values in
  their first rows.
* `KeelTrader.Sim.computeFeatures_technical` — the technical columns are the rows that
  `technical_features` returns.
-/

namespace KeelTrader.Sim

open Forecast

universe u

/-! ## Tables -/

/-- A table of prices: its bars, under their time stamps. -/
abbrev PriceFrame (K : Type u) := List (ℤ × Ohlc K)

/-- A column of a forecast table: its values, under their time stamps. -/
abbrev ForecastColumn (K : Type) := Dict ℤ (Option K)

/-- A forecast table: its columns, under their names. -/
abbrev ForecastFrame (K : Type) := Dict String (ForecastColumn K)

/-! ## Means -/

lemma rollingMean_values {K : Type} [Field K] {w : ℕ} (hw : 0 < w) (xs : List K) :
    (Column.values xs).rollingMean w = Column.values (Forecast.rollingMean xs w) := by
  rw [Column.rollingMean_values hw, rollingMean_eq]
  rfl

/-! ## Clipping -/

section Clip

variable {K : Type} [LinearOrder K]

/-- The two ways to clip. -/
lemma clip_eq {lo hi : K} (h : lo ≤ hi) (x : K) : Forecast.clip x lo hi = min (max x lo) hi := by
  unfold Forecast.clip
  by_cases hlo : x < lo
  · rw [if_pos hlo, max_eq_right hlo.le, min_eq_left h]
  · rw [if_neg hlo, max_eq_left (not_lt.mp hlo)]
    by_cases hhi : hi < x
    · rw [if_pos hhi, min_eq_right hhi.le]
    · rw [if_neg hhi, min_eq_left (not_lt.mp hhi)]

lemma clip_values {lo hi : K} (h : lo ≤ hi) (xs : List K) :
    (Column.values xs).clip lo hi = Column.values (xs.map fun x => Forecast.clip x lo hi) := by
  rw [Column.clip_values]
  exact congrArg Column.values (List.map_congr_left fun x _ => (clip_eq h x).symm)

end Clip

/-! ## The operations of the exporter -/

section Compute

variable {K : Type} [Field K] [LinearOrder K]

/-- `reindex`. -/
def reindex (index : List ℤ) (column : ForecastColumn K) : Column K :=
  index.map fun t => (column.get? t).join

/-- A column of `0.0`, or of another number. -/
def constant (index : List ℤ) (c : K) : Column K := Column.values (index.map fun _ => c)

/-- `close.clip(lower=1e-8)`, as the divisor of a column. -/
def perClose (close a : Column K) : Column K :=
  Column.zip (fun x c => x / c) a (close.clipLower eps)

/-- A forecast delta: the column of the horizon, or else the one without a horizon. -/
def forecastDelta (index : List ℤ) (close : Column K) (fc : ForecastFrame K)
    (colPrefix horizon : String) : Column K :=
  let srcCol := if colPrefix ++ horizon ∈ fc.keys then colPrefix ++ horizon else colPrefix
  match fc.get? srcCol with
  | none => constant index 0
  | some column => perClose close (Column.zip (fun x c => x - c) (reindex index column) close)

/-- A forecast confidence: the inverse of the spread between two quantiles. -/
def forecastConfidence (index : List ℤ) (close : Column K) (fc : ForecastFrame K)
    (horizon : String) : Column K :=
  let p90Col := if "predicted_close_p90" ++ horizon ∈ fc.keys then "predicted_close_p90" ++ horizon
    else "predicted_close_p90"
  let p10Col := if "predicted_close_p10" ++ horizon ∈ fc.keys then "predicted_close_p10" ++ horizon
    else "predicted_close_p10"
  match fc.get? p90Col, fc.get? p10Col with
  | some p90, some p10 =>
    let spread := (Column.zip (fun x y => x - y) (reindex index p90) (reindex index p10)).map abs
    (perClose close spread).map fun x => 1 / (1 + x)
  | _, _ => constant index 0.5

/-- The difference of a column to a mean or a maximum of itself, relative to that. -/
def relativeTo (close a : Column K) : Column K :=
  Column.zip (fun x y => x / y) (Column.zip (fun x y => x - y) close a) (a.clipLower eps)

/-- The true range of each row. -/
def trueRangeColumn (high low close : Column K) : Column K :=
  Column.rowMax high.length
    [Column.zip (fun h l => h - l) high low,
      (Column.zip (fun h c => h - c) high (close.shift 1)).map abs,
      (Column.zip (fun l c => l - c) low (close.shift 1)).map abs]

/-- The columns that `compute_features` sets one after another, with their names. -/
def featureColumns (sqrt : K → K) (prices : PriceFrame K) (fcH1 fcH24 : ForecastFrame K) :
    List (String × Column K) :=
  let index := prices.map Prod.fst
  let close := Column.values (prices.map fun row => row.2.close)
  let high := Column.values (prices.map fun row => row.2.high)
  let low := Column.values (prices.map fun row => row.2.low)
  let ma24 := close.rollingMean 24
  let ma72 := close.rollingMean 72
  let atr24 := (trueRangeColumn high low close).rollingMean 24
  let rollMax := close.rollingMax 72
  [("chronos_close_delta_h1", forecastDelta index close fcH1 "predicted_close_p50" "_h1"),
    ("chronos_high_delta_h1", forecastDelta index close fcH1 "predicted_high_p50" "_h1"),
    ("chronos_low_delta_h1", forecastDelta index close fcH1 "predicted_low_p50" "_h1"),
    ("chronos_close_delta_h24", forecastDelta index close fcH24 "predicted_close_p50" "_h24"),
    ("chronos_high_delta_h24", forecastDelta index close fcH24 "predicted_high_p50" "_h24"),
    ("chronos_low_delta_h24", forecastDelta index close fcH24 "predicted_low_p50" "_h24"),
    ("forecast_confidence_h1", forecastConfidence index close fcH1 "_h1"),
    ("forecast_confidence_h24", forecastConfidence index close fcH24 "_h24"),
    ("return_1h", ((close.pctChange 1).fillna 0).clip (-0.5) 0.5),
    ("return_24h", ((close.pctChange 24).fillna 0).clip (-1) 1),
    ("volatility_24h", ((close.pctChange 1).rollingStd sqrt 24).fillna 0.01),
    ("ma_delta_24h", (relativeTo close ma24).clip (-0.5) 0.5),
    ("ma_delta_72h", (relativeTo close ma72).clip (-0.5) 0.5),
    ("atr_pct_24h", (perClose close atr24).clip 0 0.5),
    ("trend_72h", ((close.pctChange 72).fillna 0).clip (-1) 1),
    ("drawdown_72h", (relativeTo close rollMax).clip (-1) 0)]

/-- `compute_features`. -/
def computeFeatures (sqrt : K → K) (prices : PriceFrame K) (fcH1 fcH24 : ForecastFrame K) :
    Dict String (Column K) :=
  let index := prices.map Prod.fst
  let feat := Dict.ofList (featureColumns sqrt prices fcH1 fcH24)
  -- the columns that are not there yet
  let feat := feat.setMissing (constant index 0) featureNames
  Dict.ofList (featureNames.map fun col => (col, ((feat.get? col).getD []).fillna 0))

/-! ## The table of features -/

/-- The columns that are set are those of the spec. -/
lemma map_fst_featureColumns (sqrt : K → K) (prices : PriceFrame K) (fcH1 fcH24 : ForecastFrame K) :
    (featureColumns sqrt prices fcH1 fcH24).map Prod.fst = featureNames := rfl

lemma featureNames_nodup : featureNames.Nodup := by decide

/-- A column of the table is one that was set, with `0` in its missing rows. -/
lemma computeFeatures_get? {sqrt : K → K} {prices : PriceFrame K} {fcH1 fcH24 : ForecastFrame K}
    {name : String} {a : Column K} (h : (name, a) ∈ featureColumns sqrt prices fcH1 fcH24) :
    (computeFeatures sqrt prices fcH1 fcH24).get? name = some (a.fillna 0) := by
  have hname : name ∈ featureNames := by
    rw [← map_fst_featureColumns sqrt prices fcH1 fcH24]
    exact List.mem_map_of_mem h
  have hnodup : ((featureColumns sqrt prices fcH1 fcH24).map Prod.fst).Nodup := by
    rw [map_fst_featureColumns]
    exact featureNames_nodup
  unfold computeFeatures
  refine Dict.get?_ofList ?_ (List.mem_map.mpr ⟨name, hname, ?_⟩)
  · rw [List.map_map]
    exact (List.map_id featureNames).symm ▸ featureNames_nodup
  · rw [Dict.get?_setMissing (Dict.get?_ofList hnodup h)]
    rfl

/-! ## Column by column -/

/-- A column relative to a mean or a maximum of it. -/
lemma relativeTo_values (closes ys : List K) :
    relativeTo (Column.values closes) (Column.values ys) =
      Column.values (List.zipWith (fun close y => (close - y) / max y eps) closes ys) := by
  rw [relativeTo, Column.clipLower_values, Column.zip_values, Column.zip_values]
  refine congrArg Column.values ?_
  induction closes generalizing ys with
  | nil => rfl
  | cons close closes ih =>
    cases ys with
    | nil => rfl
    | cons y ys => exact congrArg _ (ih ys)

lemma perClose_values (closes xs : List K) :
    perClose (Column.values closes) (Column.values xs) =
      Column.values (List.zipWith (fun x close => x / max close eps) xs closes) := by
  rw [perClose, Column.clipLower_values, Column.zip_values, List.zipWith_map_right]

/-- **True range.** In the first row, which has no previous close, it is the range of the bar. -/
theorem trueRange_values {highs lows closes : List K} (hhigh : highs.length = closes.length)
    (hlow : lows.length = closes.length) :
    trueRangeColumn (Column.values highs) (Column.values lows) (Column.values closes) =
      Column.values (trueRange highs lows closes) := by
  rw [trueRangeColumn, Column.rowMax, Column.values, Column.values, Column.values, Column.values,
    trueRange, List.map_map, List.length_map, hhigh]
  refine List.map_congr_left fun i hi => ?_
  have hi := List.mem_range.mp hi
  have hhi : i < (Column.values highs).length := by rwa [Column.length_values, hhigh]
  have hli : i < (Column.values lows).length := by rwa [Column.length_values, hlow]
  have hci : i < (Column.values closes).length := by rwa [Column.length_values]
  have hsi : i < ((Column.values closes).shift 1).length := by rwa [Column.length_shift]
  have hhighRow : (Column.values highs).getD i none = some (highs.getD i 0) :=
    Column.getD_values (by omega) 0
  have hlowRow : (Column.values lows).getD i none = some (lows.getD i 0) :=
    Column.getD_values (by omega) 0
  have hprev := Column.getD_shift 1 hci
  show (List.map (fun a : Column K => a.getD i none)
    [Column.zip _ (Column.values highs) (Column.values lows),
      (Column.zip _ (Column.values highs) ((Column.values closes).shift 1)).map abs,
      (Column.zip _ (Column.values lows) ((Column.values closes).shift 1)).map
        abs]).reduceOption.max? = some _
  rw [List.map_cons, List.map_cons, List.map_cons, Column.getD_map, Column.getD_map,
    Column.getD_zip _ hhi hli, Column.getD_zip _ hhi hsi, Column.getD_zip _ hli hsi, hhighRow,
    hlowRow, hprev]
  by_cases hfirst : i = 0
  · rw [if_pos (by omega)]
    dsimp only
    rw [if_pos hfirst]
    rfl
  · rw [if_neg (by omega), Column.getD_values (by omega) 0]
    dsimp only
    rw [if_neg hfirst]
    rfl

lemma rollingMax_values {w : ℕ} (hw : 0 < w) (xs : List K) :
    (Column.values xs).rollingMax w = Column.values (Forecast.rollingMax xs w) := by
  rw [Column.rollingMax_values hw 0, rollingMax_eq]
  rfl

/-- A column of features, read off the rows. -/
lemma map_getElem?_barFeatures (sqrt : K → K) (bars : List (Ohlc K)) {k : ℕ} {column : List K}
    (h : (technicalColumns sqrt (bars.map Ohlc.high) (bars.map Ohlc.low)
      (bars.map Ohlc.close))[k]? = some column) :
    (barFeatures sqrt bars).map (fun row => row[k]?) = Column.values column := by
  have hlength := length_of_mem_technicalColumns (List.mem_of_getElem? h)
  rw [barFeatures, List.map_map]
  refine List.ext_getElem ?_ fun i hi hi' => ?_
  · rw [List.length_map, List.length_range, Column.length_values, hlength]
  · rw [Column.length_values] at hi'
    rw [List.getElem_map, List.getElem_range, Function.comp_apply, List.getElem?_map, h,
      Option.map_some, List.getD_eq_getElem _ _ hi']
    exact (List.getElem_map some).symm

lemma eps_lt_getD {closes : List K} (hclose : ∀ close ∈ closes, eps < close) {i : ℕ}
    (hi : i < closes.length) : eps < closes.getD i 0 := by
  rw [List.getD_eq_getElem _ _ hi]
  exact hclose _ (List.getElem_mem hi)

variable [IsStrictOrderedRing K]

lemma eps_pos : (0 : K) < eps := by
  unfold eps
  norm_num

/-- A change from a price that is large enough. -/
lemma change_eq {prev : K} (h : eps < prev) (cur : K) : change prev cur = cur / prev - 1 := by
  have hpos : 0 < prev := eps_pos.trans h
  unfold change
  rw [abs_of_pos hpos, if_pos h, sub_div, div_self hpos.ne']

lemma half_nonneg : 0 ≤ (0.5 : K) := by norm_num

lemma neg_half_le : -0.5 ≤ (0.5 : K) := neg_le_self half_nonneg

/-- **Moving averages.** -/
theorem maDelta_values {w : ℕ} (hw : 0 < w) (closes : List K) :
    (relativeTo (Column.values closes) ((Column.values closes).rollingMean w)).clip
      (-0.5) 0.5 = Column.values (maDelta closes w) := by
  rw [rollingMean_values hw, relativeTo_values, clip_values neg_half_le, maDelta, List.map_zipWith]

/-- **Drawdown.** -/
theorem drawdown_values {w : ℕ} (hw : 0 < w) (closes : List K) :
    (relativeTo (Column.values closes) ((Column.values closes).rollingMax w)).clip (-1) 0 =
      Column.values (drawdown closes w) := by
  have hbounds : -1 ≤ (0 : K) := by linarith [one_pos (α := K)]
  rw [rollingMax_values hw, relativeTo_values, clip_values hbounds, drawdown, List.map_zipWith]

/-- **Average true range.** -/
theorem atrPct_values {w : ℕ} (hw : 0 < w) {highs lows closes : List K}
    (hhigh : highs.length = closes.length) (hlow : lows.length = closes.length) :
    (perClose (Column.values closes)
      ((trueRangeColumn (Column.values highs) (Column.values lows)
        (Column.values closes)).rollingMean w)).clip 0 0.5 =
      Column.values (atrPct highs lows closes w) := by
  rw [trueRange_values hhigh hlow, rollingMean_values hw, perClose_values, clip_values half_nonneg,
    atrPct, List.map_zipWith]

section Closes

variable {closes : List K} (hclose : ∀ close ∈ closes, eps < close)

include hclose

/-- **Changes.** The change of a column of prices, with `0` where it is missing. -/
theorem pctChange_values (n : ℕ) :
    ((Column.values closes).pctChange n).fillna 0 =
      Column.values (Forecast.pctChange closes n) := by
  rw [Column.pctChange_values, Column.fillna, List.map_map, Column.values, Forecast.pctChange,
    List.map_map]
  refine List.map_congr_left fun i hi => ?_
  have hi := List.mem_range.mp hi
  refine congrArg some ?_
  dsimp only
  by_cases hn : i < n
  · rw [if_pos hn, if_pos hn]
    rfl
  · rw [if_neg hn, if_neg hn, change_eq (eps_lt_getD hclose (by omega))]
    rfl

/-- The one-bar returns of a column of prices. -/
lemma oneBarReturns_values : (Column.values closes).pctChange 1 = oneBarReturns closes := by
  rw [Column.pctChange_values, oneBarReturns]
  refine List.map_congr_left fun i hi => ?_
  have hi := List.mem_range.mp hi
  by_cases hfirst : i = 0
  · rw [if_pos (by omega), if_pos hfirst]
  · rw [if_neg (by omega), if_neg hfirst, change_eq (eps_lt_getD hclose (by omega))]

/-- **Deviation.** The deviation of the returns of a column of prices. -/
theorem rollingStd_values (sqrt : K → K) (w : ℕ) :
    (((Column.values closes).pctChange 1).rollingStd sqrt w).fillna 0.01 =
      Column.values (rollingStdOfReturns sqrt closes w) := by
  rw [oneBarReturns_values hclose, rollingStdOfReturns_eq, Column.rollingStd, Column.fillna,
    Column.values, map_rolling, map_rolling]
  refine rolling_congr fun i _ => ?_
  unfold volatilityOf
  by_cases hfew : (window w (oneBarReturns closes) i).reduceOption.length < 2
  · rw [if_pos hfew, if_pos hfew]
    rfl
  · rw [if_neg hfew, if_neg hfew]
    rfl

end Closes

/-! ## Row by row -/

/-- The technical columns that are set have no missing values. -/
lemma technicalColumns_mem (sqrt : K → K) {prices : PriceFrame K} (fcH1 fcH24 : ForecastFrame K)
    (hclose : ∀ row ∈ prices, eps < row.2.close) :
    ∀ e ∈ (namesOfKind "technical").zip (technicalColumns sqrt (prices.map fun row => row.2.high)
        (prices.map fun row => row.2.low) (prices.map fun row => row.2.close)),
      (e.1, Column.values e.2) ∈ featureColumns sqrt prices fcH1 fcH24 := by
  have hcloses : ∀ close ∈ prices.map fun row => row.2.close, eps < close := by
    intro close hmem
    obtain ⟨row, hrow, rfl⟩ := List.mem_map.mp hmem
    exact hclose row hrow
  have hone : -1 ≤ (1 : K) := by linarith [one_pos (α := K)]
  show ∀ e ∈ [("return_1h", _), ("return_24h", _), ("volatility_24h", _), ("ma_delta_24h", _),
    ("ma_delta_72h", _), ("atr_pct_24h", _), ("trend_72h", _), ("drawdown_72h", _)], _
  simp only [List.forall_mem_cons]
  refine ⟨?_, ?_, ?_, ?_, ?_, ?_, ?_, ?_, List.forall_mem_nil _⟩
  · rw [← clip_values neg_half_le, ← pctChange_values hcloses]
    exact List.mem_of_getElem? (i := 8) rfl
  · rw [← clip_values hone, ← pctChange_values hcloses]
    exact List.mem_of_getElem? (i := 9) rfl
  · rw [← rollingStd_values hcloses]
    exact List.mem_of_getElem? (i := 10) rfl
  · rw [← maDelta_values (by norm_num)]
    exact List.mem_of_getElem? (i := 11) rfl
  · rw [← maDelta_values (by norm_num)]
    exact List.mem_of_getElem? (i := 12) rfl
  · rw [← atrPct_values (by norm_num) (by rw [List.length_map, List.length_map])
      (by rw [List.length_map, List.length_map])]
    exact List.mem_of_getElem? (i := 13) rfl
  · rw [← clip_values hone, ← pctChange_values hcloses]
    exact List.mem_of_getElem? (i := 14) rfl
  · rw [← drawdown_values (by norm_num)]
    exact List.mem_of_getElem? (i := 15) rfl

/-- **The exporter computes the technical features.** Where every close is above `1e-8`,
`technical_features` returns a row for each bar, and the column that the exporter's table has
under the name of a technical feature has in each row the value of that feature in the row of the
bar. -/
theorem computeFeatures_technical (sqrt : K → K) (prices : PriceFrame K)
    (fcH1 fcH24 : ForecastFrame K) (hclose : ∀ row ∈ prices, 1e-8 < row.2.close) :
    ∃ rows : List (List K), technicalFeatures sqrt (prices.map fun row => row.2.openPrice)
        (prices.map fun row => row.2.high) (prices.map fun row => row.2.low)
        (prices.map fun row => row.2.close) = .ok rows ∧
      rows.length = prices.length ∧
      (namesOfKind "technical").length = 8 ∧
      ∀ (k : ℕ) (name : String), (namesOfKind "technical")[k]? = some name →
        (computeFeatures sqrt prices fcH1 fcH24).get? name =
          some (rows.map fun row : List K => row[k]?) := by
  have hmap : ∀ price : Ohlc K → K,
      (prices.map fun row => price row.2) = (prices.map Prod.snd).map price := by
    intro price
    rw [List.map_map]
    rfl
  have hcolumns := technicalColumns_mem sqrt fcH1 fcH24 hclose
  rw [hmap Ohlc.openPrice, hmap Ohlc.high, hmap Ohlc.low, hmap Ohlc.close,
    technicalFeatures_eq_ok]
  rw [hmap Ohlc.high, hmap Ohlc.low, hmap Ohlc.close] at hcolumns
  refine ⟨_, rfl, ?_, rfl, fun k name hname => ?_⟩
  · rw [length_barFeatures, List.length_map]
  · have hk : k < (technicalColumns sqrt ((prices.map Prod.snd).map Ohlc.high)
        ((prices.map Prod.snd).map Ohlc.low) ((prices.map Prod.snd).map Ohlc.close)).length :=
      (List.getElem?_eq_some_iff.mp hname).1
    have hcolumn := List.getElem?_eq_getElem hk
    have hpair := hcolumns _
      (List.mem_of_getElem? (List.getElem?_zip_eq_some (z := (name, _)).mpr ⟨hname, hcolumn⟩))
    rw [computeFeatures_get? hpair, Column.fillna_values, map_getElem?_barFeatures sqrt _ hcolumn]

/-- Three bars, the second of them up by a tenth. -/
theorem computeFeatures_technical_three_bars :
    let prices : PriceFrame ℚ := [(0, ⟨100, 101, 99, 100⟩), (3600, ⟨100, 110, 100, 110⟩),
      (7200, ⟨110, 111, 108, 109⟩)]
    ∃ rows : List (List ℚ),
      technicalFeatures id [100, 100, 110] [101, 110, 111] [99, 100, 108] [100, 110, 109] =
        .ok rows ∧
      (computeFeatures id prices .empty .empty).get? "atr_pct_24h" =
        some (rows.map fun row : List ℚ => row[5]?) := by
  intro prices
  have hclose : ∀ row ∈ prices, 1e-8 < row.2.close := by decide +kernel
  obtain ⟨rows, hrows, -, -, hcolumns⟩ := computeFeatures_technical id prices .empty .empty hclose
  exact ⟨rows, hrows, hcolumns 5 "atr_pct_24h" rfl⟩

end Compute

end KeelTrader.Sim
