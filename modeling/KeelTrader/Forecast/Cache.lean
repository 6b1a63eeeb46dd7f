import KeelTrader.Lib.Checked
import KeelTrader.Lib.Chunks
import KeelTrader.Sim.AlignGrid
import KeelTrader.Sim.ExportData

set_option relaxedAutoImplicit false
set_option autoImplicit false

/-!
# The forecast cache

`forecast/build_cache.py`, the rows of `forecast/chronos.py` and the driver
`forecast/build_kraken_cache.py`: forecasts of every bar with enough history, made in batches by a
pipeline that is a parameter here, and written to one file for each symbol and horizon.
`load_forecast` of `sim/export_data.py` reads the files back.

## Main definitions

* `KeelTrader.Forecast.forecastRows` — the rows of a symbol, in batches.
* `KeelTrader.Forecast.assertNoLeakage` — the guard on the rows.
* `KeelTrader.Forecast.buildKrakenCache`, `loadForecast` — the cache, written and read.
* `KeelTrader.Forecast.contextUpTo` — the newest bars of a history at a time.

## Main results

* `KeelTrader.Forecast.assertNoLeakage_iff` — the guard passes rows that do not leak.
* `KeelTrader.Forecast.forecastRows_eq` — the rows do not depend on the batches, nor on later bars.
* `KeelTrader.Forecast.buildKrakenCache_forecast` — what the cache holds.
* `KeelTrader.Forecast.SameUpToTime.contextUpTo_eq` — later bars change no context.

## Implementation notes

The pipeline gets the bars of a batch as exact numbers; what it answers for the variates close,
high and low, at a step and a quantile level, is a function of their indices. A context has at
least one bar. A file is the table that is written to it, under its horizon and its name, and time
stamps are in milliseconds.
-/

namespace KeelTrader.Forecast

open Sim (Bar Series barsOf ForecastFrame)

/-! ## The guard -/

/-- One cached forecast. -/
structure ForecastRow where
  symbol : String
  horizon : ℕ
  timestamp : ℤ
  contextEnd : ℤ
  targetTimestamp : ℤ
  predictedCloseP10 : ℚ
  predictedCloseP50 : ℚ
  predictedCloseP90 : ℚ
  predictedHighP50 : ℚ
  predictedLowP50 : ℚ
  deriving DecidableEq, Repr

/-- The exceptions of the cache: `CacheLeakageError`, with the numbers of its messages, and
`IndexError`. -/
inductive CacheError where
  /-- `forecast saw the labeled bar`. -/
  | sawLabeledBar (symbol : String) (horizon : ℕ) (contextEnd timestamp : ℤ)
  /-- `target not in the future`. -/
  | targetNotInFuture (symbol : String) (horizon : ℕ) (targetTimestamp timestamp : ℤ)
  | indexError
  deriving DecidableEq, Repr

/-- `assert_no_leakage`. -/
def assertNoLeakage : List ForecastRow → Except CacheError Unit
  | [] => .ok ()
  | r :: rows =>
    if r.contextEnd > r.timestamp then
      .error (.sawLabeledBar r.symbol r.horizon r.contextEnd r.timestamp)
    else if r.targetTimestamp ≤ r.timestamp then
      .error (.targetNotInFuture r.symbol r.horizon r.targetTimestamp r.timestamp)
    else assertNoLeakage rows

/-- The row was made of inputs up to its bar, and predicts a later one. -/
structure ForecastRow.Honest (r : ForecastRow) : Prop where
  context : r.contextEnd ≤ r.timestamp
  target : r.timestamp < r.targetTimestamp

/-- **The guard** passes rows when none of them leaks. -/
theorem assertNoLeakage_iff {rows : List ForecastRow} :
    assertNoLeakage rows = .ok () ↔ ∀ r ∈ rows, r.Honest := by
  induction rows with
  | nil => simp [assertNoLeakage]
  | cons r rows ih =>
    rw [List.forall_mem_cons, ← ih, assertNoLeakage]
    by_cases hcontext : r.contextEnd > r.timestamp
    · rw [if_pos hcontext]
      exact iff_of_false (by simp) fun h => absurd h.1.context (not_le.mpr hcontext)
    · by_cases htarget : r.targetTimestamp ≤ r.timestamp
      · rw [if_neg hcontext, if_pos htarget]
        exact iff_of_false (by simp) fun h => absurd h.1.target (not_lt.mpr htarget)
      · rw [if_neg hcontext, if_neg htarget]
        exact ⟨fun h => ⟨⟨not_lt.mp hcontext, not_le.mp htarget⟩, h⟩, And.right⟩

/-! ## The rows of a symbol -/

/-- The bars that the pipeline gets for one forecast. -/
structure Context where
  close : List ℚ
  high : List ℚ
  low : List ℚ
  deriving DecidableEq, Repr

/-- A forecast: the value of a variate at a step and a quantile level. -/
abbrev Quantiles : Type := ℕ → ℕ → ℕ → ℚ

/-- `predict_quantiles` of the pipeline: the forecasts of a batch, so many steps ahead. -/
abbrev Pipeline : Type := List Context → ℕ → List Quantiles

/-- The pipeline forecasts each context of a batch by itself. -/
def Pipeline.Itemwise (pipe : Pipeline) (one : Context → ℕ → Quantiles) : Prop :=
  ∀ batch horizon, pipe batch horizon = batch.map fun context => one context horizon

/-- The series of a symbol, as `series_by_symbol` makes it. -/
structure BarSeries where
  symbol : String
  timestamp : List ℤ
  close : List ℚ
  high : List ℚ
  low : List ℚ
  deriving DecidableEq, Repr

/-- The row of the forecast `e`, made at bar `t`. -/
def forecastRow (symbol : String) (horizon : ℕ) (t : ℤ) (e : Quantiles) : ForecastRow :=
  let step := horizon - 1
  { symbol := symbol
    horizon := horizon
    timestamp := t
    contextEnd := t
    targetTimestamp := t + horizon * 3600
    predictedCloseP10 := e 0 step 0
    predictedCloseP50 := e 0 step 1
    predictedCloseP90 := e 0 step 2
    predictedHighP50 := e 1 step 1
    predictedLowP50 := e 2 step 1 }

/-- `xs[i - context_length + 1 : i + 1]`. -/
def upToAnchor (contextLength i : ℕ) (xs : List ℚ) : List ℚ :=
  (xs.take (i + 1)).drop (i + 1 - contextLength)

/-- The context of an anchor. -/
def BarSeries.contextOf (series : BarSeries) (contextLength i : ℕ) : Context where
  close := upToAnchor contextLength i series.close
  high := upToAnchor contextLength i series.high
  low := upToAnchor contextLength i series.low

/-- The body of the loop of `forecast_rows`: one batch of anchors. -/
def forecastBatch (pipe : Pipeline) (series : BarSeries) (horizon contextLength : ℕ)
    (batch : List ℕ) : Except CacheError (List ForecastRow) :=
  let q := pipe (batch.map fun i => series.contextOf contextLength i) horizon
  batch.zipIdx.mapM fun (i, k) =>
    match q[k]?, series.timestamp[i]? with
    | some e, some t => pure (forecastRow series.symbol horizon t e)
    | _, _ => throw .indexError

/-- `forecast_rows`. -/
def forecastRows (pipe : Pipeline) (series : BarSeries) (horizon contextLength chunk : ℕ) :
    Except CacheError (List ForecastRow) := do
  let n := series.close.length
  let anchors := List.range' (contextLength - 1) (n - (contextLength - 1))
  let rows ← (chunks chunk anchors).mapM (forecastBatch pipe series horizon contextLength)
  pure rows.flatten

/-! ## The files -/

/-- `QUANTILE_COLUMNS`, with the field that each is read from. -/
def quantileColumns : List (String × (ForecastRow → ℚ)) :=
  [("predicted_close_p10", ForecastRow.predictedCloseP10),
    ("predicted_close_p50", ForecastRow.predictedCloseP50),
    ("predicted_close_p90", ForecastRow.predictedCloseP90),
    ("predicted_high_p50", ForecastRow.predictedHighP50),
    ("predicted_low_p50", ForecastRow.predictedLowP50)]

/-- The table of some rows. -/
def toFrame (rows : List ForecastRow) : ForecastFrame ℚ :=
  Dict.ofList (quantileColumns.map fun (name, get) =>
    (name, Dict.ofList (rows.map fun r => (r.timestamp * 1000, some (get r)))))

/-- `safe_symbol`. -/
def safeSymbol (symbol : String) : String :=
  String.ofList (symbol.toList.map fun c => if c = '/' then '_' else c)

/-- The files of a cache, under `h{horizon}` and the name of the symbol. -/
abbrev Cache : Type := Dict (ℕ × String) (ForecastFrame ℚ)

/-- `write_cache`. -/
def writeCache (cache : Cache) (symbol : String) (horizon : ℕ) (rows : List ForecastRow) :
    Except CacheError Cache := do
  assertNoLeakage rows
  pure (cache.set (horizon, safeSymbol symbol) (toFrame rows))

/-- `load_forecast`; `none` when there is no file. -/
def loadForecast (cache : Cache) (symbol : String) (horizon : ℕ) : Option (ForecastFrame ℚ) :=
  cache.get? (horizon, safeSymbol symbol)

/-! ## The driver -/

/-- `sorted(bars)`. -/
def tsSorted (bars : Series) : List ℤ := bars.keys.insertionSort (· ≤ ·)

/-- A price of the bar at `t`. -/
def priceAt (bars : Series) (price : Bar → ℚ) (t : ℤ) : ℚ := ((bars.get? t).map price).getD 0

/-- The series of the bars of a symbol. -/
def barSeries (symbol : String) (bars : Series) : BarSeries where
  symbol := symbol
  timestamp := (tsSorted bars).map (· / 1000)
  close := (tsSorted bars).map (priceAt bars Bar.c)
  high := (tsSorted bars).map (priceAt bars Bar.h)
  low := (tsSorted bars).map (priceAt bars Bar.l)

/-- `series_by_symbol`. -/
def seriesBySymbol (merged : Dict String Series) : Dict String BarSeries :=
  merged.entries.foldl (fun out e =>
    if e.2.entries = [] then out else out.set e.1 (barSeries e.1 e.2)) .empty

/-- The body of the loops of the driver: one symbol and one horizon. -/
def cacheHorizon (pipe : Pipeline) (contextLength : ℕ) (symbol : String) (series : BarSeries)
    (cache : Cache) (horizon : ℕ) : Except CacheError Cache := do
  let rows ← forecastRows pipe series horizon contextLength 16
  if rows = [] then pure cache else writeCache cache symbol horizon rows

/-- `main` of the driver, from the merged histories on. -/
def buildKrakenCache (pipe : Pipeline) (merged : Dict String Series) (horizons : List ℕ)
    (contextLength : ℕ) (cache : Cache) : Except CacheError Cache :=
  (seriesBySymbol merged).entries.foldlM (fun cache e =>
    horizons.foldlM (cacheHorizon pipe contextLength e.1 e.2) cache) cache

/-! ## Sorted histories -/

lemma mem_tsSorted {bars : Series} {t : ℤ} : t ∈ tsSorted bars ↔ t ∈ bars.keys :=
  List.mem_insertionSort _

/-- The sorted time stamps have no duplicates. -/
lemma tsSorted_pairwise (bars : Series) : (tsSorted bars).Pairwise (· < ·) := by
  have hle : (tsSorted bars).Pairwise (· ≤ ·) := List.pairwise_insertionSort _ _
  have hnodup : (tsSorted bars).Nodup := (List.perm_insertionSort _ _).nodup_iff.mpr bars.nodup
  exact (hle.and hnodup).imp fun h => lt_of_le_of_ne h.1 h.2

/-- What comes up to an entry of a sorted list is the list up to it. -/
lemma filter_le_eq_take {L : List ℤ} (hL : L.Pairwise (· < ·)) {i : ℕ} {t : ℤ}
    (ht : L[i]? = some t) : L.filter (fun u => decide (u ≤ t)) = L.take (i + 1) := by
  obtain ⟨hi, hval⟩ := List.getElem?_eq_some_iff.mp ht
  have hle : ∀ u ∈ L.take (i + 1), u ≤ t := by
    intro u hu
    obtain ⟨k, hk, rfl⟩ := List.mem_take_iff_getElem.mp hu
    rcases (show k < i ∨ k = i by omega) with hlt | rfl
    · exact hval ▸ (List.pairwise_iff_getElem.mp hL k i _ _ hlt).le
    · exact hval.le
  have hgt : ∀ u ∈ L.drop (i + 1), ¬u ≤ t := by
    intro u hu
    obtain ⟨k, hk, rfl⟩ := List.mem_drop_iff_getElem.mp hu
    exact not_le.mpr (hval ▸ List.pairwise_iff_getElem.mp hL i (i + 1 + k) _ _ (by omega))
  conv_lhs => rw [← List.take_append_drop (i + 1) L]
  rw [List.filter_append, List.filter_eq_self.mpr (by simpa using hle),
    List.filter_eq_nil_iff.mpr (by simpa using hgt), List.append_nil]

/-! ## The rows -/

section Rows

variable {pipe : Pipeline} {one : Context → ℕ → Quantiles} {series : BarSeries}
  {horizon contextLength : ℕ}

/-- The row of an anchor. -/
def anchorRow (one : Context → ℕ → Quantiles) (series : BarSeries) (horizon contextLength i : ℕ) :
    ForecastRow :=
  forecastRow series.symbol horizon (series.timestamp.getD i 0)
    (one (series.contextOf contextLength i) horizon)

/-- One batch. -/
lemma forecastBatch_eq (hpipe : pipe.Itemwise one) {batch : List ℕ}
    (hbatch : ∀ i ∈ batch, i < series.timestamp.length) :
    forecastBatch pipe series horizon contextLength batch =
      .ok (batch.map (anchorRow one series horizon contextLength)) := by
  have hitem : ∀ e ∈ batch.zipIdx,
      (match (pipe (batch.map fun i => series.contextOf contextLength i) horizon)[e.2]?,
          series.timestamp[e.1]? with
        | some q, some t => pure (forecastRow series.symbol horizon t q)
        | _, _ => throw CacheError.indexError : Except CacheError ForecastRow) =
      .ok (anchorRow one series horizon contextLength e.1) := by
    rintro ⟨i, k⟩ he
    have hik := List.mem_zipIdx_iff_getElem?.mp he
    have hi := hbatch i (List.mem_of_getElem? hik)
    have hq : (pipe (batch.map fun i => series.contextOf contextLength i) horizon)[k]? =
        some (one (series.contextOf contextLength i) horizon) := by
      simp only [hpipe _ _, List.getElem?_map, hik, Option.map_some]
    simp only [hq, List.getElem?_eq_getElem hi]
    rw [anchorRow, List.getD_eq_getElem _ _ hi]
    rfl
  unfold forecastBatch
  rw [Checked.mapM_eq_ok hitem]
  congr 1
  conv_rhs => rw [← List.zipIdx_map_fst 0 batch, List.map_map]
  rfl

/-- **Rows.** A symbol has one row for each bar with enough history, and the size of the batches
does not matter. -/
theorem forecastRows_eq (hpipe : pipe.Itemwise one) {chunk : ℕ} (hchunk : 0 < chunk)
    (hlength : series.timestamp.length = series.close.length) (hcontext : 0 < contextLength) :
    forecastRows pipe series horizon contextLength chunk =
      .ok ((List.range' (contextLength - 1) (series.close.length - (contextLength - 1))).map
        (anchorRow one series horizon contextLength)) := by
  have hbatch : ∀ batch ∈ chunks chunk (List.range' (contextLength - 1)
      (series.close.length - (contextLength - 1))),
      forecastBatch pipe series horizon contextLength batch =
        .ok (batch.map (anchorRow one series horizon contextLength)) := by
    intro batch hmem
    refine forecastBatch_eq hpipe fun i hi => ?_
    have hi' : i ∈ (chunks chunk (List.range' (contextLength - 1)
        (series.close.length - (contextLength - 1)))).flatten :=
      List.mem_flatten.mpr ⟨batch, hmem, hi⟩
    rw [flatten_chunks hchunk, List.mem_range'_1] at hi'
    omega
  unfold forecastRows
  dsimp only
  rw [Checked.mapM_eq_ok hbatch]
  exact congrArg Except.ok (flatten_map_chunks hchunk _ _)

/-- The rows do not leak. -/
lemma anchorRow_honest (hhorizon : 0 < horizon) (i : ℕ) :
    (anchorRow one series horizon contextLength i).Honest := by
  constructor
  · exact le_rfl
  · simp only [anchorRow, forecastRow]
    omega

end Rows

/-! ## Histories -/

/-- The newest bars up to a time. -/
def contextAt (bars : Series) (contextLength : ℕ) (t : ℤ) : Context :=
  let seen := newest contextLength ((tsSorted bars).filter fun u => decide (u ≤ t))
  ⟨seen.map (priceAt bars Bar.c), seen.map (priceAt bars Bar.h), seen.map (priceAt bars Bar.l)⟩

/-- The newest bars up to a bar, if there are enough of them. -/
def contextUpTo (bars : Series) (contextLength : ℕ) (t : ℤ) : Option Context :=
  if t ∈ bars.keys ∧ contextLength ≤ ((tsSorted bars).filter fun u => decide (u ≤ t)).length then
    some (contextAt bars contextLength t)
  else none

section Histories

variable {bars : Series} {symbol : String} {contextLength i : ℕ} {t : ℤ}

lemma upToAnchor_map (f : ℤ → ℚ) {L : List ℤ} (hi : i < L.length) :
    upToAnchor contextLength i (L.map f) = (newest contextLength (L.take (i + 1))).map f := by
  rw [upToAnchor, newest, List.map_drop, List.map_take, List.length_take,
    min_eq_left (by omega : i + 1 ≤ L.length)]

/-- The context of an anchor is the newest bars up to it. -/
lemma contextOf_barSeries (ht : (tsSorted bars)[i]? = some t) :
    (barSeries symbol bars).contextOf contextLength i = contextAt bars contextLength t := by
  obtain ⟨hi, -⟩ := List.getElem?_eq_some_iff.mp ht
  unfold contextAt
  rw [filter_le_eq_take (tsSorted_pairwise bars) ht]
  simp only [BarSeries.contextOf, barSeries, upToAnchor_map _ hi]

/-- An anchor is a bar with enough bars up to it. -/
lemma contextUpTo_eq_some (ht : (tsSorted bars)[i]? = some t) :
    contextUpTo bars contextLength t =
      if contextLength ≤ i + 1 then some (contextAt bars contextLength t) else none := by
  obtain ⟨hi, -⟩ := List.getElem?_eq_some_iff.mp ht
  have hmem : t ∈ bars.keys := mem_tsSorted.mp (List.mem_of_getElem? ht)
  unfold contextUpTo
  rw [filter_le_eq_take (tsSorted_pairwise bars) ht, List.length_take,
    min_eq_left (by omega : i + 1 ≤ _)]
  simp only [hmem, true_and]

/-- The time stamps of the rows are those of their anchors. -/
lemma timestamp_anchorRow {one : Context → ℕ → Quantiles} {horizon : ℕ}
    (hms : ∀ t ∈ bars.keys, 1000 ∣ t) (ht : (tsSorted bars)[i]? = some t) :
    anchorRow one (barSeries symbol bars) horizon contextLength i =
        forecastRow symbol horizon (t / 1000) (one (contextAt bars contextLength t) horizon) ∧
      (anchorRow one (barSeries symbol bars) horizon contextLength i).timestamp * 1000 = t := by
  have hrow : anchorRow one (barSeries symbol bars) horizon contextLength i =
      forecastRow symbol horizon (t / 1000) (one (contextAt bars contextLength t) horizon) := by
    have hstamp : (barSeries symbol bars).timestamp.getD i 0 = t / 1000 := by
      rw [List.getD_eq_getElem?_getD, barSeries, List.getElem?_map, ht]
      rfl
    rw [anchorRow, contextOf_barSeries ht, hstamp]
    rfl
  refine ⟨hrow, ?_⟩
  rw [hrow]
  exact Int.ediv_mul_cancel (hms t (mem_tsSorted.mp (List.mem_of_getElem? ht)))

/-- The bars with enough bars up to them are those from the first anchor on. -/
lemma contextUpTo_eq (hcontext : 0 < contextLength) (t : ℤ) :
    contextUpTo bars contextLength t =
      if t ∈ (tsSorted bars).drop (contextLength - 1) then some (contextAt bars contextLength t)
      else none := by
  by_cases hmem : t ∈ bars.keys
  · obtain ⟨i, hi⟩ := List.mem_iff_getElem?.mp (mem_tsSorted.mpr hmem)
    have hdrop : t ∈ (tsSorted bars).drop (contextLength - 1) ↔ contextLength ≤ i + 1 := by
      obtain ⟨hlt, hval⟩ := List.getElem?_eq_some_iff.mp hi
      rw [List.mem_drop_iff_getElem]
      constructor
      · rintro ⟨k, hk, hk'⟩
        have hnodup := (tsSorted_pairwise bars).imp fun h => ne_of_lt h
        have := (List.Nodup.getElem_inj_iff hnodup).mp (hk'.trans hval.symm)
        omega
      · intro hle
        refine ⟨i - (contextLength - 1), by omega, ?_⟩
        simp only [show contextLength - 1 + (i - (contextLength - 1)) = i by omega, hval]
    rw [contextUpTo_eq_some hi]
    simp only [hdrop]
  · have hdrop : t ∉ (tsSorted bars).drop (contextLength - 1) := fun h =>
      hmem (mem_tsSorted.mp (List.mem_of_mem_drop h))
    rw [if_neg hdrop]
    exact if_neg fun h => hmem h.1

/-- The rows of a history, bar by bar. -/
lemma map_anchorRow (hms : ∀ t ∈ bars.keys, 1000 ∣ t) (one : Context → ℕ → Quantiles)
    (horizon : ℕ) :
    (List.range' (contextLength - 1)
        ((barSeries symbol bars).close.length - (contextLength - 1))).map
        (anchorRow one (barSeries symbol bars) horizon contextLength) =
      ((tsSorted bars).drop (contextLength - 1)).map fun t =>
        forecastRow symbol horizon (t / 1000) (one (contextAt bars contextLength t) horizon) := by
  have hlength : (barSeries symbol bars).close.length = (tsSorted bars).length := by
    rw [barSeries, List.length_map]
  refine List.ext_getElem ?_ fun k hk hk' => ?_
  · rw [List.length_map, List.length_range', List.length_map, List.length_drop, hlength]
  · rw [List.length_map, List.length_drop] at hk'
    rw [List.getElem_map, List.getElem_map, List.getElem_range', List.getElem_drop, one_mul]
    exact (timestamp_anchorRow hms (List.getElem?_eq_getElem _)).1

end Histories

/-! ## What the cache holds -/

/-- The rows of a symbol, bar by bar. -/
def symbolRows (one : Context → ℕ → Quantiles) (contextLength : ℕ) (symbol : String)
    (bars : Series) (horizon : ℕ) : List ForecastRow :=
  ((tsSorted bars).drop (contextLength - 1)).map fun t =>
    forecastRow symbol horizon (t / 1000) (one (contextAt bars contextLength t) horizon)

/-- The file of a symbol and a horizon, if one is written. -/
def cacheFile (one : Context → ℕ → Quantiles) (contextLength : ℕ)
    (task : (String × Series) × ℕ) : Option (ForecastFrame ℚ) :=
  if (tsSorted task.1.2).drop (contextLength - 1) = [] then none
  else some (toFrame (symbolRows one contextLength task.1.1 task.1.2 task.2))

/-- The columns of the cache, with the variate (close, high, low) and the level (10%, 50%, 90%) of
the forecast that each holds. -/
def forecastColumns : List (String × ℕ × ℕ) :=
  [("predicted_close_p10", 0, 0), ("predicted_close_p50", 0, 1), ("predicted_close_p90", 0, 2),
    ("predicted_high_p50", 1, 1), ("predicted_low_p50", 2, 1)]

/-- Each column of a table is filled from the last step of the forecast. -/
lemma mem_quantileColumns {c : String × ℕ × ℕ} (hc : c ∈ forecastColumns) :
    ∃ get, (c.1, get) ∈ quantileColumns ∧ ∀ symbol horizon t e,
      get (forecastRow symbol horizon t e) = e c.2.1 (horizon - 1) c.2.2 := by
  simp only [forecastColumns, List.mem_cons, List.not_mem_nil, or_false] at hc
  rcases hc with rfl | rfl | rfl | rfl | rfl
  · exact ⟨ForecastRow.predictedCloseP10, by simp [quantileColumns], fun _ _ _ _ => rfl⟩
  · exact ⟨ForecastRow.predictedCloseP50, by simp [quantileColumns], fun _ _ _ _ => rfl⟩
  · exact ⟨ForecastRow.predictedCloseP90, by simp [quantileColumns], fun _ _ _ _ => rfl⟩
  · exact ⟨ForecastRow.predictedHighP50, by simp [quantileColumns], fun _ _ _ _ => rfl⟩
  · exact ⟨ForecastRow.predictedLowP50, by simp [quantileColumns], fun _ _ _ _ => rfl⟩

/-- The forecast of a table at a time, if it has one. -/
def frameValue (frame : ForecastFrame ℚ) (name : String) (t : ℤ) : Option ℚ :=
  (frame.get? name).bind fun column => (column.get? t).join

/-- The forecast of the cache at a time, if it has one. -/
def cachedValue (cache : Cache) (symbol : String) (horizon : ℕ) (name : String) (t : ℤ) :
    Option ℚ :=
  (loadForecast cache symbol horizon).bind fun frame => frameValue frame name t

section Cache

variable {pipe : Pipeline} {one : Context → ℕ → Quantiles} {contextLength : ℕ}

lemma quantileColumns_nodup : (quantileColumns.map Prod.fst).Nodup := by decide

/-- The table of a symbol has at each bar the forecast made of the bars up to it. -/
lemma frameValue_symbolRows (hcontext : 0 < contextLength) {bars : Series}
    (hms : ∀ t ∈ bars.keys, 1000 ∣ t) (symbol : String) (horizon : ℕ)
    {e : String × (ForecastRow → ℚ)} (he : e ∈ quantileColumns) (t : ℤ) :
    frameValue (toFrame (symbolRows one contextLength symbol bars horizon)) e.1 t =
      (contextUpTo bars contextLength t).map fun context =>
        e.2 (forecastRow symbol horizon (t / 1000) (one context horizon)) := by
  have hcolumn : (toFrame (symbolRows one contextLength symbol bars horizon)).get? e.1 =
      some (Dict.ofList ((symbolRows one contextLength symbol bars horizon).map fun r =>
        (r.timestamp * 1000, some (e.2 r)))) := by
    unfold toFrame
    refine Dict.get?_ofList ?_ (List.mem_map.mpr ⟨e, he, rfl⟩)
    rw [List.map_map]
    exact quantileColumns_nodup
  have hentries : ((symbolRows one contextLength symbol bars horizon).map fun r =>
        (r.timestamp * 1000, some (e.2 r))) =
      ((tsSorted bars).drop (contextLength - 1)).map fun t => (t, some (e.2 (forecastRow symbol
        horizon (t / 1000) (one (contextAt bars contextLength t) horizon)))) := by
    rw [symbolRows, List.map_map]
    refine List.map_congr_left fun u hu => ?_
    have hdvd := hms u (mem_tsSorted.mp (List.mem_of_mem_drop hu))
    simp only [Function.comp_apply, forecastRow, Int.ediv_mul_cancel hdvd]
  have hnodup : ((tsSorted bars).drop (contextLength - 1)).Nodup :=
    ((tsSorted_pairwise bars).imp fun h => ne_of_lt h).sublist (List.drop_sublist _ _)
  rw [frameValue, hcolumn, Option.bind_some, hentries, contextUpTo_eq hcontext,
    Dict.get?_ofList_map hnodup]
  by_cases hmem : t ∈ (tsSorted bars).drop (contextLength - 1)
  · rw [if_pos hmem, if_pos hmem]
    rfl
  · rw [if_neg hmem, if_neg hmem]
    rfl

/-- One symbol and one horizon: the rows pass the guard. -/
lemma cacheHorizon_eq (hpipe : pipe.Itemwise one) (hcontext : 0 < contextLength) {bars : Series}
    (hms : ∀ t ∈ bars.keys, 1000 ∣ t) (symbol : String) (cache : Cache) {horizon : ℕ}
    (hhorizon : 0 < horizon) :
    cacheHorizon pipe contextLength symbol (barSeries symbol bars) cache horizon =
      .ok (cache.setSome (horizon, safeSymbol symbol)
        (cacheFile one contextLength ((symbol, bars), horizon))) := by
  have hlength : (barSeries symbol bars).timestamp.length =
      (barSeries symbol bars).close.length := by
    rw [barSeries, List.length_map, List.length_map]
  have hhonest : ∀ r ∈ symbolRows one contextLength symbol bars horizon, r.Honest := by
    intro r hr
    rw [symbolRows, ← map_anchorRow hms] at hr
    obtain ⟨i, -, rfl⟩ := List.mem_map.mp hr
    exact anchorRow_honest hhorizon i
  have hrows : forecastRows pipe (barSeries symbol bars) horizon contextLength 16 =
      .ok (symbolRows one contextLength symbol bars horizon) := by
    rw [forecastRows_eq hpipe (by norm_num) hlength hcontext, map_anchorRow hms]
    rfl
  unfold cacheHorizon cacheFile
  rw [hrows]
  show (if symbolRows one contextLength symbol bars horizon = [] then _ else _) = _
  by_cases hnil : (tsSorted bars).drop (contextLength - 1) = []
  · rw [if_pos (by rw [symbolRows, hnil, List.map_nil]), if_pos hnil]
    rfl
  · rw [if_neg (by rwa [symbolRows, List.map_eq_nil_iff]), if_neg hnil, writeCache,
      assertNoLeakage_iff.mpr hhonest]
    rfl

/-- The series are those of the histories that have bars, in their order. -/
lemma entries_seriesBySymbol (merged : Dict String Series) :
    (seriesBySymbol merged).entries =
      (merged.entries.filter fun e => decide (e.2.entries ≠ [])).map fun e =>
        (e.1, barSeries e.1 e.2) := by
  have hfold : seriesBySymbol merged =
      (((merged.entries.filter fun e => decide (e.2.entries ≠ [])).map fun e =>
        (e.1, barSeries e.1 e.2)).foldl (fun out e => out.set e.1 e.2) .empty) := by
    rw [List.foldl_map, List.foldl_filter]
    unfold seriesBySymbol
    congr 1
    funext out e
    by_cases hnil : e.2.entries = []
    · rw [if_pos hnil, if_neg (by simpa using hnil)]
    · rw [if_neg hnil, if_pos (by simpa using hnil)]
  rw [hfold, Dict.entries_foldl_set]
  · rfl
  · rw [List.map_map]
    exact merged.nodup.sublist (List.filter_sublist.map Prod.fst)
  · intro e _
    exact List.not_mem_nil

/-- A name without an underscore is read off its file. -/
lemma safeSymbol_inj {a b : String} (ha : '_' ∉ a.toList) (hb : '_' ∉ b.toList)
    (h : safeSymbol a = safeSymbol b) : a = b := by
  have hchars : ∀ {xs ys : List Char}, '_' ∉ xs → '_' ∉ ys →
      (xs.map fun c => if c = '/' then '_' else c) = (ys.map fun c => if c = '/' then '_' else c) →
      xs = ys := by
    intro xs
    induction xs with
    | nil => exact fun _ _ h => (List.map_eq_nil_iff.mp h.symm).symm
    | cons x xs ih =>
      intro ys hx hy h
      cases ys with
      | nil => cases h
      | cons y ys =>
        rw [List.mem_cons, not_or] at hx hy
        obtain ⟨hhead, htail⟩ := List.cons.inj h
        have hxy : x = y := by
          dsimp only at hhead
          split_ifs at hhead with hslash hslash' hslash'
          · exact hslash.trans hslash'.symm
          · exact absurd hhead hy.1
          · exact absurd hhead.symm hx.1
          · exact hhead
        rw [hxy, ih hx.2 hy.2 htail]
  exact String.toList_inj.mp (hchars ha hb (String.ofList_injective h))

/-- The files of symbols differ. -/
def DistinctFiles (merged : Dict String Series) : Prop :=
  ∀ a ∈ merged.keys, ∀ b ∈ merged.keys, safeSymbol a = safeSymbol b → a = b

/-- Names without underscores have files of their own. -/
lemma distinctFiles_of_noUnderscore {merged : Dict String Series}
    (h : ∀ name ∈ merged.keys, '_' ∉ name.toList) : DistinctFiles merged :=
  fun a ha b hb => safeSymbol_inj (h a ha) (h b hb)

/-- The time stamps of bars are whole seconds. -/
def WholeSeconds (merged : Dict String Series) : Prop :=
  ∀ sym bars, merged.get? sym = some bars → ∀ t ∈ bars.keys, 1000 ∣ t

/-- The driver writes the files one after another. -/
lemma buildKrakenCache_eq (hpipe : pipe.Itemwise one) (hcontext : 0 < contextLength)
    {merged : Dict String Series} (hms : WholeSeconds merged) {horizons : List ℕ}
    (hhorizons : ∀ h ∈ horizons, 0 < h) :
    buildKrakenCache pipe merged horizons contextLength .empty =
      .ok (((merged.entries.filter fun e => decide (e.2.entries ≠ [])).flatMap fun e =>
        horizons.map fun h => (e, h)).foldl (fun cache task => cache.setSome
          (task.2, safeSymbol task.1.1) (cacheFile one contextLength task)) .empty) := by
  unfold buildKrakenCache
  rw [entries_seriesBySymbol, List.foldl_flatMap, List.foldlM_map]
  refine Checked.foldlM_eq_ok (fun cache e he => ?_) _
  rw [List.foldl_map]
  refine Checked.foldlM_eq_ok (fun cache h hh => ?_) _
  have hget : merged.get? e.1 = some e.2 :=
    Dict.get?_eq_some_iff.mpr (List.mem_of_mem_filter he)
  exact cacheHorizon_eq hpipe hcontext (hms e.1 e.2 hget) e.1 cache (hhorizons h hh)

/-- The files that a lookup finds. -/
theorem buildKrakenCache_files (hpipe : pipe.Itemwise one) (hcontext : 0 < contextLength)
    {merged : Dict String Series} (hms : WholeSeconds merged) (hfiles : DistinctFiles merged)
    {horizons : List ℕ} (hhorizons : ∀ h ∈ horizons, 0 < h) :
    ∃ cache, buildKrakenCache pipe merged horizons contextLength .empty = .ok cache ∧
      ∀ sym bars, merged.get? sym = some bars → ∀ h, loadForecast cache sym h =
        if h ∈ horizons then cacheFile one contextLength ((sym, bars), h) else none := by
  refine ⟨_, buildKrakenCache_eq hpipe hcontext hms hhorizons, fun sym bars hget h => ?_⟩
  have hkey : ∀ task ∈ (merged.entries.filter fun e => decide (e.2.entries ≠ [])).flatMap
      (fun e => horizons.map fun h => (e, h)), (task.2, safeSymbol task.1.1) = (h, safeSymbol sym) →
      task = ((sym, bars), h) ∧ h ∈ horizons := by
    rintro ⟨⟨sym', bars'⟩, h'⟩ htask heq
    obtain ⟨e, he, htask⟩ := List.mem_flatMap.mp htask
    obtain ⟨h'', hh, heq'⟩ := List.mem_map.mp htask
    cases heq'
    obtain ⟨rfl, hsafe⟩ := Prod.mk.inj heq
    have hget' : merged.get? sym' = some bars' :=
      Dict.get?_eq_some_iff.mpr (List.mem_of_mem_filter he)
    obtain rfl := hfiles sym' (Dict.mem_keys_iff.mpr ⟨_, hget'⟩) sym
      (Dict.mem_keys_iff.mpr ⟨_, hget⟩) hsafe
    rw [hget] at hget'
    cases hget'
    exact ⟨rfl, hh⟩
  unfold loadForecast
  by_cases hh : h ∈ horizons
  · rw [if_pos hh]
    refine Dict.get?_foldl_setSome (fun task : (String × Series) × ℕ =>
      (task.2, safeSymbol task.1.1)) _ (fun task htask heq => ?_) ?_
    · rw [(hkey task htask heq).1]
    · by_cases hnil : bars.entries = []
      · left
        have hempty : tsSorted bars = [] :=
          List.eq_nil_iff_forall_not_mem.mpr fun t ht => by
            have := mem_tsSorted.mp ht
            simp [Dict.keys, hnil] at this
        rw [cacheFile, hempty, List.drop_nil, if_pos rfl]
        rfl
      · refine Or.inr ⟨rfl, ((sym, bars), h), List.mem_flatMap.mpr ⟨(sym, bars), ?_,
          List.mem_map.mpr ⟨h, hh, rfl⟩⟩, rfl⟩
        exact List.mem_filter.mpr ⟨Dict.get?_eq_some_iff.mp hget, by simpa using hnil⟩
  · rw [if_neg hh]
    exact Dict.get?_foldl_setSome (fun task : (String × Series) × ℕ =>
      (task.2, safeSymbol task.1.1)) _ (fun task htask heq => absurd (hkey task htask heq).2 hh)
      (Or.inl rfl)

/-- A file has at each bar the forecast made of the bars up to it. -/
lemma cacheFile_value (hcontext : 0 < contextLength) {bars : Series}
    (hms : ∀ t ∈ bars.keys, 1000 ∣ t) (symbol : String) (horizon : ℕ)
    {e : String × (ForecastRow → ℚ)} (he : e ∈ quantileColumns) (t : ℤ) :
    ((cacheFile one contextLength ((symbol, bars), horizon)).bind fun frame =>
        frameValue frame e.1 t) =
      (contextUpTo bars contextLength t).map fun context =>
        e.2 (forecastRow symbol horizon (t / 1000) (one context horizon)) := by
  unfold cacheFile
  by_cases hnil : (tsSorted bars).drop (contextLength - 1) = []
  · rw [if_pos hnil, contextUpTo_eq hcontext, hnil, if_neg List.not_mem_nil]
    rfl
  · rw [if_neg hnil, Option.bind_some, frameValue_symbolRows hcontext hms symbol horizon he]

/-- **The cache.** From histories with whole seconds, of symbols with files of their own, the driver
writes a cache without an error, whatever the batches of the pipeline are. Under each horizon it
has, at each bar of a symbol with enough bars up to it, the last step of the forecast that the
pipeline makes of the newest of these, each variate and level in its column; and no forecast at any
other time. -/
theorem buildKrakenCache_forecast (pipe : Pipeline) (one : Context → ℕ → Quantiles)
    (hpipe : pipe.Itemwise one) (contextLength : ℕ) (hcontext : 0 < contextLength)
    (merged : Dict String Series) (hms : WholeSeconds merged) (hfiles : DistinctFiles merged)
    (horizons : List ℕ) (hhorizons : ∀ h ∈ horizons, 0 < h) :
    ∃ cache, buildKrakenCache pipe merged horizons contextLength .empty = .ok cache ∧
      ∀ sym bars, merged.get? sym = some bars → ∀ h, ∀ c ∈ forecastColumns, ∀ t,
        cachedValue cache sym h c.1 t =
          if h ∈ horizons then (contextUpTo bars contextLength t).map fun context =>
            one context h c.2.1 (h - 1) c.2.2
          else none := by
  obtain ⟨cache, hcache, hload⟩ := buildKrakenCache_files hpipe hcontext hms hfiles hhorizons
  refine ⟨cache, hcache, fun sym bars hget h c hc t => ?_⟩
  obtain ⟨get, hmem, hget'⟩ := mem_quantileColumns hc
  rw [cachedValue, hload sym bars hget h]
  by_cases hh : h ∈ horizons
  · rw [if_pos hh, if_pos hh]
    exact (cacheFile_value hcontext (hms sym bars hget) sym h hmem t).trans
      (congrArg (Option.map · _) (funext fun context => hget' sym h (t / 1000) (one context h)))
  · rw [if_neg hh, if_neg hh]
    rfl

end Cache

/-- A forecaster that repeats the last value of each variate. -/
def persistence (context : Context) (_horizon : ℕ) : Quantiles := fun variate _ _ =>
  ([context.close, context.high, context.low].getD variate []).getLastD 0

/-- Two bars, forecast from contexts of two bars. -/
theorem buildKrakenCache_forecast_two_bars :
    ∃ cache, buildKrakenCache (fun batch h => batch.map fun context => persistence context h)
        (.ofList [("BTC/USD", .ofList [(3600000, .flat 110), (0, .flat 100)])]) [1, 24] 2 .empty =
        .ok cache ∧
      cachedValue cache "BTC/USD" 24 "predicted_close_p50" 0 = none ∧
      cachedValue cache "BTC/USD" 24 "predicted_close_p50" 3600000 = some 110 := by
  have hget : (Dict.ofList [("BTC/USD", (Dict.ofList [((3600000 : ℤ), Bar.flat 110),
      (0, .flat 100)] : Series))]).get? "BTC/USD" =
      some (.ofList [(3600000, .flat 110), (0, .flat 100)]) := by decide +kernel
  obtain ⟨cache, hcache, hvalue⟩ := buildKrakenCache_forecast
    (fun batch h => batch.map fun context => persistence context h) persistence (fun _ _ => rfl) 2
    (by decide)
    (.ofList [("BTC/USD", .ofList [(3600000, .flat 110), (0, .flat 100)])])
    (fun sym bars h => by
      obtain ⟨rfl, rfl⟩ := Prod.mk.inj (List.mem_singleton.mp (Dict.get?_eq_some_iff.mp h))
      decide +kernel)
    (distinctFiles_of_noUnderscore (by decide +kernel)) [1, 24] (by decide)
  refine ⟨cache, hcache, ?_, ?_⟩
  · rw [hvalue _ _ hget 24 ("predicted_close_p50", 0, 1) (by decide)]
    decide +kernel
  · rw [hvalue _ _ hget 24 ("predicted_close_p50", 0, 1) (by decide)]
    decide +kernel

/-! ## Later bars -/

/-- The histories of a symbol have the same bars up to a time. -/
def SameUpToTime (bars bars' : Series) (τ : ℤ) : Prop := ∀ t ≤ τ, bars.get? t = bars'.get? t

section Later

variable {bars bars' : Series} {τ t : ℤ}

lemma SameUpToTime.mem_keys (h : SameUpToTime bars bars' τ) (ht : t ≤ τ) :
    t ∈ bars.keys ↔ t ∈ bars'.keys := by
  rw [Dict.mem_keys_iff, Dict.mem_keys_iff, h t ht]

/-- The bars up to a time are those of both histories. -/
lemma SameUpToTime.filter_tsSorted (h : SameUpToTime bars bars' τ) (ht : t ≤ τ) :
    ((tsSorted bars).filter fun u => decide (u ≤ t)) =
      (tsSorted bars').filter fun u => decide (u ≤ t) := by
  have hsorted := (tsSorted_pairwise bars).filter fun u => decide (u ≤ t)
  have hsorted' := (tsSorted_pairwise bars').filter fun u => decide (u ≤ t)
  have hperm := (List.perm_ext_iff_of_nodup (hsorted.imp fun h => ne_of_lt h)
    (hsorted'.imp fun h => ne_of_lt h)).mpr fun u => by
      simp only [List.mem_filter, mem_tsSorted, decide_eq_true_eq]
      exact and_congr_left fun hu => h.mem_keys (hu.trans ht)
  exact hperm.eq_of_pairwise' hsorted hsorted'

/-- **No leakage.** Bars after a time change no context up to it. -/
theorem SameUpToTime.contextUpTo_eq (h : SameUpToTime bars bars' τ) (ht : t ≤ τ)
    (contextLength : ℕ) :
    contextUpTo bars contextLength t = contextUpTo bars' contextLength t := by
  have hseen := h.filter_tsSorted ht
  have hprice : ∀ price : Bar → ℚ,
      (newest contextLength ((tsSorted bars').filter fun u => decide (u ≤ t))).map
        (priceAt bars price) =
      (newest contextLength ((tsSorted bars').filter fun u => decide (u ≤ t))).map
        (priceAt bars' price) := by
    refine fun price => List.map_congr_left fun u hu => ?_
    have hle : u ≤ t := of_decide_eq_true (List.mem_filter.mp (List.mem_of_mem_drop hu)).2
    rw [priceAt, priceAt, h u (hle.trans ht)]
  unfold contextUpTo contextAt
  rw [hseen]
  simp only [h.mem_keys ht, hprice]

end Later

end KeelTrader.Forecast
