import Mathlib.Data.Int.Log
import KeelTrader.Lib.FixedPoint
import KeelTrader.Forecast.Cache
import KeelTrader.Sim.Data
import KeelTrader.Sim.RoundTrip

set_option relaxedAutoImplicit false
set_option autoImplicit false

/-!
# From histories to a market

`sim/kraken_data.py` after the downloads: histories of several sources are merged, aligned on one
grid, extended by the features of each bar and written to a file, which `market_data_load` reads.

## Main definitions

* `KeelTrader.Sim.mergeSeries` — the merged histories.
* `KeelTrader.Sim.buildFeatureBlock` — the features of the aligned bars.
* `KeelTrader.Sim.buildBin` — the file.
* `KeelTrader.Sim.builtMarket` — the market that the arrays describe.
* `KeelTrader.Sim.LoadedData.Shows` — the C code reads a market out of a loaded file.

## Main results

* `KeelTrader.Sim.mergeSeries_get?` — the last source with a bar wins.
* `KeelTrader.Sim.featureColumn_eq_ok` — the features of a symbol, row by row.
* `KeelTrader.Sim.buildBin_loads` — the C code reads the merged bars and their features.

## Implementation notes

`np.float32` and the way back are parameters: the arrays hold numbers that were rounded to a
`float32`, and the features are computed, exactly, from these.
-/

namespace KeelTrader.Sim

open Checked Packed Forecast

/-! ## Merging -/

/-- The loop of `merge_series` over one source. -/
def mergeSource (out src : Dict String Series) : Dict String Series :=
  src.entries.foldl (fun out e => out.set e.1 (((out.get? e.1).getD .empty).update e.2)) out

/-- `merge_series`. -/
def mergeSeries (sources : List (Dict String Series)) : Dict String Series :=
  sources.foldl mergeSource .empty

/-- The bar of the last source that has one. -/
def lastBar (sources : List (Dict String Series)) (sym : String) (t : ℤ) : Option Bar :=
  sources.foldl (fun bar src => (barsOf src sym).get? t <|> bar) none

lemma barsOf_set (out : Dict String Series) (sym sym' : String) (bars : Series) :
    barsOf (out.set sym bars) sym' = if sym' = sym then bars else barsOf out sym' := by
  unfold barsOf
  rw [Dict.get?_set]
  split <;> rfl

/-- One source: its bars win. -/
lemma mergeSource_get? (out src : Dict String Series) (sym : String) (t : ℤ) :
    (barsOf (mergeSource out src) sym).get? t =
      ((barsOf src sym).get? t <|> (barsOf out sym).get? t) := by
  have hfold : ∀ {es : List (String × Series)}, (es.map Prod.fst).Nodup →
      ∀ out : Dict String Series,
        (barsOf (es.foldl (fun out e => out.set e.1 (((out.get? e.1).getD .empty).update e.2)) out)
          sym).get? t =
          ((es.lookup sym).bind (fun bars => bars.get? t) <|> (barsOf out sym).get? t) := by
    intro es
    induction es with
    | nil => exact fun _ _ => rfl
    | cons e es ih =>
      intro hnodup out
      obtain ⟨hnotMem, hrest⟩ := List.nodup_cons.mp hnodup
      rw [List.foldl_cons, ih hrest, List.lookup_cons, barsOf_set]
      by_cases hkey : sym = e.1
      · subst hkey
        have hnone : es.lookup e.1 = none := by
          refine List.lookup_eq_none_iff.mpr fun x hx => ?_
          exact bne_iff_ne.mpr fun heq => hnotMem (heq ▸ List.mem_map_of_mem hx)
        rw [hnone, if_pos rfl, Dict.get?_update, beq_self_eq_true]
        rfl
      · rw [if_neg hkey, beq_eq_false_iff_ne.mpr hkey]
  have hsrc : (barsOf src sym).get? t = (src.get? sym).bind fun bars => bars.get? t := by
    unfold barsOf
    cases src.get? sym <;> rfl
  rw [hsrc]
  exact hfold src.nodup out

/-- **Merging.** The bar of the last source that has one is kept. -/
theorem mergeSeries_get? (sources : List (Dict String Series)) (sym : String) (t : ℤ) :
    (barsOf (mergeSeries sources) sym).get? t = lastBar sources sym t := by
  have hfold : ∀ (sources : List (Dict String Series)) (out : Dict String Series),
      (barsOf (sources.foldl mergeSource out) sym).get? t =
        sources.foldl (fun bar src => (barsOf src sym).get? t <|> bar)
          ((barsOf out sym).get? t) := by
    intro sources
    induction sources with
    | nil => exact fun _ => rfl
    | cons src sources ih =>
      intro out
      rw [List.foldl_cons, List.foldl_cons, ih, mergeSource_get?]
  exact hfold sources .empty

/-! ## The features -/

/-- `np.float32` of a number, and the number of a `float32`. Zero is a `float32`. -/
structure Rounding where
  single : ℚ → Single
  value : Single → ℚ
  value_single_zero : value (single 0) = 0

/-- A number that was stored in an array. -/
def Rounding.round (r : Rounding) (x : ℚ) : ℚ := r.value (r.single x)

@[simp] lemma Rounding.round_zero (r : Rounding) : r.round 0 = 0 := r.value_single_zero

/-- The prices of a bar that was stored in an array. -/
def Rounding.ohlc (r : Rounding) (b : Bar) : Ohlc ℚ :=
  ⟨r.round b.o, r.round b.h, r.round b.l, r.round b.c⟩

/-- `_TECH_START`. -/
def techStart : ℕ := featureNames.idxOf ((namesOfKind "technical").headD "")

/-- `row[start : start + len(vals)] = vals`. -/
def setSlice (row : List ℚ) (start : ℕ) (vals : List ℚ) : List ℚ :=
  row.take start ++ (vals ++ row.drop (start + vals.length))

/-- The tables of a symbol for both horizons, if there are files for both. -/
def loadBoth (load : String → ℕ → Option (ForecastFrame ℚ)) (sym : String) :
    Option (ForecastFrame ℚ × ForecastFrame ℚ) := do
  let fcH1 ← load sym 1
  let fcH24 ← load sym 24
  pure (fcH1, fcH24)

/-- The body of the loop of `_join_forecast_features`, for a symbol with both tables. -/
def joinForecastFeatures (sqrt : ℚ → ℚ) (grid : List ℤ) (bars : List (Ohlc ℚ))
    (fcH1 fcH24 : ForecastFrame ℚ) (feats : List (List ℚ)) : List (List ℚ) :=
  let full := computeFeatures sqrt (grid.zip bars) fcH1 fcH24
  let fc := (namesOfKind "forecast").map fun name => ((full.get? name).getD []).fillna 0
  feats.mapIdx fun t row => setSlice row 0 (fc.map fun column => (column.getD t none).getD 0)

/-- The loops of `build_feature_block` for one symbol. -/
def featureColumn (r : Rounding) (sqrt : ℚ → ℚ) (grid : List ℤ)
    (loaded : Option (ForecastFrame ℚ × ForecastFrame ℚ)) (column : List Bar) :
    Except String (List (List ℚ)) := do
  let bars := column.map r.ohlc
  let tech ← technicalFeatures sqrt (bars.map Ohlc.openPrice) (bars.map Ohlc.high)
    (bars.map Ohlc.low) (bars.map Ohlc.close)
  let feats := tech.map fun row => setSlice (List.replicate defaultFeaturesPerSym 0) techStart row
  match loaded with
  | none => pure feats
  | some (fcH1, fcH24) => pure (joinForecastFeatures sqrt grid bars fcH1 fcH24 feats)

/-- `build_feature_block`: entry `[s][t][f]` is `feats[t, s, f]`. Without a forecast cache,
`load` is `none`. -/
def buildFeatureBlock (r : Rounding) (sqrt : ℚ → ℚ) (aligned : Aligned)
    (load : Option (String → ℕ → Option (ForecastFrame ℚ))) :
    Except String (List (List (List ℚ))) :=
  (aligned.kept.zip aligned.columns).mapM fun (sym, column) =>
    featureColumn r sqrt aligned.grid (load.bind fun load => loadBoth load sym) column

/-! ## The file -/

/-- The exceptions of `build_bin`. -/
inductive BuildError where
  | align (e : AlignError)
  | features (text : String)
  | pack (e : PackError)
  deriving DecidableEq, Repr

/-- The entries of a bar, in the order of its array. -/
def Bar.row (b : Bar) : List ℚ := [b.o, b.h, b.l, b.c, b.v]

/-- The array of prices. -/
def priceArray (r : Rounding) (aligned : Aligned) : NdArray where
  shape := (aligned.grid.length, aligned.kept.length, priceFeatures)
  get t s p := r.single ((((aligned.columns.getD s []).getD t .zeros).row).getD p 0)

/-- The array of features. -/
def featureArray (r : Rounding) (aligned : Aligned) (feats : List (List (List ℚ))) : NdArray where
  shape := (aligned.grid.length, aligned.kept.length, defaultFeaturesPerSym)
  get t s f := r.single (((feats.getD s []).getD t []).getD f 0)

/-- `build_bin`: the bytes of the file. -/
def buildBin (r : Rounding) (sqrt : ℚ → ℚ) (series : Dict String Series) (symbols : List String)
    (load : Option (String → ℕ → Option (ForecastFrame ℚ))) (timeframe : String) :
    Except BuildError (List UInt8) := do
  let aligned ← (alignToGrid series symbols timeframe).mapError .align
  let feats ← (buildFeatureBlock r sqrt aligned load).mapError .features
  (writeMarketBin aligned.kept (.ndarray (featureArray r aligned feats))
    (.ndarray (priceArray r aligned)) aligned.grid.length defaultFeaturesPerSym 1).mapError .pack

/-! ## The market -/

/-- The entry of a bar in a column of prices. -/
def Bar.get (b : Bar) : PriceFeat → ℚ
  | .pOpen => b.o
  | .pHigh => b.h
  | .pLow => b.l
  | .pClose => b.c
  | .pVol => b.v

/-- The values of `P_OPEN`, `P_HIGH`, `P_LOW`, `P_CLOSE` and `P_VOL`. -/
def PriceFeat.index : PriceFeat → ℕ
  | .pOpen => 0
  | .pHigh => 1
  | .pLow => 2
  | .pClose => 3
  | .pVol => 4

/-- The market of some aligned bars and their features. -/
def builtMarket (r : Rounding) (aligned : Aligned) (feats : List (List (List ℚ))) :
    MarketData where
  numSymbols := aligned.kept.length
  numTimesteps := aligned.grid.length
  featuresPerSym := defaultFeaturesPerSym
  features t s f := r.round (((feats.getD s []).getD t []).getD f 0)
  prices t s k := r.round (((aligned.columns.getD s []).getD t .zeros).get k)
  tradable := none
  anyTradable := none

/-- The C code reads the market `m` out of the data. -/
structure LoadedData.Shows (r : Rounding) (md : LoadedData) (m : MarketData) : Prop where
  numSymbols : md.numSymbols = m.numSymbols
  numTimesteps : md.numTimesteps = m.numTimesteps
  featuresPerSym : md.featuresPerSym = m.featuresPerSym
  unmasked : md.tradable = none ∧ m.tradable = none
  features : ∀ t s f : ℕ, t < m.numTimesteps → s < m.numSymbols → f < m.featuresPerSym →
    ∃ x, keelMdFeature (some md) t s f = .ok x ∧ r.value x = m.features t s f
  prices : ∀ (t s : ℕ) (k : PriceFeat), t < m.numTimesteps → s < m.numSymbols →
    ∃ x, keelMdPrice (some md) t s k.index = .ok x ∧ r.value x = m.prices t s k

/-- The rows of features of a symbol. -/
def featureRows (r : Rounding) (sqrt : ℚ → ℚ) (grid : List ℤ)
    (loaded : Option (ForecastFrame ℚ × ForecastFrame ℚ)) (column : List Bar) : List (List ℚ) :=
  let bars := column.map r.ohlc
  let feats := (barFeatures sqrt bars).map fun row =>
    setSlice (List.replicate defaultFeaturesPerSym 0) techStart row
  match loaded with
  | none => feats
  | some (fcH1, fcH24) => joinForecastFeatures sqrt grid bars fcH1 fcH24 feats

/-- The features of a symbol never fail: its series have one length. -/
theorem featureColumn_eq_ok (r : Rounding) (sqrt : ℚ → ℚ) (grid : List ℤ)
    (loaded : Option (ForecastFrame ℚ × ForecastFrame ℚ)) (column : List Bar) :
    featureColumn r sqrt grid loaded column = .ok (featureRows r sqrt grid loaded column) := by
  unfold featureColumn featureRows
  dsimp only
  rw [technicalFeatures_eq_ok]
  cases loaded <;> rfl

section Arrays

variable {r : Rounding} {sqrt : ℚ → ℚ} {aligned : Aligned}
  {load : Option (String → ℕ → Option (ForecastFrame ℚ))}

/-- The features of every symbol. -/
def featureBlock (r : Rounding) (sqrt : ℚ → ℚ) (aligned : Aligned)
    (load : Option (String → ℕ → Option (ForecastFrame ℚ))) : List (List (List ℚ)) :=
  (aligned.kept.zip aligned.columns).map fun (sym, column) =>
    featureRows r sqrt aligned.grid (load.bind fun load => loadBoth load sym) column

lemma buildFeatureBlock_eq_ok (r : Rounding) (sqrt : ℚ → ℚ) (aligned : Aligned)
    (load : Option (String → ℕ → Option (ForecastFrame ℚ))) :
    buildFeatureBlock r sqrt aligned load = .ok (featureBlock r sqrt aligned load) :=
  mapM_eq_ok fun _ _ => featureColumn_eq_ok _ _ _ _ _

lemma NdArray.shaped_toNested (a : NdArray) :
    Shaped a.shape.1 a.shape.2.1 a.shape.2.2 a.toNested where
  length := by rw [NdArray.toNested, List.length_map, List.length_range]
  rows := by
    intro row hrow
    obtain ⟨t, -, rfl⟩ := List.mem_map.mp hrow
    rw [List.length_map, List.length_range]
  cells := by
    intro row hrow cell hcell
    obtain ⟨t, -, rfl⟩ := List.mem_map.mp hrow
    obtain ⟨s, -, rfl⟩ := List.mem_map.mp hcell
    rw [List.length_map, List.length_range]

lemma NdArray.entry_toNested (a : NdArray) {t s k : ℕ} (ht : t < a.shape.1)
    (hs : s < a.shape.2.1) (hk : k < a.shape.2.2) :
    entry a.toNested t s k = some (a.get t s k) := by
  simp [entry, NdArray.toNested, ht, hs, hk]

lemma Bar.getD_row (b : Bar) (k : PriceFeat) : b.row.getD k.index 0 = b.get k := by
  cases k <;> rfl

lemma PriceFeat.index_lt (k : PriceFeat) : k.index < 5 := by
  cases k <;> decide

/-- The market that two arrays describe. -/
def arraysMarket (r : Rounding) (features prices : NdArray) : MarketData where
  numSymbols := features.shape.2.1
  numTimesteps := features.shape.1
  featuresPerSym := features.shape.2.2
  features t s f := r.value (features.get t s f)
  prices t s k := r.value (prices.get t s k.index)
  tradable := none
  anyTradable := none

/-- Two arrays that a file can hold, under the names of its table. -/
structure ArraysFit (names : List String) (features prices : NdArray) : Prop where
  tableNames : ∀ name ∈ names, TableName name
  one_le_symbols : 1 ≤ names.length
  symbols_le : names.length ≤ 128
  one_le_timesteps : 1 ≤ features.shape.1
  one_le_features : 1 ≤ features.shape.2.2
  size : features.shape.1 * names.length * max features.shape.2.2 5 < 2 ^ 31
  features_shape : features.shape.2.1 = names.length
  prices_shape : prices.shape = (features.shape.1, names.length, 5)

/-- Arrays that fit, as they are packed. -/
def ArraysFit.marketArrays {names : List String} {features prices : NdArray}
    (h : ArraysFit names features prices) : MarketArrays where
  names := names
  numTimesteps := features.shape.1
  featuresPerSym := features.shape.2.2
  features := features.toNested
  prices := prices.toNested
  tableNames := h.tableNames
  one_le_symbols := h.one_le_symbols
  symbols_le := h.symbols_le
  one_le_timesteps := h.one_le_timesteps
  one_le_features := h.one_le_features
  size := h.size
  features_shaped := h.features_shape ▸ features.shaped_toNested
  prices_shaped := by
    have hshaped := prices.shaped_toNested
    rwa [h.prices_shape] at hshaped

/-- **Arrays.** Arrays that fit are written, and the C code reads their market out of the file. -/
theorem ArraysFit.writeMarketBin_shows {names : List String} {features prices : NdArray}
    (h : ArraysFit names features prices) (r : Rounding) :
    ∃ file md, writeMarketBin names (.ndarray features) (.ndarray prices) features.shape.1
        features.shape.2.2 1 = .ok file ∧
      marketDataLoad file = .ok (some md) ∧ md.symNames.map cString = names ∧
      md.Shows r (arraysMarket r features prices) := by
  have hnames : (names.map nameBytes).map cString = names.map id := by
    rw [List.map_map]
    exact List.map_congr_left fun name hname => cString_nameBytes (h.tableNames name hname)
  refine ⟨h.marketArrays.image, h.marketArrays.loaded, writeMarketBin_image h.marketArrays rfl rfl,
    h.marketArrays.marketDataLoad_image, hnames.trans (List.map_id _), ?_⟩
  refine ⟨congrArg Nat.cast h.features_shape.symm, rfl, rfl, ⟨rfl, rfl⟩, fun t s f ht hs hf => ?_,
    fun t s k ht hs => ?_⟩
  · obtain ⟨x, hx, hread⟩ := h.marketArrays.keelMdFeature_image ht
      (show s < names.length from h.features_shape ▸ hs) hf
    obtain rfl := Option.some.inj (hx.symm.trans (features.entry_toNested ht hs hf))
    exact ⟨_, hread, rfl⟩
  · have hsym : s < names.length := h.features_shape ▸ hs
    obtain ⟨x, hx, hread⟩ := h.marketArrays.keelMdPrice_image ht hsym k.index_lt
    have hentry := prices.entry_toNested (t := t) (s := s) (k := k.index)
      (by rwa [h.prices_shape]) (by rwa [h.prices_shape]) (by rw [h.prices_shape]; exact k.index_lt)
    obtain rfl := Option.some.inj (hx.symm.trans hentry)
    exact ⟨_, hread, rfl⟩

/-- The sizes that the format can hold, and names that its table can hold. -/
structure Aligned.Fits (aligned : Aligned) : Prop where
  names : ∀ name ∈ aligned.kept, TableName name
  symbols : aligned.kept.length ≤ 128
  size : aligned.grid.length * aligned.kept.length * defaultFeaturesPerSym < 2 ^ 31

/-- The arrays of some aligned bars fit. -/
lemma Aligned.Fits.arrays (hfits : aligned.Fits) (hkept : 1 ≤ aligned.kept.length)
    (hgrid : 1 ≤ aligned.grid.length) (r : Rounding) (feats : List (List (List ℚ))) :
    ArraysFit aligned.kept (featureArray r aligned feats) (priceArray r aligned) where
  tableNames := hfits.names
  one_le_symbols := hkept
  symbols_le := hfits.symbols
  one_le_timesteps := hgrid
  one_le_features := show 1 ≤ defaultFeaturesPerSym by decide
  size := hfits.size
  features_shape := rfl
  prices_shape := rfl

/-- The arrays of some aligned bars describe their market. -/
lemma arraysMarket_aligned (r : Rounding) (aligned : Aligned) (feats : List (List (List ℚ))) :
    arraysMarket r (featureArray r aligned feats) (priceArray r aligned) =
      builtMarket r aligned feats := by
  simp only [arraysMarket, featureArray, priceArray, builtMarket, Bar.getD_row, Rounding.round]

end Arrays

/-! ## The rows of features -/

lemma techStart_eq : techStart = 8 := by decide

/-- The technical features of a bar. -/
def techRow (sqrt : ℚ → ℚ) (bars : List (Ohlc ℚ)) (t : ℕ) : List ℚ :=
  (technicalColumns sqrt (bars.map Ohlc.high) (bars.map Ohlc.low) (bars.map Ohlc.close)).map
    fun column => column.getD t 0

lemma length_techRow (sqrt : ℚ → ℚ) (bars : List (Ohlc ℚ)) (t : ℕ) :
    (techRow sqrt bars t).length = 8 := rfl

lemma getElem?_barFeatures (sqrt : ℚ → ℚ) {bars : List (Ohlc ℚ)} {t : ℕ} (ht : t < bars.length) :
    (barFeatures sqrt bars)[t]? = some (techRow sqrt bars t) := by
  rw [barFeatures, List.getElem?_map, List.getElem?_range ht]
  rfl

/-- The technical features stand behind the zeros of the forecasts. -/
lemma setSlice_techStart {row : List ℚ} (h : row.length = 8) :
    setSlice (List.replicate defaultFeaturesPerSym 0) techStart row =
      List.replicate 8 0 ++ row := by
  rw [setSlice, techStart_eq, h, defaultFeaturesPerSym]
  simp

/-- The forecasts of a bar replace the zeros. -/
lemma setSlice_zero {fc front row : List ℚ} (h : fc.length = front.length) :
    setSlice (front ++ row) 0 fc = fc ++ row := by
  rw [setSlice, List.take_zero, List.nil_append, Nat.zero_add, h, List.drop_left]

/-- The forecast features of a row. -/
def forecastCells (sqrt : ℚ → ℚ) (grid : List ℤ) (bars : List (Ohlc ℚ))
    (loaded : Option (ForecastFrame ℚ × ForecastFrame ℚ)) (t : ℕ) : List ℚ :=
  match loaded with
  | none => List.replicate 8 0
  | some (fcH1, fcH24) =>
    ((namesOfKind "forecast").map fun name =>
      (((computeFeatures sqrt (grid.zip bars) fcH1 fcH24).get? name).getD []).fillna 0).map
        fun column => (column.getD t none).getD 0

lemma length_forecastCells (sqrt : ℚ → ℚ) (grid : List ℤ) (bars : List (Ohlc ℚ))
    (loaded : Option (ForecastFrame ℚ × ForecastFrame ℚ)) (t : ℕ) :
    (forecastCells sqrt grid bars loaded t).length = 8 := by
  unfold forecastCells
  split
  · exact List.length_replicate
  · rw [List.length_map, List.length_map]
    rfl

/-- **Rows.** The forecast features come first, the technical features of the bar behind them. -/
theorem getElem?_featureRows (r : Rounding) (sqrt : ℚ → ℚ) (grid : List ℤ)
    (loaded : Option (ForecastFrame ℚ × ForecastFrame ℚ)) {column : List Bar} {t : ℕ}
    (ht : t < column.length) :
    (featureRows r sqrt grid loaded column)[t]? =
      some (forecastCells sqrt grid (column.map r.ohlc) loaded t ++
        techRow sqrt (column.map r.ohlc) t) := by
  have htech : ((barFeatures sqrt (column.map r.ohlc)).map fun row =>
      setSlice (List.replicate defaultFeaturesPerSym 0) techStart row)[t]? =
      some (List.replicate 8 0 ++ techRow sqrt (column.map r.ohlc) t) := by
    rw [List.getElem?_map, getElem?_barFeatures sqrt (by rwa [List.length_map]), Option.map_some,
      setSlice_techStart (length_techRow _ _ _)]
  unfold featureRows
  cases loaded with
  | none => exact htech
  | some both =>
    have hlength := length_forecastCells sqrt grid (column.map r.ohlc) (some both) t
    unfold joinForecastFeatures
    dsimp only
    rw [List.getElem?_mapIdx, htech, Option.map_some]
    exact congrArg some (setSlice_zero (hlength.trans List.length_replicate.symm))

/-! ## Loading what was built -/

section Loading

variable {series : Dict String Series} {symbols : List String} {timeframe : String}
  {aligned : Aligned}

/-- What an alignment that succeeds returns. -/
lemma alignToGrid_eq_ok (h : alignToGrid series symbols timeframe = .ok aligned) :
    ∃ step, msPerBar timeframe = .ok step ∧ present series symbols ≠ [] ∧
      commonFirst series (present series symbols) ≤ commonLast series (present series symbols) ∧
      aligned = fillGrid series (present series symbols)
        (pyRange (commonFirst series (present series symbols))
          (commonLast series (present series symbols) + step) step) := by
  unfold alignToGrid at h
  dsimp only at h
  split at h
  · cases h
  · next hkept =>
    cases hstep : msPerBar timeframe with
    | error e =>
      rw [hstep] at h
      cases h
    | ok step =>
      rw [hstep] at h
      replace h : (if _ then _ else _) = _ := h
      split at h
      · cases h
      · next hle =>
        cases h
        exact ⟨step, rfl, hkept, not_lt.mp hle, rfl⟩

/-- A grid has a point. -/
lemma one_le_length_pyRange {first last step : ℤ} (hstep : 0 < step) (hle : first ≤ last) :
    1 ≤ (pyRange first (last + step) step).length := by
  have hone : 1 ≤ (last + step - first + step - 1) / step :=
    (Int.le_ediv_iff_mul_le hstep).mpr (by linarith)
  rw [pyRange, List.length_map, List.length_range]
  omega

/-- A bar of its own is the row of a symbol. -/
lemma getElem?_fillColumn {bars : Series} {bar : Bar} :
    ∀ {grid : List ℤ} {lastBar : Option Bar} {t : ℕ} {ts : ℤ}, grid[t]? = some ts →
      bars.get? ts = some bar → (fillColumn bars lastBar grid)[t]? = some bar
  | [], _, _, _, hts, _ => by simp at hts
  | u :: grid, lastBar, 0, ts, hts, hbar => by
    obtain rfl := Option.some.inj hts
    simp [fillColumn, hbar]
  | u :: grid, lastBar, t + 1, ts, hts, hbar => by
    have hrest : grid[t]? = some ts := hts
    unfold fillColumn
    dsimp only
    split <;> exact getElem?_fillColumn hrest hbar

lemma length_fillColumn (bars : Series) (lastBar : Option Bar) (grid : List ℤ) :
    (fillColumn bars lastBar grid).length = grid.length := by
  rw [fillColumn_eq_scan, List.length_map, CarryForward.length_scan]

/-- A column of an alignment. -/
lemma getElem?_columns (h : alignToGrid series symbols timeframe = .ok aligned) {s : ℕ}
    {sym : String} (hsym : aligned.kept[s]? = some sym) :
    aligned.columns[s]? = some (fillColumn (barsOf series sym) none aligned.grid) := by
  obtain ⟨step, -, -, -, rfl⟩ := alignToGrid_eq_ok h
  simp only [fillGrid] at hsym ⊢
  rw [List.getElem?_map, hsym]
  rfl

/-- The features of a symbol in the market. -/
lemma getD_featureBlock (r : Rounding) (sqrt : ℚ → ℚ)
    (load : Option (String → ℕ → Option (ForecastFrame ℚ)))
    (h : alignToGrid series symbols timeframe = .ok aligned) {s : ℕ} {sym : String}
    (hsym : aligned.kept[s]? = some sym) :
    (featureBlock r sqrt aligned load).getD s [] =
      featureRows r sqrt aligned.grid (load.bind fun load => loadBoth load sym)
        (fillColumn (barsOf series sym) none aligned.grid) := by
  have hzip : (aligned.kept.zip aligned.columns)[s]? =
      some (sym, fillColumn (barsOf series sym) none aligned.grid) :=
    List.getElem?_zip_eq_some.mpr ⟨hsym, getElem?_columns h hsym⟩
  rw [List.getD_eq_getElem?_getD, featureBlock, List.getElem?_map, hzip]
  rfl

/-- A row of features in the market: the forecast features, then the technical features. -/
lemma features_builtMarket (r : Rounding) (sqrt : ℚ → ℚ)
    (load : Option (String → ℕ → Option (ForecastFrame ℚ)))
    (h : alignToGrid series symbols timeframe = .ok aligned) {s t : ℕ} {sym : String}
    (hsym : aligned.kept[s]? = some sym) (ht : t < aligned.grid.length) (f : ℕ) :
    (builtMarket r aligned (featureBlock r sqrt aligned load)).features t s f =
      r.round ((forecastCells sqrt aligned.grid
          ((fillColumn (barsOf series sym) none aligned.grid).map r.ohlc)
          (load.bind fun load => loadBoth load sym) t ++
        techRow sqrt ((fillColumn (barsOf series sym) none aligned.grid).map r.ohlc) t).getD f
          0) := by
  have hcolumn : t < (fillColumn (barsOf series sym) none aligned.grid).length := by
    rwa [length_fillColumn]
  have hrow := getElem?_featureRows r sqrt aligned.grid
    (load.bind fun load => loadBoth load sym) hcolumn
  simp only [builtMarket]
  rw [getD_featureBlock r sqrt load h hsym, List.getD_eq_getElem?_getD (l := featureRows _ _ _ _ _),
    hrow, Option.getD_some]

/-- A price in the market. -/
lemma prices_builtMarket (r : Rounding) (feats : List (List (List ℚ)))
    (h : alignToGrid series symbols timeframe = .ok aligned) {s : ℕ} {sym : String}
    (hsym : aligned.kept[s]? = some sym) (t : ℕ) (k : PriceFeat) :
    (builtMarket r aligned feats).prices t s k =
      r.round (((fillColumn (barsOf series sym) none aligned.grid).getD t .zeros).get k) := by
  simp only [builtMarket]
  rw [List.getD_eq_getElem?_getD (l := aligned.columns), getElem?_columns h hsym,
    Option.getD_some]

/-- The file of an alignment is written, and the C code reads the market out of it. -/
theorem buildBin_shows (r : Rounding) (sqrt : ℚ → ℚ)
    (load : Option (String → ℕ → Option (ForecastFrame ℚ)))
    (h : alignToGrid series symbols timeframe = .ok aligned) (hfits : aligned.Fits) :
    ∃ file md, buildBin r sqrt series symbols load timeframe = .ok file ∧
      marketDataLoad file = .ok (some md) ∧ md.symNames.map cString = aligned.kept ∧
      md.Shows r (builtMarket r aligned (featureBlock r sqrt aligned load)) := by
  obtain ⟨step, hstep, hkept, hle, heq⟩ := alignToGrid_eq_ok h
  have hone : 1 ≤ aligned.kept.length := by
    rw [heq]
    exact List.length_pos_of_ne_nil hkept
  have hgrid : 1 ≤ aligned.grid.length := by
    rw [heq]
    exact one_le_length_pyRange (msPerBar_pos hstep) hle
  obtain ⟨file, md, hpack, hmd, hnames, hshows⟩ :=
    (hfits.arrays hone hgrid r (featureBlock r sqrt aligned load)).writeMarketBin_shows r
  refine ⟨file, md, ?_, hmd, hnames, arraysMarket_aligned r aligned _ ▸ hshows⟩
  unfold buildBin
  rw [h]
  show (do
    let feats ← (buildFeatureBlock r sqrt aligned load).mapError BuildError.features
    _) = _
  rw [buildFeatureBlock_eq_ok]
  exact congrArg (Except.mapError BuildError.pack) hpack

/-- **From histories to a market.** When the merged histories of some sources can be aligned, and
the format can hold the result, `build_bin` writes a file that the C code loads, under the names of
the kept symbols. It reads out of it one market: the price of a bar that some source has is the
rounded price of the last source that has it; the technical features of a bar are those that
`technical_features` computes from the prices of its symbol; and without a forecast cache the
forecast features are zero.

**Proof sketch.** The arrays have the shape that the format asks for, so the file is their image
(`writeMarketBin_image`), and the C code indexes their entries
(`ArraysFit.writeMarketBin_shows`). -/
theorem buildBin_loads (r : Rounding) (sqrt : ℚ → ℚ) (sources : List (Dict String Series))
    (symbols : List String) (load : Option (String → ℕ → Option (ForecastFrame ℚ)))
    (timeframe : String) (aligned : Aligned)
    (h : alignToGrid (mergeSeries sources) symbols timeframe = .ok aligned)
    (hfits : aligned.Fits) :
    ∃ file md m, buildBin r sqrt (mergeSeries sources) symbols load timeframe = .ok file ∧
      marketDataLoad file = .ok (some md) ∧ md.symNames.map cString = aligned.kept ∧
      md.Shows r m ∧ m.numSymbols = aligned.kept.length ∧
      m.numTimesteps = aligned.grid.length ∧ m.featuresPerSym = 16 ∧
      ∀ s t sym ts, aligned.kept[s]? = some sym → aligned.grid[t]? = some ts →
        (∀ bar, lastBar sources sym ts = some bar → ∀ k, m.prices t s k = r.round (bar.get k)) ∧
        ∃ bars : List (Ohlc ℚ), bars.length = aligned.grid.length ∧
          (∀ u < bars.length, bars[u]? = some ⟨m.prices u s .pOpen, m.prices u s .pHigh,
            m.prices u s .pLow, m.prices u s .pClose⟩) ∧
          (∀ k < 8, m.features t s (8 + k) =
            r.round (((barFeatures sqrt bars).getD t []).getD k 0)) ∧
          (load = none → ∀ f < 8, m.features t s f = 0) := by
  obtain ⟨file, md, hfile, hmd, hnames, hshows⟩ := buildBin_shows r sqrt load h hfits
  refine ⟨file, md, _, hfile, hmd, hnames, hshows, rfl, rfl, rfl,
    fun s t sym ts hsym hts => ⟨fun bar hbar k => ?_, ?_⟩⟩
  · have hget : (barsOf (mergeSeries sources) sym).get? ts = some bar := by
      rw [mergeSeries_get?, hbar]
    rw [prices_builtMarket r _ h hsym, List.getD_eq_getElem?_getD, getElem?_fillColumn hts hget,
      Option.getD_some]
  · obtain ⟨ht, -⟩ := List.getElem?_eq_some_iff.mp hts
    have hlength := length_fillColumn (barsOf (mergeSeries sources) sym) none aligned.grid
    have hfront := length_forecastCells sqrt aligned.grid
      ((fillColumn (barsOf (mergeSeries sources) sym) none aligned.grid).map r.ohlc)
      (load.bind fun load => loadBoth load sym) t
    refine ⟨(fillColumn (barsOf (mergeSeries sources) sym) none aligned.grid).map r.ohlc,
      by rw [List.length_map, hlength], fun u hu => ?_, fun k hk => ?_, fun hload f hf => ?_⟩
    · rw [List.length_map] at hu
      simp only [prices_builtMarket r _ h hsym, List.getElem?_map, List.getElem?_eq_getElem hu,
        List.getD_eq_getElem _ _ hu, Option.map_some]
      rfl
    · rw [features_builtMarket r sqrt load h hsym ht, List.getD_append_right _ _ _ _ (by omega),
        hfront, Nat.add_sub_cancel_left, List.getD_eq_getElem?_getD (l := barFeatures _ _),
        getElem?_barFeatures sqrt (by rwa [List.length_map, hlength]), Option.getD_some]
    · rw [features_builtMarket r sqrt load h hsym ht, List.getD_append _ _ _ _ (by omega), hload,
        Option.bind_none]
      exact (congrArg r.round (List.getD_replicate 0 hf)).trans r.round_zero

end Loading

/-! ## Two sources -/

/-- Rounding to the nearest `float32`, for numbers in the range of the normal ones; what is closer
to zero than these becomes zero. -/
def nearestSingle : Rounding where
  single x :=
    let e := Int.log 2 |x|
    if x = 0 ∨ e < -126 then ⟨0⟩
    else
      let bits := 2 ^ 23 * (e + 126) + roundHalfEven (|x| / 2 ^ (e - 23))
      ⟨UInt32.ofNat ((if x < 0 then 2 ^ 31 else 0) + bits.toNat)⟩
  value x :=
    let bits := x.bits.toNat
    let e : ℕ := bits / 2 ^ 23 % 256
    let magnitude : ℚ := if e = 0 then 0 else (2 ^ 23 + (bits % 2 ^ 23 : ℕ)) * 2 ^ ((e : ℤ) - 150)
    if bits < 2 ^ 31 then magnitude else -magnitude
  value_single_zero := by decide +kernel

/-- A backfill and the bars of the exchange, which overlap in the second hour. -/
def twoSources : List (Dict String Series) :=
  [.ofList [("BTC/USD", .ofList [(0, .flat 100), (3600000, .flat 104)])],
    .ofList [("BTC/USD", .ofList [(3600000, .flat 105), (7200000, .flat 110)])]]

/-- The exchange wins in the second hour. -/
theorem buildBin_loads_two_sources :
    ∃ file md m, buildBin nearestSingle id (mergeSeries twoSources) ["BTC/USD", "ETH/USD"] none
        "1h" = .ok file ∧
      marketDataLoad file = .ok (some md) ∧ md.Shows nearestSingle m ∧ m.numTimesteps = 3 ∧
      m.prices 1 0 .pClose = 105 := by
  have halign : alignToGrid (mergeSeries twoSources) ["BTC/USD", "ETH/USD"] "1h" =
      .ok ⟨["BTC/USD"], [0, 3600000, 7200000], [[.flat 100, .flat 105, .flat 110]]⟩ := by
    decide +kernel
  have hfits : Aligned.Fits ⟨["BTC/USD"], [0, 3600000, 7200000],
      [[.flat 100, .flat 105, .flat 110]]⟩ := ⟨by decide, by decide, by decide⟩
  obtain ⟨file, md, m, hfile, hmd, -, hshows, -, hsteps, -, hcells⟩ := buildBin_loads nearestSingle
    id twoSources ["BTC/USD", "ETH/USD"] none "1h" _ halign hfits
  refine ⟨file, md, m, hfile, hmd, hshows, hsteps, ?_⟩
  rw [(hcells 0 1 "BTC/USD" 3600000 rfl rfl).1 (.flat 105) (by decide +kernel) .pClose]
  decide +kernel

end KeelTrader.Sim
