import KeelTrader.Sim.BuildBin
import KeelTrader.Sim.NoLookahead

set_option relaxedAutoImplicit false
set_option autoImplicit false

/-!
# No lookahead from the histories on

A policy that runs on a market file cannot see bars that come after the one it trades at: neither
through the prices, nor through the technical features, nor through the forecasts of the cache that
was joined to them. Two histories that part after some time, of which each goes through the whole
pipeline, show the policy the same observations until then.

## Main definitions

* `KeelTrader.Sim.SamePast` — histories of the same symbols and the same span, with the same bars up
  to a time.
* `KeelTrader.Sim.BuiltFrom` — a market that the C code reads out of the file of some histories.

## Main results

* `KeelTrader.Sim.fillColumn_take` — the filled bars depend on earlier bars only.
* `KeelTrader.Sim.forecastCells_cache` — the forecast features of a bar, from its cache.
* `KeelTrader.Sim.BuiltFrom.agree` — the markets agree up to the row of the time.
* `KeelTrader.Sim.pipeline_noLookahead` — noninterference from the histories to the policy.
-/

namespace KeelTrader.Sim

open Checked Forecast

/-! ## The filled bars -/

/-- The bars at the first grid points decide the first rows. -/
lemma fillColumn_take {bars bars' : Series} : ∀ (n : ℕ) {grid : List ℤ} (lastBar : Option Bar),
    (∀ u ∈ grid.take n, bars.get? u = bars'.get? u) →
      (fillColumn bars lastBar grid).take n = (fillColumn bars' lastBar grid).take n
  | 0, _, _, _ => rfl
  | _ + 1, [], _, _ => rfl
  | n + 1, u :: grid, lastBar, h => by
    rw [List.take_succ_cons, List.forall_mem_cons] at h
    unfold fillColumn
    rw [h.1]
    dsimp only
    split <;> rw [List.take_succ_cons, List.take_succ_cons, fillColumn_take n _ h.2]

/-- A grid is sorted. -/
lemma pyRange_pairwise {first stop step : ℤ} (hstep : 0 < step) :
    (pyRange first stop step).Pairwise (· < ·) := by
  unfold pyRange
  refine List.Pairwise.map _ (fun a b hab => ?_) List.pairwise_lt_range
  have hcast : (a : ℤ) < b := by exact_mod_cast hab
  nlinarith

/-! ## The forecast features -/

/-- A forecast delta of a bar. -/
def deltaCell (close : ℚ) (forecast : Option ℚ) : ℚ :=
  (forecast.map fun x => (x - close) / max close eps).getD 0

/-- A forecast confidence of a bar. -/
def confidenceCell (close : ℚ) (p90 p10 : Option ℚ) : ℚ :=
  (Option.map₂ (fun x y => 1 / (1 + |x - y| / max close eps)) p90 p10).getD 0

/-- The forecast features of a bar, from the forecasts for both horizons. -/
def cellsOf (close : ℚ) (forecast : ℕ → String → Option ℚ) : List ℚ :=
  [deltaCell close (forecast 1 "predicted_close_p50"),
    deltaCell close (forecast 1 "predicted_high_p50"),
    deltaCell close (forecast 1 "predicted_low_p50"),
    deltaCell close (forecast 24 "predicted_close_p50"),
    deltaCell close (forecast 24 "predicted_high_p50"),
    deltaCell close (forecast 24 "predicted_low_p50"),
    confidenceCell close (forecast 1 "predicted_close_p90") (forecast 1 "predicted_close_p10"),
    confidenceCell close (forecast 24 "predicted_close_p90") (forecast 24 "predicted_close_p10")]

section Cells

variable {index : List ℤ} {closes : List ℚ} {fc : ForecastFrame ℚ} {t : ℕ} {ts : ℤ}

lemma getD_reindex {name : String} {column : ForecastColumn ℚ} (h : fc.get? name = some column)
    (ht : index[t]? = some ts) :
    (reindex index column).getD t none = frameValue fc name ts := by
  rw [reindex, List.getD_eq_getElem?_getD, List.getElem?_map, ht, frameValue, h]
  rfl

/-- A delta column, at a row. -/
lemma getD_forecastDelta {name horizon : String} (hplain : name ++ horizon ∉ fc.keys)
    (hname : name ∈ fc.keys) (ht : index[t]? = some ts) (hlength : closes.length = index.length) :
    ((forecastDelta index (Column.values closes) fc name horizon).getD t none).getD 0 =
      deltaCell (closes.getD t 0) (frameValue fc name ts) := by
  obtain ⟨column, hcolumn⟩ := Dict.mem_keys_iff.mp hname
  obtain ⟨hlt, -⟩ := List.getElem?_eq_some_iff.mp ht
  have hreindex : t < (reindex index column).length := by rwa [reindex, List.length_map]
  have hvalues : t < (Column.values closes).length := by rw [Column.length_values]; omega
  have hclip : t < ((Column.values closes).clipLower eps).length := by
    rw [Column.clipLower_values, Column.length_values, List.length_map]
    omega
  have hzip : t < (Column.zip (fun x c => x - c) (reindex index column)
      (Column.values closes)).length := by
    rw [Column.zip, List.length_zipWith]
    exact lt_min hreindex hvalues
  unfold forecastDelta
  dsimp only
  rw [if_neg hplain, hcolumn]
  dsimp only
  rw [perClose, Column.getD_zip _ hzip hclip, Column.getD_zip _ hreindex hvalues,
    Column.clipLower, Column.getD_map, Column.getD_values (by omega) 0, getD_reindex hcolumn ht,
    deltaCell]
  cases frameValue fc name ts <;> rfl

/-- A confidence column, at a row. -/
lemma getD_forecastConfidence {horizon : String}
    (hplain : "predicted_close_p90" ++ horizon ∉ fc.keys ∧
      "predicted_close_p10" ++ horizon ∉ fc.keys)
    (hname : "predicted_close_p90" ∈ fc.keys ∧ "predicted_close_p10" ∈ fc.keys)
    (ht : index[t]? = some ts) (hlength : closes.length = index.length) :
    ((forecastConfidence index (Column.values closes) fc horizon).getD t none).getD 0 =
      confidenceCell (closes.getD t 0) (frameValue fc "predicted_close_p90" ts)
        (frameValue fc "predicted_close_p10" ts) := by
  obtain ⟨p90, hp90⟩ := Dict.mem_keys_iff.mp hname.1
  obtain ⟨p10, hp10⟩ := Dict.mem_keys_iff.mp hname.2
  obtain ⟨hlt, -⟩ := List.getElem?_eq_some_iff.mp ht
  have hlength90 : t < (reindex index p90).length := by rwa [reindex, List.length_map]
  have hlength10 : t < (reindex index p10).length := by rwa [reindex, List.length_map]
  have hclip : t < ((Column.values closes).clipLower eps).length := by
    rw [Column.clipLower_values, Column.length_values, List.length_map]
    omega
  have hspread : t < ((Column.zip (fun x y => x - y) (reindex index p90)
      (reindex index p10)).map abs).length := by
    rw [Column.map, List.length_map, Column.zip, List.length_zipWith]
    exact lt_min hlength90 hlength10
  unfold forecastConfidence
  dsimp only
  rw [if_neg hplain.1, if_neg hplain.2, hp90, hp10]
  dsimp only
  rw [Column.getD_map, perClose, Column.getD_zip _ hspread hclip, Column.getD_map,
    Column.getD_zip _ hlength90 hlength10, Column.clipLower, Column.getD_map,
    Column.getD_values (by omega) 0, getD_reindex hp90 ht, getD_reindex hp10 ht, confidenceCell]
  cases frameValue fc "predicted_close_p90" ts <;>
    cases frameValue fc "predicted_close_p10" ts <;> rfl

end Cells

lemma getD_fillna (a : Column ℚ) (t : ℕ) :
    (((a.fillna 0).fillna 0).getD t none).getD 0 = (a.getD t none).getD 0 := by
  simp only [Column.fillna, List.map_map, List.getD_eq_getElem?_getD, List.getElem?_map]
  cases a[t]? <;> rfl

/-- A column of the exporter's table, at a row. -/
lemma cell_computeFeatures {sqrt : ℚ → ℚ} {prices : PriceFrame ℚ} {fcH1 fcH24 : ForecastFrame ℚ}
    {name : String} {a : Column ℚ} (h : (name, a) ∈ featureColumns sqrt prices fcH1 fcH24) (t : ℕ) :
    (((((computeFeatures sqrt prices fcH1 fcH24).get? name).getD []).fillna 0).getD t none).getD 0 =
      (a.getD t none).getD 0 := by
  rw [computeFeatures_get? h, Option.getD_some, getD_fillna]

/-- A table has the columns that a cache writes. -/
def CacheColumns (fc : ForecastFrame ℚ) : Prop := fc.keys = quantileColumns.map Prod.fst

lemma cacheColumns_toFrame (rows : List ForecastRow) : CacheColumns (toFrame rows) := by
  have hkeys : ((quantileColumns.map fun (e : String × (ForecastRow → ℚ)) =>
      (e.1, Dict.ofList (rows.map fun r => (r.timestamp * 1000, some (e.2 r))))).map Prod.fst) =
      quantileColumns.map Prod.fst := by
    rw [List.map_map]
    rfl
  exact (Dict.keys_ofList (hkeys ▸ quantileColumns_nodup)).trans hkeys

/-- The forecast features of a bar are made of its close and of the forecasts at its time. -/
lemma forecastCells_some (sqrt : ℚ → ℚ) {grid : List ℤ} {bars : List (Ohlc ℚ)}
    {fcH1 fcH24 : ForecastFrame ℚ} (hH1 : CacheColumns fcH1) (hH24 : CacheColumns fcH24)
    (hlength : bars.length = grid.length) {t : ℕ} {ts : ℤ} (ht : grid[t]? = some ts) :
    forecastCells sqrt grid bars (some (fcH1, fcH24)) t =
      cellsOf ((bars.map Ohlc.close).getD t 0) fun h name =>
        frameValue (if h = 1 then fcH1 else fcH24) name ts := by
  have hindex : (grid.zip bars).map Prod.fst = grid := List.map_fst_zip hlength.ge
  have hcloses : ((grid.zip bars).map fun row => row.2.close) = bars.map Ohlc.close := by
    conv_rhs => rw [← List.map_snd_zip hlength.le]
    rw [List.map_map]
    rfl
  have hcount : (bars.map Ohlc.close).length = grid.length := by rwa [List.length_map]
  have hmem : ∀ {fc : ForecastFrame ℚ}, CacheColumns fc → ∀ name : String,
      name ∈ fc.keys ↔ name ∈ quantileColumns.map Prod.fst := fun h name => by rw [h]
  have hdelta : ∀ {fc : ForecastFrame ℚ}, CacheColumns fc → ∀ name horizon : String,
      name ++ horizon ∉ quantileColumns.map Prod.fst → name ∈ quantileColumns.map Prod.fst →
      ((forecastDelta grid (Column.values (bars.map Ohlc.close)) fc name horizon).getD t none).getD
        0 = deltaCell ((bars.map Ohlc.close).getD t 0) (frameValue fc name ts) :=
    fun h name horizon hplain hname => getD_forecastDelta (by rwa [hmem h]) (by rwa [hmem h]) ht
      hcount
  have hconfidence : ∀ {fc : ForecastFrame ℚ}, CacheColumns fc → ∀ horizon : String,
      ("predicted_close_p90" ++ horizon ∉ quantileColumns.map Prod.fst ∧
        "predicted_close_p10" ++ horizon ∉ quantileColumns.map Prod.fst) →
      ((forecastConfidence grid (Column.values (bars.map Ohlc.close)) fc horizon).getD t none).getD
        0 = confidenceCell ((bars.map Ohlc.close).getD t 0)
          (frameValue fc "predicted_close_p90" ts) (frameValue fc "predicted_close_p10" ts) :=
    fun h horizon hplain => getD_forecastConfidence (by rwa [hmem h, hmem h])
      (by rw [hmem h, hmem h]; decide) ht hcount
  have hnames : namesOfKind "forecast" = ["chronos_close_delta_h1", "chronos_high_delta_h1",
      "chronos_low_delta_h1", "chronos_close_delta_h24", "chronos_high_delta_h24",
      "chronos_low_delta_h24", "forecast_confidence_h1", "forecast_confidence_h24"] := by decide
  simp only [forecastCells, hnames, List.map_cons, List.map_nil]
  rw [cell_computeFeatures (List.mem_of_getElem? (i := 0) rfl),
    cell_computeFeatures (List.mem_of_getElem? (i := 1) rfl),
    cell_computeFeatures (List.mem_of_getElem? (i := 2) rfl),
    cell_computeFeatures (List.mem_of_getElem? (i := 3) rfl),
    cell_computeFeatures (List.mem_of_getElem? (i := 4) rfl),
    cell_computeFeatures (List.mem_of_getElem? (i := 5) rfl),
    cell_computeFeatures (List.mem_of_getElem? (i := 6) rfl),
    cell_computeFeatures (List.mem_of_getElem? (i := 7) rfl)]
  simp only [hindex, hcloses]
  rw [hdelta hH1 _ _ (by decide) (by decide), hdelta hH1 _ _ (by decide) (by decide),
    hdelta hH1 _ _ (by decide) (by decide), hdelta hH24 _ _ (by decide) (by decide),
    hdelta hH24 _ _ (by decide) (by decide), hdelta hH24 _ _ (by decide) (by decide),
    hconfidence hH1 _ (by decide), hconfidence hH24 _ (by decide)]
  rfl

/-- The cells read the columns that a cache writes. -/
lemma cellsOf_congr {close : ℚ} {f g : ℕ → String → Option ℚ}
    (h : ∀ e ∈ quantileColumns, f 1 e.1 = g 1 e.1 ∧ f 24 e.1 = g 24 e.1) :
    cellsOf close f = cellsOf close g := by
  simp only [quantileColumns, List.forall_mem_cons] at h
  obtain ⟨hp10, hp50, hp90, hhigh, hlow, -⟩ := h
  unfold cellsOf
  rw [hp10.1, hp50.1, hp90.1, hhigh.1, hlow.1, hp10.2, hp50.2, hp90.2, hhigh.2, hlow.2]

/-- Without forecasts the cells are zero. -/
lemma cellsOf_none (close : ℚ) : cellsOf close (fun _ _ => none) = List.replicate 8 0 := rfl

/-- The forecast of a cache, made of the bars of a symbol up to its time. -/
def cachedForecast (one : Context → ℕ → Quantiles) (contextLength : ℕ) (horizons : List ℕ)
    (sym : String) (bars : Series) (ts : ℤ) (h : ℕ) (name : String) : Option ℚ :=
  if 1 ∈ horizons ∧ 24 ∈ horizons then
    (contextUpTo bars contextLength ts).bind fun context =>
      (quantileColumns.lookup name).map fun get =>
        get (forecastRow sym h (ts / 1000) (one context h))
  else none

lemma lookup_quantileColumns {e : String × (ForecastRow → ℚ)} (he : e ∈ quantileColumns) :
    quantileColumns.lookup e.1 = some e.2 := by
  simp only [quantileColumns, List.mem_cons, List.not_mem_nil, or_false] at he
  rcases he with rfl | rfl | rfl | rfl | rfl <;> rfl

section Cached

variable {one : Context → ℕ → Quantiles} {contextLength : ℕ} {horizons : List ℕ} {cache : Cache}
  {sym : String} {history : Series}

/-- **Cached forecasts.** The forecast features of a bar come from the bars of the history up to
it. -/
theorem forecastCells_cache (sqrt : ℚ → ℚ) (hcontext : 0 < contextLength)
    (hms : ∀ t ∈ history.keys, 1000 ∣ t)
    (hload : ∀ h, loadForecast cache sym h =
      if h ∈ horizons then cacheFile one contextLength ((sym, history), h) else none)
    {grid : List ℤ} {bars : List (Ohlc ℚ)} (hlength : bars.length = grid.length) {t : ℕ} {ts : ℤ}
    (ht : grid[t]? = some ts) :
    forecastCells sqrt grid bars (loadBoth (loadForecast cache) sym) t =
      cellsOf ((bars.map Ohlc.close).getD t 0)
        (cachedForecast one contextLength horizons sym history ts) := by
  unfold loadBoth
  rw [hload, hload]
  by_cases hboth : 1 ∈ horizons ∧ 24 ∈ horizons
  · rw [if_pos hboth.1, if_pos hboth.2]
    by_cases hnil : (tsSorted history).drop (contextLength - 1) = []
    · -- there is no file, and no bar has enough bars up to it
      have hnone : cachedForecast one contextLength horizons sym history ts = fun _ _ => none := by
        funext h name
        rw [cachedForecast, if_pos hboth, contextUpTo_eq hcontext, hnil, if_neg List.not_mem_nil]
        rfl
      rw [cacheFile, if_pos hnil, hnone, cellsOf_none]
      rfl
    · rw [cacheFile, if_neg hnil, cacheFile, if_neg hnil]
      refine (forecastCells_some sqrt (cacheColumns_toFrame _) (cacheColumns_toFrame _) hlength
        ht).trans (cellsOf_congr fun e he => ?_)
      have hvalue : ∀ h, frameValue (toFrame (symbolRows one contextLength sym history h)) e.1 ts =
          cachedForecast one contextLength horizons sym history ts h e.1 := by
        intro h
        rw [frameValue_symbolRows hcontext hms sym h he, cachedForecast, if_pos hboth,
          lookup_quantileColumns he]
        cases contextUpTo history contextLength ts <;> rfl
      exact ⟨hvalue 1, hvalue 24⟩
  · have hnone : cachedForecast one contextLength horizons sym history ts = fun _ _ => none := by
      funext h name
      rw [cachedForecast, if_neg hboth]
    rw [hnone, cellsOf_none]
    rcases not_and_or.mp hboth with hone | htwo
    · rw [if_neg hone]
      rfl
    · rw [if_neg htwo]
      cases (if 1 ∈ horizons then cacheFile one contextLength ((sym, history), 1) else none) <;> rfl

/-- Later bars change no forecast of an earlier one. -/
lemma cachedForecast_congr {history' : Series} {τ ts : ℤ} (h : SameUpToTime history history' τ)
    (hts : ts ≤ τ) :
    cachedForecast one contextLength horizons sym history ts =
      cachedForecast one contextLength horizons sym history' ts := by
  funext h' name
  rw [cachedForecast, cachedForecast, h.contextUpTo_eq hts]

end Cached

/-! ## Markets -/

/-- Two collections of histories: of the same symbols, over the same span, and with the same bars up
to a time. -/
structure SamePast (series series' : Dict String Series) (symbols : List String) (τ : ℤ) :
    Prop where
  bars : ∀ sym, SameUpToTime (barsOf series sym) (barsOf series' sym) τ
  kept : present series symbols = present series' symbols
  first : commonFirst series (present series symbols) =
    commonFirst series' (present series' symbols)
  last : commonLast series (present series symbols) =
    commonLast series' (present series' symbols)

/-- The pipeline, without the histories. -/
structure PipelineConfig where
  rounding : Rounding
  sqrt : ℚ → ℚ
  pipe : Pipeline
  contextLength : ℕ
  horizons : List ℕ
  symbols : List String
  timeframe : String

/-- A market that the C code reads out of the file of some histories, to which the forecasts of
their cache were joined. -/
def BuiltFrom (cfg : PipelineConfig) (series : Dict String Series) (m : MarketData) : Prop :=
  ∃ cache file md,
    buildKrakenCache cfg.pipe series cfg.horizons cfg.contextLength .empty = .ok cache ∧
      buildBin cfg.rounding cfg.sqrt series cfg.symbols (some (loadForecast cache))
        cfg.timeframe = .ok file ∧
      marketDataLoad file = .ok (some md) ∧ md.Shows cfg.rounding m

/-- The context of the pipeline is not empty, its horizons are ahead, and the histories have whole
seconds and files of their own. -/
structure PipelineConfig.Sound (cfg : PipelineConfig) (one : Context → ℕ → Quantiles)
    (series : Dict String Series) : Prop where
  itemwise : cfg.pipe.Itemwise one
  context : 0 < cfg.contextLength
  horizons : ∀ h ∈ cfg.horizons, 0 < h
  seconds : WholeSeconds series
  files : DistinctFiles series

section Past

variable {cfg : PipelineConfig} {one : Context → ℕ → Quantiles}
  {series series' : Dict String Series} {aligned aligned' : Aligned} {m m' : MarketData} {τ : ℤ}

/-- A market that was built is the one of the aligned bars. -/
lemma BuiltFrom.shows (h : BuiltFrom cfg series m) (hsound : cfg.Sound one series)
    (halign : alignToGrid series cfg.symbols cfg.timeframe = .ok aligned) (hfits : aligned.Fits) :
    ∃ (cache : Cache) (md : LoadedData), (∀ sym bars, series.get? sym = some bars →
      ∀ h, loadForecast cache sym h =
        if h ∈ cfg.horizons then cacheFile one cfg.contextLength ((sym, bars), h) else none) ∧
      md.Shows cfg.rounding m ∧
      md.Shows cfg.rounding (builtMarket cfg.rounding aligned
        (featureBlock cfg.rounding cfg.sqrt aligned (some (loadForecast cache)))) := by
  obtain ⟨cache, file, md, hcache, hfile, hmd, hshows⟩ := h
  obtain ⟨cache', hcache', hload⟩ := buildKrakenCache_files hsound.itemwise hsound.context
    hsound.seconds hsound.files hsound.horizons
  rw [hcache] at hcache'
  cases hcache'
  obtain ⟨file', md', hfile', hmd', -, hshows'⟩ := buildBin_shows cfg.rounding cfg.sqrt
    (some (loadForecast cache)) halign hfits
  rw [hfile] at hfile'
  cases hfile'
  rw [hmd] at hmd'
  cases hmd'
  exact ⟨cache, md, hload, hshows, hshows'⟩

/-- The C code reads one market out of a file. -/
lemma LoadedData.Shows.agree {r : Rounding} {md : LoadedData} (h : md.Shows r m)
    (h' : md.Shows r m') {t : ℤ} (ht : t < m.numTimesteps) : Agree m m' t t := by
  have hsymbols : m.numSymbols = m'.numSymbols := by
    exact_mod_cast h.numSymbols.symm.trans h'.numSymbols
  have hsteps : m.numTimesteps = m'.numTimesteps := by
    exact_mod_cast h.numTimesteps.symm.trans h'.numTimesteps
  have hwidth : m.featuresPerSym = m'.featuresPerSym := by
    exact_mod_cast h.featuresPerSym.symm.trans h'.featuresPerSym
  refine ⟨hsymbols, hsteps, hwidth, fun u s f hu hs hf => ?_, fun u s k hu hs => ?_,
    fun u s _ _ => ?_⟩
  · obtain ⟨x, hx, hvalue⟩ := h.features u s f (by omega) hs hf
    obtain ⟨y, hy, hvalue'⟩ := h'.features u s f (by omega) (by omega) (by omega)
    rw [hx] at hy
    cases hy
    rw [← hvalue, hvalue']
  · obtain ⟨x, hx, hvalue⟩ := h.prices u s k (by omega) hs
    obtain ⟨y, hy, hvalue'⟩ := h'.prices u s k (by omega) (by omega)
    rw [hx] at hy
    cases hy
    rw [← hvalue, hvalue']
  · rw [MarketData.maskAt, MarketData.maskAt, h.unmasked.2, h'.unmasked.2]

lemma Agree.symm {md₁ md₂ : MarketData} {featTo priceTo : ℤ} (h : Agree md₁ md₂ featTo priceTo) :
    Agree md₂ md₁ featTo priceTo where
  symbols := h.symbols.symm
  timesteps := h.timesteps.symm
  width := h.width.symm
  features t s f ht hs hf := (h.features t s f ht (h.symbols ▸ hs) (h.width ▸ hf)).symm
  prices t s k ht hs := (h.prices t s k ht (h.symbols ▸ hs)).symm
  mask t s ht hs := (h.mask t s ht (h.symbols ▸ hs)).symm

lemma Agree.trans {md₁ md₂ md₃ : MarketData} {featTo priceTo : ℤ}
    (h : Agree md₁ md₂ featTo priceTo) (h' : Agree md₂ md₃ featTo priceTo) :
    Agree md₁ md₃ featTo priceTo where
  symbols := h.symbols.trans h'.symbols
  timesteps := h.timesteps.trans h'.timesteps
  width := h.width.trans h'.width
  features t s f ht hs hf :=
    (h.features t s f ht hs hf).trans (h'.features t s f ht (h.symbols ▸ hs) (h.width ▸ hf))
  prices t s k ht hs := (h.prices t s k ht hs).trans (h'.prices t s k ht (h.symbols ▸ hs))
  mask t s ht hs := (h.mask t s ht hs).trans (h'.mask t s ht (h.symbols ▸ hs))

/-- The histories are aligned on the same grid. -/
lemma SamePast.aligned_eq {symbols : List String} {timeframe : String}
    (h : SamePast series series' symbols τ)
    (halign : alignToGrid series symbols timeframe = .ok aligned)
    (halign' : alignToGrid series' symbols timeframe = .ok aligned') :
    aligned'.kept = aligned.kept ∧ aligned'.grid = aligned.grid := by
  obtain ⟨step, hstep, -, -, rfl⟩ := alignToGrid_eq_ok halign
  obtain ⟨step', hstep', -, -, rfl⟩ := alignToGrid_eq_ok halign'
  rw [hstep] at hstep'
  cases hstep'
  refine ⟨h.kept.symm, ?_⟩
  show pyRange _ (_ + step) step = pyRange _ (_ + step) step
  rw [h.first, h.last]

/-- The grid points up to a row are not later than that row. -/
lemma le_of_mem_take_grid {symbols : List String} {timeframe : String}
    (halign : alignToGrid series symbols timeframe = .ok aligned) {t : ℕ} {ts : ℤ}
    (ht : aligned.grid[t]? = some ts) : ∀ u ∈ aligned.grid.take (t + 1), u ≤ ts := by
  obtain ⟨step, hstep, -, -, heq⟩ := alignToGrid_eq_ok halign
  have hsorted : aligned.grid.Pairwise (· < ·) := by
    rw [heq]
    exact pyRange_pairwise (msPerBar_pos hstep)
  intro u hu
  rw [← filter_le_eq_take hsorted ht] at hu
  exact of_decide_eq_true (List.mem_filter.mp hu).2

/-- A symbol that is kept has a history. -/
lemma get?_of_mem_kept {symbols : List String} {timeframe : String}
    (halign : alignToGrid series symbols timeframe = .ok aligned) {sym : String}
    (h : sym ∈ aligned.kept) : series.get? sym = some (barsOf series sym) := by
  obtain ⟨step, -, -, -, rfl⟩ := alignToGrid_eq_ok halign
  have hbars : (barsOf series sym).entries ≠ [] := of_decide_eq_true (List.mem_filter.mp h).2
  unfold barsOf at hbars ⊢
  cases hget : series.get? sym with
  | none =>
    rw [hget] at hbars
    exact absurd rfl hbars
  | some bars => rfl

lemma featuresPerSym_builtMarket (r : Rounding) (aligned : Aligned)
    (feats : List (List (List ℚ))) :
    (builtMarket r aligned feats).featuresPerSym = defaultFeaturesPerSym := rfl

lemma maskAt_builtMarket (r : Rounding) (aligned : Aligned) (feats : List (List (List ℚ)))
    (t s : ℕ) : (builtMarket r aligned feats).maskAt t s = true := rfl

/-- **Rows.** The bars and the features of the row of a time are decided by the bars up to it. -/
theorem SamePast.agree (h : SamePast series series' cfg.symbols τ)
    (hsound : cfg.Sound one series) (hsound' : cfg.Sound one series')
    (halign : alignToGrid series cfg.symbols cfg.timeframe = .ok aligned)
    (halign' : alignToGrid series' cfg.symbols cfg.timeframe = .ok aligned')
    {cache cache' : Cache}
    (hload : ∀ sym bars, series.get? sym = some bars → ∀ h, loadForecast cache sym h =
      if h ∈ cfg.horizons then cacheFile one cfg.contextLength ((sym, bars), h) else none)
    (hload' : ∀ sym bars, series'.get? sym = some bars → ∀ h, loadForecast cache' sym h =
      if h ∈ cfg.horizons then cacheFile one cfg.contextLength ((sym, bars), h) else none)
    {t : ℕ} {ts : ℤ} (ht : aligned.grid[t]? = some ts) (hts : ts ≤ τ) :
    Agree
      (builtMarket cfg.rounding aligned
        (featureBlock cfg.rounding cfg.sqrt aligned (some (loadForecast cache))))
      (builtMarket cfg.rounding aligned'
        (featureBlock cfg.rounding cfg.sqrt aligned' (some (loadForecast cache')))) t t := by
  obtain ⟨hkept, hgrid⟩ := h.aligned_eq halign halign'
  have hgrid_le := le_of_mem_take_grid halign ht
  have hrow : ∀ u : ℕ, (u : ℤ) ≤ t → ∃ us, aligned.grid[u]? = some us ∧ us ≤ τ := by
    intro u hu
    obtain ⟨hlt, -⟩ := List.getElem?_eq_some_iff.mp ht
    refine ⟨_, List.getElem?_eq_getElem (by omega : u < aligned.grid.length),
      (hgrid_le _ ?_).trans hts⟩
    exact List.mem_take_iff_getElem.mpr ⟨u, by omega, rfl⟩
  have hcolumn : ∀ sym, ∀ u : ℕ, (u : ℤ) ≤ t →
      (fillColumn (barsOf series sym) none aligned.grid).take (u + 1) =
        (fillColumn (barsOf series' sym) none aligned'.grid).take (u + 1) := by
    intro sym u hu
    obtain ⟨us, hus, hle⟩ := hrow u hu
    rw [hgrid]
    exact fillColumn_take _ _ fun v hv =>
      h.bars sym v ((le_of_mem_take_grid halign hus v hv).trans hle)
  have hbar : ∀ sym, ∀ u : ℕ, (u : ℤ) ≤ t →
      (fillColumn (barsOf series sym) none aligned.grid)[u]? =
        (fillColumn (barsOf series' sym) none aligned'.grid)[u]? := by
    intro sym u hu
    have htake := congrArg (fun l => l[u]?) (hcolumn sym u hu)
    simpa only [List.getElem?_take, Nat.lt_succ_self, if_true] using htake
  have hsym : ∀ {s : ℕ}, s < aligned.kept.length → ∃ sym, aligned.kept[s]? = some sym ∧
      aligned'.kept[s]? = some sym ∧ series.get? sym = some (barsOf series sym) ∧
      series'.get? sym = some (barsOf series' sym) := by
    intro s hs
    have hmem : aligned.kept[s] ∈ aligned.kept := List.getElem_mem hs
    refine ⟨aligned.kept[s], List.getElem?_eq_getElem hs, ?_, get?_of_mem_kept halign hmem,
      get?_of_mem_kept halign' (by rwa [hkept])⟩
    rw [hkept]
    exact List.getElem?_eq_getElem hs
  refine ⟨congrArg List.length hkept.symm, congrArg List.length hgrid.symm, ?_,
    fun u s f hu hs _ => ?_, fun u s k hu hs => ?_, fun u s _ _ => ?_⟩
  · rw [featuresPerSym_builtMarket, featuresPerSym_builtMarket]
  · obtain ⟨sym, hs, hs', hget, hget'⟩ := hsym hs
    obtain ⟨us, hus, hle⟩ := hrow u hu
    obtain ⟨hlt, -⟩ := List.getElem?_eq_some_iff.mp hus
    have hus' : aligned'.grid[u]? = some us := by rwa [hgrid]
    have hlength : ((fillColumn (barsOf series sym) none aligned.grid).map
        cfg.rounding.ohlc).length = aligned.grid.length := by
      rw [List.length_map, length_fillColumn]
    have hlength' : ((fillColumn (barsOf series' sym) none aligned'.grid).map
        cfg.rounding.ohlc).length = aligned'.grid.length := by
      rw [List.length_map, length_fillColumn]
    have hcells := forecastCells_cache cfg.sqrt hsound.context (hsound.seconds _ _ hget)
      (hload _ _ hget) hlength hus
    have hcells' := forecastCells_cache cfg.sqrt hsound'.context (hsound'.seconds _ _ hget')
      (hload' _ _ hget') hlength' hus'
    have hclose : (((fillColumn (barsOf series sym) none aligned.grid).map
          cfg.rounding.ohlc).map Ohlc.close).getD u 0 =
        (((fillColumn (barsOf series' sym) none aligned'.grid).map
          cfg.rounding.ohlc).map Ohlc.close).getD u 0 := by
      simp only [List.getD_eq_getElem?_getD, List.getElem?_map, hbar sym u hu]
    have htech : techRow cfg.sqrt ((fillColumn (barsOf series sym) none aligned.grid).map
          cfg.rounding.ohlc) u =
        techRow cfg.sqrt ((fillColumn (barsOf series' sym) none aligned'.grid).map
          cfg.rounding.ohlc) u := by
      have hwindow : window 73 ((fillColumn (barsOf series sym) none aligned.grid).map
            cfg.rounding.ohlc) u =
          window 73 ((fillColumn (barsOf series' sym) none aligned'.grid).map
            cfg.rounding.ohlc) u := by
        rw [window, window, ← List.map_take, ← List.map_take, hcolumn sym u hu]
      have hu' : u < ((fillColumn (barsOf series' sym) none aligned'.grid).map
          cfg.rounding.ohlc).length := by
        rw [hlength', hgrid]
        exact hlt
      have hrows := (barFeatures_hasMemory cfg.sqrt).row_eq (by omega) hu' hwindow
      rw [getElem?_barFeatures _ (by omega), getElem?_barFeatures _ hu'] at hrows
      exact Option.some.inj hrows
    rw [features_builtMarket _ _ _ halign hs hlt, features_builtMarket _ _ _ halign' hs'
      (by rw [hgrid]; exact hlt), Option.bind_some, Option.bind_some, hcells, hcells', hclose,
      cachedForecast_congr (h.bars sym) hle, htech]
  · obtain ⟨sym, hs, hs', -, -⟩ := hsym hs
    rw [prices_builtMarket _ _ halign hs, prices_builtMarket _ _ halign' hs',
      List.getD_eq_getElem?_getD, List.getD_eq_getElem?_getD, hbar sym u hu]
  · rw [maskAt_builtMarket, maskAt_builtMarket]

/-- A file is built of an alignment. -/
lemma BuiltFrom.exists_aligned (h : BuiltFrom cfg series m) :
    ∃ aligned, alignToGrid series cfg.symbols cfg.timeframe = .ok aligned := by
  obtain ⟨cache, file, md, -, hfile, -, -⟩ := h
  cases halign : alignToGrid series cfg.symbols cfg.timeframe with
  | error e =>
    unfold buildBin at hfile
    rw [halign] at hfile
    cases hfile
  | ok aligned => exact ⟨aligned, rfl⟩

/-- **Files.** The markets that the C code reads out of the files of two histories with the same
past agree up to the row of the time at which they part. -/
theorem BuiltFrom.agree (hm : BuiltFrom cfg series m) (hm' : BuiltFrom cfg series' m')
    (h : SamePast series series' cfg.symbols τ) (hsound : cfg.Sound one series)
    (hsound' : cfg.Sound one series')
    (halign : alignToGrid series cfg.symbols cfg.timeframe = .ok aligned) (hfits : aligned.Fits)
    {t : ℕ} {ts : ℤ} (ht : aligned.grid[t]? = some ts) (hts : ts ≤ τ) : Agree m m' t t := by
  obtain ⟨aligned', halign'⟩ := hm'.exists_aligned
  obtain ⟨hkept, hgrid⟩ := h.aligned_eq halign halign'
  have hfits' : aligned'.Fits :=
    ⟨hkept ▸ hfits.names, hkept ▸ hfits.symbols, hkept ▸ hgrid ▸ hfits.size⟩
  obtain ⟨cache, md, hload, hshows, hbuilt⟩ := hm.shows hsound halign hfits
  obtain ⟨cache', md', hload', hshows', hbuilt'⟩ := hm'.shows hsound' halign' hfits'
  obtain ⟨hlt, -⟩ := List.getElem?_eq_some_iff.mp ht
  have hsteps : (m.numTimesteps : ℤ) = aligned.grid.length :=
    hshows.numTimesteps.symm.trans hbuilt.numTimesteps
  have hsteps' : (m'.numTimesteps : ℤ) = aligned'.grid.length :=
    hshows'.numTimesteps.symm.trans hbuilt'.numTimesteps
  have hrow : ((t : ℕ) : ℤ) < m.numTimesteps := by omega
  have hrow' : ((t : ℕ) : ℤ) < m'.numTimesteps := by
    rw [hsteps', hgrid]
    omega
  exact (hshows.agree hbuilt hrow).trans ((h.agree hsound hsound' halign halign' hload hload' ht
    hts).trans (hshows'.agree hbuilt' hrow').symm)

end Past

/-- Runs on markets that agree up to the bar before their clock have seen the same. -/
lemma rollout_eq_of_agree {lm : Libm} {m m' : MarketData} {p : Params}
    (hapr : p.shortBorrowApr = 0) (hlag : 1 ≤ p.decisionLag) {pol : Policy} {e₁ e₂ : EnvState}
    (hrng : e₁.rng = e₂.rng) {k : ℕ} {ρ ρ' : Rollout} (h₁ : rollout lm m p pol e₁ k = .ok ρ)
    (h₂ : rollout lm m' p pol e₂ k = .ok ρ') (hlive₁ : ρ.ended = false)
    (hlive₂ : ρ'.ended = false)
    (hagree : Agree m m' (ρ.clock - 1).toNat (ρ.clock - 1).toNat) :
    ρ'.clock = ρ.clock ∧ ρ.seen = ρ'.seen ∧ ρ.actions = ρ'.actions := by
  have hclock := rollout_clock hapr hlag h₁ hlive₁
  rw [hclock] at hagree
  obtain ⟨hE, hseen, hactions⟩ := rollout_rel hapr hlag (rollout_timesteps_pos k h₁) pol hrng k h₁
    h₂ hlive₁ hlive₂ (hagree.mono (by omega) (by omega))
  refine ⟨?_, hseen, hactions⟩
  rw [hclock, Rollout.clock, hE.book.offset_right, hE.book.step_right]

/-- **No lookahead from the histories on.** Two collections of histories go through the whole
pipeline: forecasts of each are cached, and joined to the bars in a file that the simulator loads.
If the histories have the same past until a time, over one span, a policy that is run on both
markets, without a borrow rate, sees the same observations and takes the same actions, in the first
episode, as long as the bar before its clock is not after that time.

**Proof sketch.** A row of the file is decided by the bars up to its time: the prices are filled
forward, the technical features have a memory, and a cached forecast is made of a context that ends
at its bar. So the markets agree up to that row, and the environment does not look ahead
(`rollout_rel`). -/
theorem pipeline_noLookahead (lm : Libm) (cfg : PipelineConfig) (one : Context → ℕ → Quantiles)
    (series series' : Dict String Series) (τ : ℤ) (hpast : SamePast series series' cfg.symbols τ)
    (hsound : cfg.Sound one series) (hsound' : cfg.Sound one series') (aligned : Aligned)
    (halign : alignToGrid series cfg.symbols cfg.timeframe = .ok aligned) (hfits : aligned.Fits)
    (m m' : MarketData) (hm : BuiltFrom cfg series m) (hm' : BuiltFrom cfg series' m')
    (p : Params) (hapr : p.shortBorrowApr = 0) (hlag : 1 ≤ p.decisionLag) (pol : Policy)
    (e₁ e₂ : EnvState) (hrng : e₁.rng = e₂.rng) (k : ℕ) (ρ ρ' : Rollout)
    (h₁ : rollout lm m p pol e₁ k = .ok ρ) (h₂ : rollout lm m' p pol e₂ k = .ok ρ')
    (hlive₁ : ρ.ended = false) (hlive₂ : ρ'.ended = false) (ts : ℤ)
    (hrow : aligned.grid[(ρ.clock - 1).toNat]? = some ts) (hts : ts ≤ τ) :
    ρ'.clock = ρ.clock ∧ ρ.seen = ρ'.seen ∧ ρ.actions = ρ'.actions := by
  exact rollout_eq_of_agree hapr hlag hrng h₁ h₂ hlive₁ hlive₂
    (hm.agree hm' hpast hsound hsound' halign hfits hrow hts)

/-! ## A crash in the last hour -/

/-- Four hours, of which the last one closes at `close`. -/
def partedHistories (close : ℚ) : Dict String Series :=
  .ofList [("BTC/USD", (Dict.ofList [(0, .flat 100), (3600000, .flat 104),
    (7200000, .flat 110)]).set 10800000 (.flat close))]

/-- Forecasts that repeat the last of two bars. -/
def hourlyConfig : PipelineConfig where
  rounding := nearestSingle
  sqrt := id
  pipe batch h := batch.map fun context => persistence context h
  contextLength := 2
  horizons := [1, 24]
  symbols := ["BTC/USD"]
  timeframe := "1h"

/-- The four hours, aligned. -/
def partedAligned (close : ℚ) : Aligned :=
  ⟨["BTC/USD"], [0, 3600000, 7200000, 10800000],
    [[.flat 100, .flat 104, .flat 110, .flat close]]⟩

/-- The market that is built of the four hours. -/
def partedMarket (close : ℚ) : MarketData :=
  let cache := (buildKrakenCache hourlyConfig.pipe (partedHistories close) hourlyConfig.horizons
    hourlyConfig.contextLength .empty).toOption.getD .empty
  builtMarket nearestSingle (partedAligned close)
    (featureBlock nearestSingle id (partedAligned close) (some (loadForecast cache)))

/-- Two orders for a long on that market. -/
def partedRollout (close : ℚ) : Checked Rollout :=
  rollout .firstOrder (partedMarket close) { keelEnvCreate with forcedOffset := 0 } (fun _ => 1)
    (.zero 7) 2

lemma hourlyConfig_sound {close : ℚ} (hms : WholeSeconds (partedHistories close))
    (hfiles : DistinctFiles (partedHistories close)) :
    hourlyConfig.Sound persistence (partedHistories close) :=
  ⟨fun _ _ => rfl, by decide, by decide, hms, hfiles⟩

lemma partedAligned_fits (close : ℚ) : (partedAligned close).Fits :=
  ⟨show ∀ name ∈ ["BTC/USD"], TableName name by decide, show 1 ≤ 128 by decide,
    show 4 * 1 * 16 < 2 ^ 31 by decide⟩

/-- The histories part in the last hour. -/
lemma sameUpToTime_partedHistories (close close' : ℚ) (sym : String) :
    SameUpToTime (barsOf (partedHistories close) sym) (barsOf (partedHistories close') sym)
      7200000 := by
  intro t ht
  show (barsOf (Dict.empty.set "BTC/USD" _) sym).get? t =
    (barsOf (Dict.empty.set "BTC/USD" _) sym).get? t
  rw [barsOf_set, barsOf_set]
  split
  · rw [Dict.get?_set, Dict.get?_set, if_neg (by omega), if_neg (by omega)]
  · rfl

/-- The four hours go through the pipeline. -/
lemma builtFrom_partedMarket {close : ℚ}
    (hsound : hourlyConfig.Sound persistence (partedHistories close))
    (halign : alignToGrid (partedHistories close) ["BTC/USD"] "1h" = .ok (partedAligned close)) :
    BuiltFrom hourlyConfig (partedHistories close) (partedMarket close) := by
  obtain ⟨cache, hcache, -⟩ := buildKrakenCache_files hsound.itemwise hsound.context
    hsound.seconds hsound.files hsound.horizons
  obtain ⟨file, md, hfile, hmd, -, hshows⟩ := buildBin_shows nearestSingle id
    (some (loadForecast cache)) halign (partedAligned_fits close)
  refine ⟨cache, file, md, hcache, hfile, hmd, ?_⟩
  rw [partedMarket, hcache]
  exact hshows

/-- A crash in the last hour is not visible two hours before. -/
theorem pipeline_noLookahead_crash :
    ∃ ρ ρ', partedRollout 120 = .ok ρ ∧ partedRollout 60 = .ok ρ' ∧ ρ'.clock = ρ.clock ∧
      ρ.seen = ρ'.seen ∧ ρ.actions = ρ'.actions := by
  have hms : ∀ close, close = 120 ∨ close = 60 → WholeSeconds (partedHistories close) := by
    rintro close (rfl | rfl) sym bars h
    all_goals
      obtain ⟨rfl, rfl⟩ := Prod.mk.inj (List.mem_singleton.mp (Dict.get?_eq_some_iff.mp h))
      decide +kernel
  have hfiles : ∀ close, close = 120 ∨ close = 60 → DistinctFiles (partedHistories close) := by
    rintro close (rfl | rfl) <;> exact distinctFiles_of_noUnderscore (by decide +kernel)
  have halign : ∀ close, close = 120 ∨ close = 60 →
      alignToGrid (partedHistories close) ["BTC/USD"] "1h" = .ok (partedAligned close) := by
    rintro close (rfl | rfl) <;> decide +kernel
  have hsound := fun close hclose => hourlyConfig_sound (hms close hclose) (hfiles close hclose)
  have hbuilt := fun close hclose =>
    builtFrom_partedMarket (hsound close hclose) (halign close hclose)
  have hpast : SamePast (partedHistories 120) (partedHistories 60) ["BTC/USD"] 7200000 := by
    exact ⟨sameUpToTime_partedHistories 120 60, by decide +kernel, by decide +kernel,
      by decide +kernel⟩
  obtain ⟨ρ, hρ, htest⟩ := exists_of_toOption (x := partedRollout 120)
    (P := fun ρ => !ρ.ended && decide (ρ.clock = 2)) (by decide +kernel)
  obtain ⟨ρ', hρ', hlive⟩ := exists_of_toOption (x := partedRollout 60)
    (P := fun ρ => !ρ.ended) (by decide +kernel)
  simp only [Bool.and_eq_true, Bool.not_eq_true', decide_eq_true_eq] at htest hlive
  refine ⟨ρ, ρ', hρ, hρ', pipeline_noLookahead .firstOrder hourlyConfig persistence _ _ 7200000
    hpast (hsound 120 (.inl rfl)) (hsound 60 (.inr rfl)) (partedAligned 120) (halign 120 (.inl rfl))
    (partedAligned_fits 120) _ _ (hbuilt 120 (.inl rfl)) (hbuilt 60 (.inr rfl))
    { keelEnvCreate with forcedOffset := 0 } rfl (by decide) (fun _ => 1) _ _ rfl 2 ρ ρ' hρ hρ'
    htest.1 hlive 3600000 ?_ (by decide)⟩
  rw [htest.2]
  rfl

end KeelTrader.Sim
