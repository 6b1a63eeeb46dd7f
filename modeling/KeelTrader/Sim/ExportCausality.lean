import KeelTrader.Sim.ExportBinary

set_option relaxedAutoImplicit false
set_option autoImplicit false

/-!
# The exporter does not look ahead

`compute_features` works on whole tables, and `export_binary` fills empty cells from both sides. A
feature is nevertheless decided by the rows up to its own, and so is a price when the first row of
the file has no empty cell. Hence tables that part after some time give markets that agree up to it.

## Main definitions

* `KeelTrader.Sim.Files.SamePast` — tables that part after some time.
* `KeelTrader.Sim.Exportable` — what is asked of the tables of an exported symbol.
* `KeelTrader.Sim.ExportedFrom` — a market that is loaded from an exported file.

## Main results

* `KeelTrader.Sim.computeFeatures_take` — the features of the first bars are those of the first
  rows.
* `KeelTrader.Sim.computeFeatures_congr` — they read the forecasts at the time stamps of these rows.
* `KeelTrader.Sim.Files.SamePast.agree` — the markets agree up to the row of the time.
* `KeelTrader.Sim.exportBinary_noLookahead` — a policy that runs on an exported file cannot see
  values that come after its clock.
-/

namespace KeelTrader.Sim

open Checked Forecast

/-! ## Features of the past -/

section Past

variable {K : Type} (n : ℕ)

lemma take_reindex (index : List ℤ) (column : ForecastColumn K) :
    (reindex index column).take n = reindex (index.take n) column :=
  List.map_take.symm

lemma take_constant (index : List ℤ) (c : K) :
    (constant index c).take n = constant (index.take n) c := by
  rw [constant, Column.take_values, ← List.map_take, constant]

variable [Field K] [LinearOrder K]

lemma take_perClose (close a : Column K) :
    (perClose close a).take n = perClose (close.take n) (a.take n) := by
  rw [perClose, Column.take_zip, Column.take_clipLower, perClose]

lemma take_forecastDelta (index : List ℤ) (close : Column K) (fc : ForecastFrame K)
    (colPrefix horizon : String) : (forecastDelta index close fc colPrefix horizon).take n =
      forecastDelta (index.take n) (close.take n) fc colPrefix horizon := by
  unfold forecastDelta
  dsimp only
  cases fc.get? (if colPrefix ++ horizon ∈ fc.keys then colPrefix ++ horizon else colPrefix) with
  | none => exact take_constant n index 0
  | some column =>
    dsimp only
    rw [take_perClose, Column.take_zip, take_reindex]

lemma take_forecastConfidence (index : List ℤ) (close : Column K) (fc : ForecastFrame K)
    (horizon : String) : (forecastConfidence index close fc horizon).take n =
      forecastConfidence (index.take n) (close.take n) fc horizon := by
  unfold forecastConfidence
  dsimp only
  split
  · rw [Column.take_map, take_perClose, Column.take_map, Column.take_zip, take_reindex,
      take_reindex]
  · exact take_constant n index 0.5

lemma take_relativeTo (close a : Column K) :
    (relativeTo close a).take n = relativeTo (close.take n) (a.take n) := by
  rw [relativeTo, Column.take_zip, Column.take_zip, Column.take_clipLower, relativeTo]

lemma take_trueRangeColumn (high low close : Column K) : (trueRangeColumn high low close).take n =
    trueRangeColumn (high.take n) (low.take n) (close.take n) := by
  simp only [trueRangeColumn, Column.take_rowMax, List.map_cons, List.map_nil, Column.take_zip,
    Column.take_map, Column.take_shift, List.length_take]

/-- The columns over the first rows are the first rows of the columns. -/
theorem featureColumns_take (sqrt : K → K) (prices : PriceFrame K) (fcH1 fcH24 : ForecastFrame K) :
    featureColumns sqrt (prices.take n) fcH1 fcH24 =
      (featureColumns sqrt prices fcH1 fcH24).map fun e => (e.1, e.2.take n) := by
  simp only [featureColumns, List.map_cons, List.map_nil, take_forecastDelta,
    take_forecastConfidence, Column.take_clip, Column.take_fillna, Column.take_pctChange,
    Column.take_rollingStd, take_relativeTo, take_perClose, Column.take_rollingMean,
    Column.take_rollingMax, take_trueRangeColumn, Column.take_values, List.map_take]

/-- **Causality.** The table of features over the first rows of prices is the table over all of
them, cut off after these rows. -/
theorem computeFeatures_take (sqrt : K → K) (prices : PriceFrame K) (fcH1 fcH24 : ForecastFrame K)
    (name : String) : (computeFeatures sqrt (prices.take n) fcH1 fcH24).get? name =
      ((computeFeatures sqrt prices fcH1 fcH24).get? name).map (List.take n) := by
  by_cases hname : name ∈ featureNames
  · rw [← map_fst_featureColumns sqrt prices fcH1 fcH24] at hname
    obtain ⟨⟨name, a⟩, ha, rfl⟩ := List.mem_map.mp hname
    have htake : (name, a.take n) ∈ featureColumns sqrt (prices.take n) fcH1 fcH24 := by
      rw [featureColumns_take]
      exact List.mem_map_of_mem ha
    rw [computeFeatures_get? ha, computeFeatures_get? htake, Option.map_some, Column.take_fillna]
  · unfold computeFeatures
    dsimp only
    rw [Dict.get?_ofList_map featureNames_nodup, Dict.get?_ofList_map featureNames_nodup,
      if_neg hname, if_neg hname, Option.map_none]

end Past

/-! ## Tables with the same past -/

section Forecasts

variable {K : Type} {index : List ℤ} {fc fc' : ForecastFrame K}

/-- Two forecast tables have the same columns, with the same values at some time stamps. -/
def SameForecasts (index : List ℤ) (fc fc' : ForecastFrame K) : Prop :=
  ∀ name, (fc.get? name).map (reindex index) = (fc'.get? name).map (reindex index)

lemma SameForecasts.mem_keys (h : SameForecasts index fc fc') (name : String) :
    name ∈ fc.keys ↔ name ∈ fc'.keys := by
  have hname := congrArg Option.isSome (h name)
  rw [Option.isSome_map, Option.isSome_map, Bool.eq_iff_iff] at hname
  rw [Dict.mem_keys_iff, Dict.mem_keys_iff, ← Option.isSome_iff_exists, hname,
    Option.isSome_iff_exists]

variable [Field K] [LinearOrder K]

lemma SameForecasts.forecastDelta (h : SameForecasts index fc fc') (close : Column K)
    (colPrefix horizon : String) : forecastDelta index close fc colPrefix horizon =
      forecastDelta index close fc' colPrefix horizon := by
  unfold Sim.forecastDelta
  simp only [h.mem_keys]
  generalize (if colPrefix ++ horizon ∈ fc'.keys then _ else _) = srcCol
  have hcol := h srcCol
  cases hget : fc.get? srcCol <;> cases hget' : fc'.get? srcCol <;>
    simp_all only [Option.map_none, Option.map_some, reduceCtorEq, Option.some.injEq]

lemma SameForecasts.forecastConfidence (h : SameForecasts index fc fc') (close : Column K)
    (horizon : String) : forecastConfidence index close fc horizon =
      forecastConfidence index close fc' horizon := by
  unfold Sim.forecastConfidence
  simp only [h.mem_keys]
  generalize (if "predicted_close_p90" ++ horizon ∈ fc'.keys then _ else _) = p90Col
  generalize (if "predicted_close_p10" ++ horizon ∈ fc'.keys then _ else _) = p10Col
  have h90 := h p90Col
  have h10 := h p10Col
  cases hget : fc.get? p90Col <;> cases hget' : fc'.get? p90Col <;>
    simp_all only [Option.map_none, Option.map_some, reduceCtorEq, Option.some.injEq]
  cases hget₁ : fc.get? p10Col <;> cases hget₁' : fc'.get? p10Col <;>
    simp_all only [Option.map_none, Option.map_some, reduceCtorEq, Option.some.injEq]

/-- The features read the forecasts at the time stamps of the prices. -/
theorem computeFeatures_congr (sqrt : K → K) {prices : PriceFrame K}
    {fcH1 fcH1' fcH24 fcH24' : ForecastFrame K}
    (h1 : SameForecasts (prices.map Prod.fst) fcH1 fcH1')
    (h24 : SameForecasts (prices.map Prod.fst) fcH24 fcH24') :
    computeFeatures sqrt prices fcH1 fcH24 = computeFeatures sqrt prices fcH1' fcH24' := by
  simp only [computeFeatures, featureColumns, h1.forecastDelta, h24.forecastDelta,
    h1.forecastConfidence, h24.forecastConfidence]

end Forecasts

/-- Two forecast tables have the same time stamps and columns, and the same values up to a time. -/
structure ForecastTable.SamePast (fc fc' : ForecastTable) (τ : ℤ) : Prop where
  index : fc.index = fc'.index
  columns : ∀ name, name ∈ fc.frame.keys ↔ name ∈ fc'.frame.keys
  values : ∀ name, ∀ t ≤ τ, frameValue fc.frame name t = frameValue fc'.frame name t

/-- The tables of a symbol have the same time stamps, and the same values up to a time. -/
structure Tables.SamePast (tb tb' : Tables) (τ : ℤ) : Prop where
  times : tb.prices.map Prod.fst = tb'.prices.map Prod.fst
  rows : ∀ (i : ℕ) (t : ℤ) (row : PriceRow), t ≤ τ →
    (tb.prices[i]? = some (t, row) ↔ tb'.prices[i]? = some (t, row))
  fcH1 : tb.fcH1.SamePast tb'.fcH1 τ
  fcH24 : tb.fcH24.SamePast tb'.fcH24 τ

/-- There are tables of the same symbols, with the same time stamps and the same values up to a
time. -/
def Files.SamePast (S : SortValues) (files files' : Files) (τ : ℤ) : Prop :=
  ∀ sym, Option.Rel (fun tb tb' => tb.SamePast tb' τ) (loadTables S files sym)
    (loadTables S files' sym)

/-- The tables of the kept symbols have the prices that the features read, and no cell is empty in
the first row of the file. -/
structure Exportable (S : SortValues) (files : Files) (kept : List String) (index : List ℤ) :
    Prop where
  priced : ∀ sym ∈ kept, ∀ tb, loadTables S files sym = some tb → tb.prices.Priced
  first : ∀ sym ∈ kept, ∀ tb, loadTables S files sym = some tb → ∀ k,
    (tb.column index k).getD 0 none ≠ none

section SamePast

variable {r : Rounding} {S : SortValues} {M : FeatureMath} {files files' : Files}
  {args : ExportArgs} {kept : List String} {index : List ℤ} {tb tb' : Tables} {τ : ℤ}

lemma ForecastTable.SamePast.sameForecasts {fc fc' : ForecastTable} (h : fc.SamePast fc' τ)
    {index : List ℤ} (hindex : ∀ t ∈ index, t ≤ τ) : SameForecasts index fc.frame fc'.frame := by
  intro name
  have hkeys := h.columns name
  rw [Dict.mem_keys_iff, Dict.mem_keys_iff] at hkeys
  cases hget : fc.frame.get? name with
  | none =>
    cases hget' : fc'.frame.get? name with
    | none => rfl
    | some column' =>
      obtain ⟨column, hcolumn⟩ := hkeys.mpr ⟨column', hget'⟩
      rw [hget] at hcolumn
      cases hcolumn
  | some column =>
    obtain ⟨column', hget'⟩ := hkeys.mp ⟨column, hget⟩
    rw [hget', Option.map_some, Option.map_some, reindex, reindex]
    refine congrArg some (List.map_congr_left fun t ht => ?_)
    have hvalue := h.values name t (hindex t ht)
    rwa [frameValue, frameValue, hget, hget', Option.bind_some, Option.bind_some] at hvalue

/-- The valid time stamps are the same. -/
lemma Tables.SamePast.validIndex_eq (h : tb.SamePast tb' τ) : tb.validIndex = tb'.validIndex := by
  rw [Tables.validIndex, Tables.validIndex, h.times, h.fcH1.index, h.fcH24.index]

/-- The first rows of a sorted table are not later than the last of them. -/
lemma le_of_mem_take {table : PriceTable} (h : (table.map Prod.fst).Pairwise (· < ·)) {i : ℕ}
    {t : ℤ} {row : PriceRow} (hi : table[i]? = some (t, row)) :
    ∀ u ∈ (table.take (i + 1)).map Prod.fst, u ≤ t := by
  have ht : (table.map Prod.fst)[i]? = some t := by
    rw [List.getElem?_map, hi]
    rfl
  intro u hu
  rw [List.map_take, ← filter_le_eq_take h ht] at hu
  exact of_decide_eq_true (List.mem_filter.mp hu).2

/-- The first rows are the same. -/
lemma Tables.SamePast.take_prices (h : tb.SamePast tb' τ)
    (hsorted : (tb.prices.map Prod.fst).Pairwise (· < ·)) {i : ℕ} {t : ℤ} {row : PriceRow}
    (hi : tb.prices[i]? = some (t, row)) (ht : t ≤ τ) :
    tb.prices.take (i + 1) = tb'.prices.take (i + 1) := by
  refine List.ext_getElem? fun j => ?_
  rw [List.getElem?_take, List.getElem?_take]
  split
  · next hj =>
    obtain ⟨hlt, -⟩ := List.getElem?_eq_some_iff.mp hi
    have hrow : tb.prices[j]? = some (tb.prices[j].1, tb.prices[j].2) :=
      List.getElem?_eq_getElem (by omega)
    have hle : tb.prices[j].1 ≤ t := by
      refine le_of_mem_take hsorted hi _ (List.mem_map_of_mem (f := Prod.fst) ?_)
      exact List.mem_take_iff_getElem.mpr ⟨j, by omega, rfl⟩
    rw [hrow, (h.rows j _ _ (hle.trans ht)).mp hrow]
  · rfl

/-- **Features.** The features of a bar come from the values up to it. -/
theorem Tables.SamePast.computedRow_eq (h : tb.SamePast tb' τ) (sqrt : ℚ → ℚ)
    (hsorted : (tb.prices.map Prod.fst).Pairwise (· < ·)) {i : ℕ} {t : ℤ} {row : PriceRow}
    (hi : tb.prices[i]? = some (t, row)) (ht : t ≤ τ) :
    tb.computedRow sqrt i = tb'.computedRow sqrt i := by
  have hcut : ∀ (x : Tables) (name : String),
      (((computeFeatures sqrt x.prices.frame x.fcH1.frame x.fcH24.frame).get? name).getD []).getD i
        none =
      (((computeFeatures sqrt (PriceTable.frame (x.prices.take (i + 1))) x.fcH1.frame
        x.fcH24.frame).get? name).getD []).getD i none := by
    intro x name
    rw [PriceTable.frame, PriceTable.frame, List.map_take, computeFeatures_take]
    cases (computeFeatures sqrt (x.prices.map fun row => (row.1, row.2.ohlc)) x.fcH1.frame
      x.fcH24.frame).get? name with
    | none => rfl
    | some column =>
      rw [Option.map_some, Option.getD_some, Option.getD_some,
        Column.getD_take (Nat.lt_succ_self i)]
  have hpast : ∀ u ∈ (PriceTable.frame (tb'.prices.take (i + 1))).map Prod.fst, u ≤ τ := by
    rw [← h.take_prices hsorted hi ht, PriceTable.frame, List.map_map]
    exact fun u hu => (le_of_mem_take hsorted hi u hu).trans ht
  unfold Tables.computedRow
  refine List.map_congr_left fun name _ => ?_
  rw [hcut tb, hcut tb', h.take_prices hsorted hi ht,
    computeFeatures_congr sqrt (h.fcH1.sameForecasts hpast) (h.fcH24.sameForecasts hpast)]

/-- The cells at a time stamp are the same. -/
lemma Tables.SamePast.lookup_eq (h : tb.SamePast tb' τ)
    (hsorted : (tb.prices.map Prod.fst).Pairwise (· < ·))
    (hsorted' : (tb'.prices.map Prod.fst).Pairwise (· < ·)) {t : ℤ} (hmem : t ∈ tb.validIndex)
    (ht : t ≤ τ) : tb.prices.lookup t = tb'.prices.lookup t := by
  obtain ⟨⟨u, row⟩, hrow, rfl⟩ := List.mem_map.mp (mem_validIndex.mp hmem).1
  obtain ⟨i, hi⟩ := List.mem_iff_getElem?.mp hrow
  rw [lookup_of_getElem? hsorted hi, lookup_of_getElem? hsorted' ((h.rows i u row ht).mp hi)]

/-- **Prices.** A filled column comes from the cells up to a row, when its first cell is not
empty. -/
theorem Tables.SamePast.filledColumn_eq (h : tb.SamePast tb' τ)
    (hsorted : (tb.prices.map Prod.fst).Pairwise (· < ·))
    (hsorted' : (tb'.prices.map Prod.fst).Pairwise (· < ·))
    (hvalid : ∀ t ∈ index, t ∈ tb.validIndex) {k : PriceFeat} {u : ℕ} (hu : u < index.length)
    (hpast : ∀ t ∈ index.take (u + 1), t ≤ τ) (hfirst : (tb.column index k).getD 0 none ≠ none) :
    (tb.filledColumn index k).getD u none = (tb'.filledColumn index k).getD u none := by
  have htake : (tb.column index k).take (u + 1) = (tb'.column index k).take (u + 1) := by
    rw [Tables.column, Tables.column, ← List.map_take, ← List.map_take]
    refine List.map_congr_left fun t ht => ?_
    rw [h.lookup_eq hsorted hsorted' (hvalid t (List.mem_of_mem_take ht)) (hpast t ht)]
  have hrow : ∀ a : Column ℚ, (Column.ffill none a).getD u none =
      (Column.ffill none (a.take (u + 1))).getD u none := by
    intro a
    rw [← Column.take_ffill, Column.getD_take (Nat.lt_succ_self u)]
  have hfirst' : (tb'.column index k).getD 0 none ≠ none := by
    rwa [← Column.getD_take (Nat.succ_pos u), ← htake, Column.getD_take (Nat.succ_pos u)]
  rw [Tables.filledColumn, Tables.filledColumn,
    Column.getD_bfill_ffill_of_head (by rwa [length_column]) hfirst,
    Column.getD_bfill_ffill_of_head (by rwa [length_column]) hfirst', hrow, htake, ← hrow]

/-- The same symbols are exported. -/
lemma Files.SamePast.exported (h : Files.SamePast S files files' τ) (minRows : ℕ) (sym : String) :
    Option.Rel (fun tb tb' => tb.SamePast tb' τ) (Sim.exported S files minRows sym)
      (Sim.exported S files' minRows sym) := by
  have hsym := h sym
  unfold Sim.exported
  cases hget : loadTables S files sym with
  | none =>
    rw [hget] at hsym
    cases hget' : loadTables S files' sym with
    | none => exact .none
    | some tb' =>
      rw [hget'] at hsym
      cases hsym
  | some tb =>
    rw [hget] at hsym
    cases hget' : loadTables S files' sym with
    | none =>
      rw [hget'] at hsym
      cases hsym
    | some tb' =>
      rw [hget'] at hsym
      cases hsym with
      | some hpast =>
        rw [Option.filter_some, Option.filter_some, hpast.validIndex_eq]
        split
        · exact .some hpast
        · exact .none

/-- The same symbols and time stamps are exported. -/
theorem Files.SamePast.exports (h : Files.SamePast S files files' τ)
    (hexp : Exports S files args kept index) : Exports S files' args kept index := by
  have hsome : ∀ sym, (Sim.exported S files args.minRows sym).isSome =
      (Sim.exported S files' args.minRows sym).isSome := by
    intro sym
    have hsym := h.exported args.minRows sym
    generalize Sim.exported S files args.minRows sym = x at hsym ⊢
    generalize Sim.exported S files' args.minRows sym = x' at hsym ⊢
    cases hsym <;> rfl
  have hvalid : ∀ (sym : String) (t : ℤ),
      (∀ tb, Sim.exported S files args.minRows sym = some tb → t ∈ tb.validIndex) ↔
        ∀ tb, Sim.exported S files' args.minRows sym = some tb → t ∈ tb.validIndex := by
    intro sym t
    have hsym := h.exported args.minRows sym
    generalize Sim.exported S files args.minRows sym = x at hsym ⊢
    generalize Sim.exported S files' args.minRows sym = x' at hsym ⊢
    cases hsym with
    | none => exact Iff.rfl
    | some hpast => simp only [Option.some.injEq, forall_eq', hpast.validIndex_eq]
  refine ⟨?_, hexp.kept_ne_nil, hexp.sorted, fun t => ?_, hexp.index_ne_nil, hexp.minRows_le⟩
  · rw [hexp.kept_eq]
    exact List.filter_congr fun sym _ => hsome sym
  · rw [hexp.mem]
    simp only [hvalid]

/-- **Markets.** The rows of the two markets are the same, up to the row of a time. -/
theorem Files.SamePast.agree (h : Files.SamePast S files files' τ)
    (hexp : Exports S files args kept index) (hable : Exportable S files kept index)
    (hpriced : ∀ sym ∈ kept, ∀ tb, loadTables S files' sym = some tb → tb.prices.Priced)
    {g g' : Gathered} (hg : g.Of S M files args.minRows args.symbols)
    (hg' : g'.Of S M files' args.minRows args.symbols) {t : ℕ} {ts : ℤ}
    (ht : index[t]? = some ts) (hts : ts ≤ τ) :
    Agree (exportedMarket r g kept index) (exportedMarket r g' kept index) t t := by
  have hexp' := h.exports hexp
  obtain ⟨hlt, -⟩ := List.getElem?_eq_some_iff.mp ht
  have hpast : ∀ us ∈ index.take (t + 1), us ≤ τ := by
    intro us hus
    rw [← filter_le_eq_take hexp.sorted ht] at hus
    exact (of_decide_eq_true (List.mem_filter.mp hus).2).trans hts
  have hcells : ∀ u s : ℕ, (u : ℤ) ≤ t → s < kept.length →
      (∀ k, (exportedMarket r g kept index).prices u s k =
        (exportedMarket r g' kept index).prices u s k) ∧
      ∀ f, (exportedMarket r g kept index).features u s f =
        (exportedMarket r g' kept index).features u s f := by
    intro u s hu hs
    have hult : u < index.length := by omega
    have hus : index[u]? = some index[u] := List.getElem?_eq_getElem hult
    have hsym : kept[s]? = some kept[s] := List.getElem?_eq_getElem hs
    have hkept : kept[s] ∈ kept := List.getElem_mem hs
    obtain ⟨tb, i, row, htb, hi, -, hprices, hfeatures⟩ := hexp.row (r := r) hg hsym hus
    obtain ⟨tb', i', row', htb', hi', -, hprices', hfeatures'⟩ := hexp'.row (r := r) hg' hsym hus
    have hload := (Option.filter_eq_some_iff.mp htb).1
    have hload' := (Option.filter_eq_some_iff.mp htb').1
    have hsame : tb.SamePast tb' τ := by
      have hrel := h.exported args.minRows kept[s]
      rw [htb, htb'] at hrel
      cases hrel with
      | some hsame => exact hsame
    have hle : index[u] ≤ τ := hpast _ (List.mem_take_iff_getElem.mpr ⟨u, by omega, rfl⟩)
    -- the row stands at the same place of both tables
    obtain rfl : i = i' := row_unique (exported_sorted htb') ((hsame.rows i _ row hle).mp hi) hi'
    refine ⟨fun k => ?_, fun f => ?_⟩
    · have hvalid : ∀ us ∈ index, us ∈ tb.validIndex := fun us hus =>
        ((hexp.mem us).mp hus).2 _ hkept tb htb
      have hbefore : ∀ us ∈ index.take (u + 1), us ≤ τ := fun us hus =>
        hpast us (List.take_subset_take_left _ (by omega) hus)
      rw [hprices, hprices', hsame.filledColumn_eq (exported_sorted htb) (exported_sorted htb')
        hvalid hult hbefore (hable.first _ hkept tb hload k)]
    · rw [hfeatures, hfeatures', Tables.featureRow, Tables.featureRow,
        if_pos (hable.priced _ hkept tb hload), if_pos (hpriced _ hkept tb' hload'),
        hsame.computedRow_eq M.sqrt (exported_sorted htb) hi hle]
  exact ⟨rfl, rfl, rfl, fun u s f hu hs _ => (hcells u s hu hs).2 f,
    fun u s k hu hs => (hcells u s hu hs).1 k, fun _ _ _ _ => rfl⟩

/-- A market that the C code reads out of a file of the exporter. -/
def ExportedFrom (r : Rounding) (S : SortValues) (M : FeatureMath) (args : ExportArgs)
    (files : Files) (m : MarketData) : Prop :=
  ∃ file md, exportBinary r S M files args = .ok file ∧
    marketDataLoad file = .ok (some md) ∧ md.Shows r m

/-- The market of a file is the exported one. -/
lemma ExportedFrom.shows {m : MarketData} (hm : ExportedFrom r S M args files m)
    (hexp : Exports S files args kept index) (hfits : ExportFits kept index) :
    ∃ md : LoadedData, md.Shows r m ∧
      md.Shows r (exportedMarket r (gathered S M files args) kept index) := by
  obtain ⟨file, md, hfile, hmd, hshows⟩ := hm
  obtain ⟨file', md', hfile', hmd', -, hshows'⟩ := hexp.exportBinary_shows hfits r M
  rw [hfile] at hfile'
  cases hfile'
  rw [hmd] at hmd'
  cases hmd'
  exact ⟨md, hshows, hshows'⟩

/-- **Files.** The markets that the C code reads out of the files of two exports agree up to the row
of the time at which the tables part. -/
theorem ExportedFrom.agree {m m' : MarketData} (hm : ExportedFrom r S M args files m)
    (hm' : ExportedFrom r S M args files' m') (h : Files.SamePast S files files' τ)
    (hexp : Exports S files args kept index) (hfits : ExportFits kept index)
    (hable : Exportable S files kept index)
    (hpriced : ∀ sym ∈ kept, ∀ tb, loadTables S files' sym = some tb → tb.prices.Priced)
    {t : ℕ} {ts : ℤ} (ht : index[t]? = some ts) (hts : ts ≤ τ) : Agree m m' t t := by
  obtain ⟨md, hshows, hexported⟩ := hm.shows hexp hfits
  obtain ⟨md', hshows', hexported'⟩ := hm'.shows (h.exports hexp) hfits
  obtain ⟨hlt, -⟩ := List.getElem?_eq_some_iff.mp ht
  have hsteps : (m.numTimesteps : ℤ) = index.length :=
    hshows.numTimesteps.symm.trans hexported.numTimesteps
  have hsteps' : (m'.numTimesteps : ℤ) = index.length :=
    hshows'.numTimesteps.symm.trans hexported'.numTimesteps
  exact (hshows.agree hexported (by omega)).trans ((h.agree hexp hable hpriced
    (gathered_of S M files args) (gathered_of S M files' args) ht hts).trans
    (hshows'.agree hexported' (by omega)).symm)

end SamePast

/-- **No lookahead from the tables on.** Two collections of tables, with the same time stamps and
the same values up to a time, are exported with the same arguments. The tables of the exported
symbols have the prices that the features read, with every close above `1e-8`, and the first row of
the file has no empty cell. A policy that is run on both markets, without a borrow rate, sees the
same observations and takes the same actions as long as the bar before its clock is not after that
time.

**Proof sketch.** The same symbols and time stamps are exported (`Files.SamePast.exports`). The
features of a bar are decided by the rows up to it (`computeFeatures_take`) and by the forecasts at
their time stamps (`computeFeatures_congr`). Its prices are filled from above alone
(`Tables.SamePast.filledColumn_eq`), so the markets agree up to the row of the time, and the
environment does not look ahead (`rollout_rel`). -/
theorem exportBinary_noLookahead (lm : Libm) (r : Rounding) (S : SortValues) (M : FeatureMath)
    (args : ExportArgs) (files files' : Files) (τ : ℤ) (hpast : Files.SamePast S files files' τ)
    (kept : List String) (index : List ℤ) (hexp : Exports S files args kept index)
    (hfits : ExportFits kept index) (hable : Exportable S files kept index)
    (hpriced : ∀ sym ∈ kept, ∀ tb, loadTables S files' sym = some tb → tb.prices.Priced)
    (m m' : MarketData) (hm : ExportedFrom r S M args files m)
    (hm' : ExportedFrom r S M args files' m')
    (p : Params) (hapr : p.shortBorrowApr = 0) (hlag : 1 ≤ p.decisionLag) (pol : Policy)
    (e₁ e₂ : EnvState) (hrng : e₁.rng = e₂.rng) (k : ℕ) (ρ ρ' : Rollout)
    (h₁ : rollout lm m p pol e₁ k = .ok ρ) (h₂ : rollout lm m' p pol e₂ k = .ok ρ')
    (hlive₁ : ρ.ended = false) (hlive₂ : ρ'.ended = false) (ts : ℤ)
    (hrow : index[(ρ.clock - 1).toNat]? = some ts) (hts : ts ≤ τ) :
    ρ'.clock = ρ.clock ∧ ρ.seen = ρ'.seen ∧ ρ.actions = ρ'.actions := by
  exact rollout_eq_of_agree hapr hlag hrng h₁ h₂ hlive₁ hlive₂
    (hm.agree hm' hpast hexp hfits hable hpriced hrow hts)

/-! ## A crash in the last hour -/

/-- The market of the four hours. -/
def hourlyMarket (close : ℚ) : MarketData :=
  exportedMarket nearestSingle
    (gathered insertionSortValues hourlyMath (hourlyFiles close) hourlyArgs) ["BTCUSD"] [1, 2, 3]

/-- An order for a long on that market. -/
def hourlyRollout (close : ℚ) : Checked Rollout :=
  rollout .firstOrder (hourlyMarket close) { keelEnvCreate with forcedOffset := 0 } (fun _ => 1)
    (.zero 7) 1

/-- The tables part in the last hour. -/
lemma samePast_hourlyFiles (close close' : ℚ) :
    Files.SamePast insertionSortValues (hourlyFiles close) (hourlyFiles close') 2 := by
  have hforecasts : hourlyForecasts.SamePast hourlyForecasts 2 :=
    ⟨rfl, fun _ => Iff.rfl, fun _ _ _ => rfl⟩
  intro sym
  rw [loadTables_hourlyFiles, loadTables_hourlyFiles]
  split
  · refine .some ⟨rfl, fun i t row ht => ?_, hforecasts, hforecasts⟩
    match i with
    | 0 | 1 | 2 => exact Iff.rfl
    | 3 => refine iff_of_false (fun h => ?_) fun h => ?_ <;> cases h <;> omega
    | _ + 4 => exact Iff.rfl
  · exact .none

/-- The four hours have the prices that the features read. -/
lemma priced_hourlyFiles {close : ℚ} (hclose : 1e-8 < close) :
    ∀ sym ∈ ["BTCUSD"], ∀ tb, loadTables insertionSortValues (hourlyFiles close) sym = some tb →
      tb.prices.Priced := by
  intro sym _ tb htb
  rw [loadTables_hourlyFiles] at htb
  split at htb
  · cases htb
    intro row hrow
    simp only [hourlyTables, List.mem_cons, List.not_mem_nil, or_false] at hrow
    rcases hrow with rfl | rfl | rfl | rfl
    · decide +kernel
    · decide +kernel
    · decide +kernel
    · exact ⟨rfl, rfl, close, rfl, hclose⟩
  · cases htb

/-- An empty cell of the second exported hour is filled from the first one. -/
lemma exportable_hourlyFiles {close : ℚ} (hclose : 1e-8 < close) :
    Exportable insertionSortValues (hourlyFiles close) ["BTCUSD"] [1, 2, 3] := by
  refine ⟨priced_hourlyFiles hclose, fun sym _ tb htb k => ?_⟩
  rw [loadTables_hourlyFiles] at htb
  split at htb
  · cases htb
    cases k <;> exact Option.some_ne_none _
  · cases htb

/-- The four hours are exported. -/
lemma exportedFrom_hourlyMarket (close : ℚ) :
    ExportedFrom nearestSingle insertionSortValues hourlyMath hourlyArgs (hourlyFiles close)
      (hourlyMarket close) := by
  obtain ⟨file, md, hfile, hmd, -, hshows⟩ :=
    (exports_hourlyFiles close).exportBinary_shows hourlyFits nearestSingle hourlyMath
  exact ⟨file, md, hfile, hmd, hshows⟩

/-- A crash in the last hour is not visible two hours before. -/
theorem exportBinary_noLookahead_crash :
    ∃ ρ ρ', hourlyRollout 120 = .ok ρ ∧ hourlyRollout 60 = .ok ρ' ∧ ρ'.clock = ρ.clock ∧
      ρ.seen = ρ'.seen ∧ ρ.actions = ρ'.actions := by
  obtain ⟨ρ, hρ, htest⟩ := exists_of_toOption (x := hourlyRollout 120)
    (P := fun ρ => !ρ.ended && decide (ρ.clock = 1)) (by decide +kernel)
  obtain ⟨ρ', hρ', hlive⟩ := exists_of_toOption (x := hourlyRollout 60)
    (P := fun ρ => !ρ.ended) (by decide +kernel)
  simp only [Bool.and_eq_true, Bool.not_eq_true', decide_eq_true_eq] at htest hlive
  refine ⟨ρ, ρ', hρ, hρ', exportBinary_noLookahead .firstOrder nearestSingle insertionSortValues
    hourlyMath hourlyArgs _ _ 2 (samePast_hourlyFiles 120 60) ["BTCUSD"] [1, 2, 3]
    (exports_hourlyFiles 120) hourlyFits (exportable_hourlyFiles (by norm_num))
    (priced_hourlyFiles (by norm_num)) _ _ (exportedFrom_hourlyMarket 120)
    (exportedFrom_hourlyMarket 60) { keelEnvCreate with forcedOffset := 0 } rfl (by decide)
    (fun _ => 1) _ _ rfl 1 ρ ρ' hρ hρ' htest.1 hlive 1 ?_ (by decide)⟩
  rw [htest.2]
  rfl

end KeelTrader.Sim
