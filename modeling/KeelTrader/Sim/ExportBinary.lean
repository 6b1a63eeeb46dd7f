import KeelTrader.Sim.PipelineCausality

set_option relaxedAutoImplicit false
set_option autoImplicit false

/-!
# The exporter

`load_price_data`, `load_forecast` and `export_binary` of `sim/export_data.py`: the tables of prices
and of forecasts of some symbols, joined at the time stamps that all of them have, in a file that
the simulator loads.

## Main definitions

* `KeelTrader.Sim.PriceTable` — a table of prices, with its empty cells.
* `KeelTrader.Sim.Files` — the tables on disk.
* `KeelTrader.Sim.loadPriceData`, `KeelTrader.Sim.exportBinary` — the exporter.
* `KeelTrader.Sim.exported` — the tables of a symbol, if it is exported.
* `KeelTrader.Sim.Exports` — the tables are enough to export some symbols and time stamps.

## Main results

* `KeelTrader.Sim.Gathered.Of.gatherSymbol`, `gathered_of` — the loop over the symbols.
* `KeelTrader.Sim.Exports.row` — a row of the file.
* `KeelTrader.Sim.exportBinary_loads` — what the C code reads out of an exported file.

## Implementation notes

A price table has the columns open, high, low, close and volume. Time stamps are integers, and no
two rows of a forecast table share one. `sort_values` may leave rows with the same time stamp in
any order. Where a close is not above `1e-8`, or a price is missing, `compute_features` meets
infinities and missing values, which rational numbers do not have: what it makes of such a table is
a parameter.
-/

namespace KeelTrader.Sim

open Checked Forecast

/-! ## Tables -/

/-- A row of a price table: its cells, some of which may be empty. -/
structure PriceRow where
  o : Option ℚ
  h : Option ℚ
  l : Option ℚ
  c : Option ℚ
  v : Option ℚ
  deriving DecidableEq, Repr

/-- The cells of a row, in the order of its array. -/
def PriceRow.cells (row : PriceRow) : Column ℚ := [row.o, row.h, row.l, row.c, row.v]

/-- The cell of a row in a column of prices. -/
def PriceRow.get (row : PriceRow) : PriceFeat → Option ℚ
  | .pOpen => row.o
  | .pHigh => row.h
  | .pLow => row.l
  | .pClose => row.c
  | .pVol => row.v

/-- The row of a bar. -/
def PriceRow.ofBar (b : Bar) : PriceRow := ⟨some b.o, some b.h, some b.l, some b.c, some b.v⟩

/-- The prices of a row, with `0` for those that are missing. -/
def PriceRow.ohlc (row : PriceRow) : Ohlc ℚ :=
  ⟨row.o.getD 0, row.h.getD 0, row.l.getD 0, row.c.getD 0⟩

/-- The prices that the features read are there, and the close is above the bound of divisors. -/
def PriceRow.Priced (row : PriceRow) : Prop :=
  row.h.isSome ∧ row.l.isSome ∧ ∃ close ∈ row.c, 1e-8 < close

instance (row : PriceRow) : Decidable row.Priced :=
  inferInstanceAs (Decidable (_ ∧ _ ∧ ∃ close ∈ row.c, 1e-8 < close))

/-- A table of prices: its rows, under their time stamps. -/
abbrev PriceTable : Type := List (ℤ × PriceRow)

/-- The prices of a table. -/
def PriceTable.frame (prices : PriceTable) : PriceFrame ℚ :=
  prices.map fun row => (row.1, row.2.ohlc)

/-- Every row has the prices that the features read. -/
def PriceTable.Priced (prices : PriceTable) : Prop := ∀ row ∈ prices, row.2.Priced

instance (prices : PriceTable) : Decidable prices.Priced :=
  inferInstanceAs (Decidable (∀ row ∈ prices, row.2.Priced))

/-- `df.sort_values("timestamp")`. -/
structure SortValues where
  sort : PriceTable → PriceTable
  perm : ∀ rows, (sort rows).Perm rows
  sorted : ∀ rows, ((sort rows).map Prod.fst).Pairwise (· ≤ ·)

/-- `df.drop_duplicates(subset="timestamp", keep="last")`. -/
def dropDuplicates : PriceTable → PriceTable
  | [] => []
  | row :: rows =>
    if row.1 ∈ rows.map Prod.fst then dropDuplicates rows else row :: dropDuplicates rows

/-- A forecast table as `load_forecast` returns it: its columns, over one index that is sorted. -/
structure ForecastTable where
  index : List ℤ
  frame : ForecastFrame ℚ
  sorted : index.Pairwise (· < ·)
  columns : ∀ name column, frame.get? name = some column → column.keys = index

/-- The tables on disk: the rows of the CSV files, under their directory and the symbol, and the
forecast tables, under their horizon and the name of the file. -/
structure Files where
  csv : String → String → Option PriceTable
  parquet : ℕ → String → Option ForecastTable

/-- `load_price_data`. -/
def loadPriceData (S : SortValues) (files : Files) (symbol : String) : Option PriceTable :=
  ((files.csv "crypto" symbol).or (files.csv "stocks" symbol)).map fun rows =>
    dropDuplicates (S.sort rows)

/-- The tables of a symbol. -/
structure Tables where
  prices : PriceTable
  fcH1 : ForecastTable
  fcH24 : ForecastTable

/-- The three tables of a symbol, if there are files for all of them. -/
def loadTables (S : SortValues) (files : Files) (symbol : String) : Option Tables := do
  let prices ← loadPriceData S files symbol
  let fcH1 ← files.parquet 1 (safeSymbol symbol)
  let fcH24 ← files.parquet 24 (safeSymbol symbol)
  pure ⟨prices, fcH1, fcH24⟩

/-- `valid_idx`. -/
def Tables.validIndex (tb : Tables) : List ℤ :=
  ((tb.prices.map Prod.fst).filter (· ∈ tb.fcH1.index)).filter (· ∈ tb.fcH24.index)

/-- The numbers that `compute_features` works with: the square root, and the rows of a table whose
prices it cannot compute with. -/
structure FeatureMath where
  sqrt : ℚ → ℚ
  unpricedRow : PriceTable → ForecastFrame ℚ → ForecastFrame ℚ → ℕ → List ℚ

/-- The row `i` of `computeFeatures`. -/
def Tables.computedRow (sqrt : ℚ → ℚ) (tb : Tables) (i : ℕ) : List ℚ :=
  let feat := computeFeatures sqrt tb.prices.frame tb.fcH1.frame tb.fcH24.frame
  featureNames.map fun name => (((feat.get? name).getD []).getD i none).getD 0

/-- The row `i` of `compute_features`. -/
def Tables.featureRow (M : FeatureMath) (tb : Tables) (i : ℕ) : List ℚ :=
  if tb.prices.Priced then tb.computedRow M.sqrt i
  else M.unpricedRow tb.prices tb.fcH1.frame tb.fcH24.frame i

/-- `compute_features`, by rows. -/
def Tables.features (M : FeatureMath) (tb : Tables) : List (ℤ × List ℚ) :=
  tb.prices.mapIdx fun i row => (row.1, tb.featureRow M i)

section Frames

variable {α : Type}

/-- `table.loc[index]`. -/
def loc (index : List ℤ) (table : List (ℤ × α)) : List (ℤ × α) :=
  table.filter fun row => row.1 ∈ index

/-- `table.reindex(index)`: the rows, some of which are missing. -/
def reindexRows (index : List ℤ) (table : List (ℤ × α)) : List (Option α) :=
  index.map fun t => table.lookup t

end Frames

/-! ## The exporter -/

/-- `all_features`, `all_prices` and `common_index`. -/
structure Gathered where
  features : Dict String (List (ℤ × List ℚ))
  prices : Dict String PriceTable
  common : Option (List ℤ)

/-- The body of the loop over the symbols. -/
def gatherSymbol (S : SortValues) (M : FeatureMath) (files : Files) (minRows : ℕ) (g : Gathered)
    (symbol : String) : Gathered :=
  match loadTables S files symbol with
  | none => g
  | some tb =>
    if tb.validIndex.length < minRows then g
    else
      { features := g.features.set symbol (loc tb.validIndex (tb.features M))
        prices := g.prices.set symbol (loc tb.validIndex tb.prices)
        common := match g.common with
          | none => some tb.validIndex
          | some common => some (common.filter (· ∈ tb.validIndex)) }

/-- The exits of `export_binary`, with the numbers of their messages, and the exceptions of the
packer. -/
inductive ExportError where
  /-- "ERROR: Not enough common timestamps (…)". -/
  | notEnoughCommon (n : ℕ)
  /-- "ERROR: Not enough timestamps after date filter (…)". -/
  | notEnoughFiltered (n : ℕ)
  /-- The "IndexError" of the printed range, when no time stamp is left and none was asked for. -/
  | emptyIndex
  | pack (e : PackError)
  deriving DecidableEq, Repr

/-- What `export_binary` is asked for, besides the files. -/
structure ExportArgs where
  symbols : List String
  minRows : ℕ
  startDate : Option ℤ
  endDate : Option ℤ

/-- The time stamps that the dates leave. -/
def ExportArgs.dateFilter (args : ExportArgs) (index : List ℤ) : List ℤ :=
  (index.filter fun t => args.startDate.all (· ≤ t)).filter fun t => args.endDate.all (t ≤ ·)

/-- `feature_arr`. -/
def exportFeatures (r : Rounding) (g : Gathered) (validSymbols : List String) (index : List ℤ) :
    NdArray where
  shape := (index.length, validSymbols.length, defaultFeaturesPerSym)
  get t s f :=
    let rows := reindexRows index ((g.features.get? (validSymbols.getD s "")).getD [])
    r.single (((rows.getD t none).getD []).getD f 0)

/-- The missing value of `float32`. -/
def nanSingle : Single := ⟨0x7FC00000⟩

/-- `np.float32` of a cell. -/
def Rounding.cell (r : Rounding) : Option ℚ → Single
  | some x => r.single x
  | none => nanSingle

/-- `price_arr`. -/
def exportPrices (r : Rounding) (g : Gathered) (validSymbols : List String) (index : List ℤ) :
    NdArray where
  shape := (index.length, validSymbols.length, priceFeatures)
  get t s p :=
    let rows := reindexRows index ((g.prices.get? (validSymbols.getD s "")).getD [])
    let column := rows.map fun row => row.bind fun row => row.cells.getD p none
    r.cell ((Column.bfill (Column.ffill none column)).getD t none)

/-- The loop over the symbols. -/
def gathered (S : SortValues) (M : FeatureMath) (files : Files) (args : ExportArgs) : Gathered :=
  args.symbols.foldl (gatherSymbol S M files args.minRows) ⟨.empty, .empty, none⟩

/-- `export_binary`: the bytes of the file. -/
def exportBinary (r : Rounding) (S : SortValues) (M : FeatureMath) (files : Files)
    (args : ExportArgs) : Except ExportError (List UInt8) :=
  let g := gathered S M files args
  match g.common with
  | none => .error (.notEnoughCommon 0)
  | some common =>
    if common.length < args.minRows then .error (.notEnoughCommon common.length)
    else
      let index := args.dateFilter (common.mergeSort (· ≤ ·))
      if index.length < args.minRows then .error (.notEnoughFiltered index.length)
      else if index = [] then .error .emptyIndex
      else
        let validSymbols := args.symbols.filter (· ∈ g.features.keys)
        (writeMarketBin validSymbols (.ndarray (exportFeatures r g validSymbols index))
          (.ndarray (exportPrices r g validSymbols index)) index.length defaultFeaturesPerSym
          1).mapError .pack

/-! ## One symbol -/

lemma mem_keys_dropDuplicates {rows : PriceTable} {t : ℤ}
    (h : t ∈ (dropDuplicates rows).map Prod.fst) : t ∈ rows.map Prod.fst := by
  induction rows with
  | nil => exact h
  | cons row rows ih =>
    rw [dropDuplicates] at h
    by_cases hrow : row.1 ∈ rows.map Prod.fst
    · rw [if_pos hrow] at h
      exact List.mem_cons_of_mem _ (ih h)
    · rw [if_neg hrow] at h
      rcases List.mem_cons.mp h with rfl | h
      · exact List.mem_cons_self
      · exact List.mem_cons_of_mem _ (ih h)

/-- Without duplicates, sorted time stamps increase. -/
lemma pairwise_dropDuplicates {rows : PriceTable} (h : (rows.map Prod.fst).Pairwise (· ≤ ·)) :
    ((dropDuplicates rows).map Prod.fst).Pairwise (· < ·) := by
  induction rows with
  | nil => exact List.Pairwise.nil
  | cons row rows ih =>
    obtain ⟨hle, hrest⟩ := List.pairwise_cons.mp h
    rw [dropDuplicates]
    by_cases hrow : row.1 ∈ rows.map Prod.fst
    · rw [if_pos hrow]
      exact ih hrest
    · rw [if_neg hrow]
      refine List.pairwise_cons.mpr ⟨fun t ht => ?_, ih hrest⟩
      have hmem := mem_keys_dropDuplicates ht
      exact lt_of_le_of_ne (hle t hmem) fun heq => hrow (heq ▸ hmem)

section Lookup

variable {α : Type} {table : List (ℤ × α)} {index : List ℤ} {t : ℤ} {x : α}

/-- A row of a table is found under its time stamp. -/
lemma lookup_of_getElem? (h : (table.map Prod.fst).Pairwise (· < ·)) {i : ℕ}
    (hi : table[i]? = some (t, x)) : table.lookup t = some x := by
  induction table generalizing i with
  | nil => cases hi
  | cons row table ih =>
    obtain ⟨hlt, hrest⟩ := List.pairwise_cons.mp h
    cases i with
    | zero =>
      cases hi
      exact List.lookup_cons_self
    | succ i =>
      have hmem : (t, x) ∈ table := List.mem_of_getElem? hi
      have hne : t ≠ row.1 := (hlt t (List.mem_map_of_mem (f := Prod.fst) hmem)).ne'
      rw [List.lookup_cons, beq_eq_false_iff_ne.mpr hne]
      exact ih hrest hi

/-- A time stamp stands in one row. -/
lemma row_unique (h : (table.map Prod.fst).Pairwise (· < ·)) {i j : ℕ} {y : α}
    (hi : table[i]? = some (t, x)) (hj : table[j]? = some (t, y)) : i = j := by
  obtain ⟨hlt, -⟩ := List.getElem?_eq_some_iff.mp hi
  refine (List.getElem?_inj (by rwa [List.length_map]) (h.imp fun hlt => hlt.ne)).mp ?_
  rw [List.getElem?_map, List.getElem?_map, hi, hj]
  rfl

/-- The rows of the index are found in the part of a table. -/
lemma lookup_loc (h : t ∈ index) : (loc index table).lookup t = table.lookup t := by
  induction table with
  | nil => rfl
  | cons row table ih =>
    obtain ⟨u, x⟩ := row
    rw [loc, List.filter_cons]
    by_cases hu : u ∈ index
    · rw [if_pos (decide_eq_true hu), List.lookup_cons, List.lookup_cons]
      cases t == u with
      | true => rfl
      | false => exact ih
    · have hne : t ≠ u := fun heq => hu (heq ▸ h)
      rw [if_neg (by simpa using hu), List.lookup_cons, beq_eq_false_iff_ne.mpr hne]
      exact ih

end Lookup

section Symbol

variable {S : SortValues} {M : FeatureMath} {files : Files} {args : ExportArgs} {sym : String}
  {tb : Tables}

lemma loadTables_sorted (h : loadTables S files sym = some tb) :
    (tb.prices.map Prod.fst).Pairwise (· < ·) := by
  simp only [loadTables, Option.bind_eq_bind, Option.bind_eq_some_iff, loadPriceData,
    Option.map_eq_some_iff] at h
  obtain ⟨prices, ⟨rows, -, rfl⟩, fcH1, -, fcH24, -, htb⟩ := h
  cases htb
  exact pairwise_dropDuplicates (S.sorted rows)

/-- The valid time stamps are those that the three tables share. -/
lemma mem_validIndex {t : ℤ} : t ∈ tb.validIndex ↔
    t ∈ tb.prices.map Prod.fst ∧ t ∈ tb.fcH1.index ∧ t ∈ tb.fcH24.index := by
  rw [Tables.validIndex, List.mem_filter, List.mem_filter, decide_eq_true_eq, decide_eq_true_eq,
    and_assoc]

lemma pairwise_validIndex (h : (tb.prices.map Prod.fst).Pairwise (· < ·)) :
    tb.validIndex.Pairwise (· < ·) :=
  (h.filter _).filter _

/-- A row of prices and its features are found under a valid time stamp. -/
lemma lookup_tables (M : FeatureMath) (h : (tb.prices.map Prod.fst).Pairwise (· < ·)) {t : ℤ}
    (ht : t ∈ tb.validIndex) : ∃ i row, tb.prices[i]? = some (t, row) ∧
      tb.prices.lookup t = some row ∧
      (loc tb.validIndex (tb.features M)).lookup t = some (tb.featureRow M i) := by
  obtain ⟨⟨u, row⟩, hrow, rfl⟩ := List.mem_map.mp (mem_validIndex.mp ht).1
  obtain ⟨i, hi⟩ := List.mem_iff_getElem?.mp hrow
  have hkeys : (tb.features M).map Prod.fst = tb.prices.map Prod.fst := by
    refine List.ext_getElem? fun j => ?_
    rw [Tables.features, List.getElem?_map, List.getElem?_mapIdx, List.getElem?_map,
      Option.map_map]
    rfl
  have hfeature : (tb.features M)[i]? = some (u, tb.featureRow M i) := by
    rw [Tables.features, List.getElem?_mapIdx, hi]
    rfl
  refine ⟨i, row, hi, lookup_of_getElem? h hi, ?_⟩
  rw [lookup_loc ht, lookup_of_getElem? (by rwa [hkeys]) hfeature]

/-- The tables of a symbol that is exported. -/
def exported (S : SortValues) (files : Files) (minRows : ℕ) (sym : String) : Option Tables :=
  (loadTables S files sym).filter fun tb => minRows ≤ tb.validIndex.length

lemma exported_sorted {minRows : ℕ} (h : exported S files minRows sym = some tb) :
    (tb.prices.map Prod.fst).Pairwise (· < ·) :=
  loadTables_sorted (Option.filter_eq_some_iff.mp h).1

end Symbol

/-! ## The loop over the symbols -/

section Gather

variable {S : SortValues} {M : FeatureMath} {files : Files} {minRows : ℕ} {symbols : List String}
  {sym : String} {g : Gathered}

/-- What the loop has gathered from some symbols. -/
structure Gathered.Of (S : SortValues) (M : FeatureMath) (files : Files) (minRows : ℕ)
    (symbols : List String) (g : Gathered) : Prop where
  features : ∀ sym, g.features.get? sym = if sym ∈ symbols then
    (exported S files minRows sym).map fun tb => loc tb.validIndex (tb.features M) else none
  prices : ∀ sym, g.prices.get? sym = if sym ∈ symbols then
    (exported S files minRows sym).map fun tb => loc tb.validIndex tb.prices else none
  common_none : g.common = none ↔ ∀ sym ∈ symbols, exported S files minRows sym = none
  common_sorted : ∀ index, g.common = some index → index.Pairwise (· < ·)
  mem_common : ∀ index, g.common = some index → ∀ t, t ∈ index ↔
    ∀ sym ∈ symbols, ∀ tb, exported S files minRows sym = some tb → t ∈ tb.validIndex

/-- A symbol that is not exported is skipped. -/
lemma gatherSymbol_none (h : exported S files minRows sym = none) :
    gatherSymbol S M files minRows g sym = g := by
  unfold gatherSymbol
  unfold exported at h
  cases htables : loadTables S files sym with
  | none => rfl
  | some tb =>
    rw [htables, Option.filter_some] at h
    dsimp only
    split
    · rfl
    · next hlong =>
      rw [if_pos (by simpa using hlong)] at h
      cases h

lemma gatherSymbol_some {tb : Tables} (h : exported S files minRows sym = some tb) :
    gatherSymbol S M files minRows g sym =
      { features := g.features.set sym (loc tb.validIndex (tb.features M))
        prices := g.prices.set sym (loc tb.validIndex tb.prices)
        common := match g.common with
          | none => some tb.validIndex
          | some common => some (common.filter (· ∈ tb.validIndex)) } := by
  obtain ⟨htables, hlong⟩ := Option.filter_eq_some_iff.mp h
  unfold gatherSymbol
  rw [htables]
  exact if_neg (not_lt.mpr (of_decide_eq_true hlong))

/-- **Step.** One more symbol. -/
theorem Gathered.Of.gatherSymbol (h : g.Of S M files minRows symbols) (sym : String) :
    (gatherSymbol S M files minRows g sym).Of S M files minRows (symbols ++ [sym]) := by
  cases hexp : exported S files minRows sym with
  | none =>
    have hmem : ∀ {α : Type} (f : Tables → α) (sym' : String),
        (if sym' ∈ symbols then (exported S files minRows sym').map f else none) =
          if sym' ∈ symbols ++ [sym] then (exported S files minRows sym').map f else none := by
      intro α f sym'
      by_cases hsym : sym' = sym
      · rw [hsym, hexp, Option.map_none, ite_self, ite_self]
      · simp only [List.mem_append, List.mem_singleton, hsym, or_false]
    rw [gatherSymbol_none hexp]
    refine ⟨fun sym' => (h.features sym').trans (hmem _ _),
      fun sym' => (h.prices sym').trans (hmem _ _), ?_, h.common_sorted, fun index hindex t => ?_⟩
    · rw [h.common_none, List.forall_mem_append, List.forall_mem_singleton]
      exact (and_iff_left hexp).symm
    · rw [h.mem_common index hindex, List.forall_mem_append, List.forall_mem_singleton]
      refine (and_iff_left fun tb htb => ?_).symm
      rw [hexp] at htb
      cases htb
  | some tb =>
    have hset : ∀ {α : Type} (f : Tables → α) (d : Dict String α),
        (∀ sym', d.get? sym' =
          if sym' ∈ symbols then (exported S files minRows sym').map f else none) →
        ∀ sym', (d.set sym (f tb)).get? sym' =
          if sym' ∈ symbols ++ [sym] then (exported S files minRows sym').map f else none := by
      intro α f d hd sym'
      rw [Dict.get?_set, hd]
      by_cases hsym : sym' = sym
      · rw [if_pos hsym, hsym, hexp, if_pos (List.mem_append_right _ List.mem_cons_self),
          Option.map_some]
      · simp only [hsym, if_false, List.mem_append, List.mem_singleton, or_false]
    rw [gatherSymbol_some hexp]
    refine ⟨hset _ _ h.features, hset _ _ h.prices, ?_, ?_, ?_⟩
    · refine iff_of_false (fun hnone => ?_) fun hnone => ?_
      · cases hcommon : g.common <;> simp [hcommon] at hnone
      · rw [hnone sym (List.mem_append_right _ List.mem_cons_self)] at hexp
        cases hexp
    · cases hcommon : g.common with
      | none =>
        rintro _ ⟨⟩
        exact pairwise_validIndex (exported_sorted hexp)
      | some common =>
        rintro _ ⟨⟩
        exact (h.common_sorted common hcommon).filter _
    · cases hcommon : g.common with
      | none =>
        rintro _ ⟨⟩ t
        -- none of the symbols before was exported
        have hbefore := h.common_none.mp hcommon
        rw [List.forall_mem_append, List.forall_mem_singleton, hexp]
        refine ⟨fun ht => ⟨fun sym' hsym' tb' htb' => ?_, ?_⟩, fun ht => ht.2 tb rfl⟩
        · rw [hbefore sym' hsym'] at htb'
          cases htb'
        · rintro _ ⟨⟩
          exact ht
      | some common =>
        rintro _ ⟨⟩ t
        rw [List.mem_filter, h.mem_common common hcommon, List.forall_mem_append,
          List.forall_mem_singleton, hexp, decide_eq_true_eq]
        simp only [Option.some.injEq, forall_eq']

/-- **Runs.** What the whole loop gathers. -/
theorem gathered_of (S : SortValues) (M : FeatureMath) (files : Files) (args : ExportArgs) :
    (gathered S M files args).Of S M files args.minRows args.symbols := by
  obtain ⟨symbols, minRows, startDate, endDate⟩ := args
  unfold gathered
  dsimp only
  induction symbols using List.reverseRecOn with
  | nil =>
    exact ⟨fun _ => rfl, fun _ => rfl, iff_of_true rfl fun _ h => absurd h List.not_mem_nil,
      fun _ h => (Option.some_ne_none _ h.symm).elim,
      fun _ h => (Option.some_ne_none _ h.symm).elim⟩
  | append_singleton symbols sym ih =>
    rw [List.foldl_append]
    exact ih.gatherSymbol sym

end Gather

/-! ## What is exported -/

section Exports

variable {r : Rounding} {S : SortValues} {M : FeatureMath} {files : Files} {args : ExportArgs}
  {kept : List String} {index : List ℤ}

/-- A time stamp is between the dates. -/
def ExportArgs.InDates (args : ExportArgs) (t : ℤ) : Prop :=
  (∀ first ∈ args.startDate, first ≤ t) ∧ ∀ last ∈ args.endDate, t ≤ last

/-- The tables on disk are enough to export the symbols `kept`, over the time stamps `index`. -/
structure Exports (S : SortValues) (files : Files) (args : ExportArgs) (kept : List String)
    (index : List ℤ) : Prop where
  kept_eq : kept = args.symbols.filter fun sym => (exported S files args.minRows sym).isSome
  kept_ne_nil : kept ≠ []
  sorted : index.Pairwise (· < ·)
  mem : ∀ t, t ∈ index ↔ args.InDates t ∧
    ∀ sym ∈ kept, ∀ tb, exported S files args.minRows sym = some tb → t ∈ tb.validIndex
  index_ne_nil : index ≠ []
  minRows_le : args.minRows ≤ index.length

/-- Sorted lists with the same elements are equal. -/
lemma eq_of_pairwise_lt {a b : List ℤ} (ha : a.Pairwise (· < ·)) (hb : b.Pairwise (· < ·))
    (h : ∀ t, t ∈ a ↔ t ∈ b) : a = b := by
  have hperm : a.Perm b := (List.perm_ext_iff_of_nodup (ha.imp fun h => h.ne)
    (hb.imp fun h => h.ne)).mpr h
  exact hperm.eq_of_pairwise (fun x y _ _ hxy hyx => absurd hxy hyx.not_gt) ha hb

lemma mem_dateFilter {t : ℤ} :
    t ∈ args.dateFilter index ↔ t ∈ index ∧ args.InDates t := by
  rw [ExportArgs.dateFilter, List.mem_filter, List.mem_filter, and_assoc, ExportArgs.InDates]
  cases args.startDate <;> cases args.endDate <;> simp

/-- Membership in the tables of the exported symbols, without the others. -/
lemma forall_kept_iff (hkept : kept = args.symbols.filter fun sym =>
      (exported S files args.minRows sym).isSome) {P : String → Tables → Prop} :
    (∀ sym ∈ kept, ∀ tb, exported S files args.minRows sym = some tb → P sym tb) ↔
      ∀ sym ∈ args.symbols, ∀ tb, exported S files args.minRows sym = some tb → P sym tb := by
  subst hkept
  refine ⟨fun h sym hsym tb htb => h sym (List.mem_filter.mpr ⟨hsym, ?_⟩) tb htb,
    fun h sym hsym => h sym (List.mem_filter.mp hsym).1⟩
  rw [htb, Option.isSome_some]

/-- The kept symbols are those that were gathered. -/
lemma kept_eq_of_gathered {g : Gathered} (hg : g.Of S M files args.minRows args.symbols) :
    (args.symbols.filter fun sym => (exported S files args.minRows sym).isSome) =
      args.symbols.filter (· ∈ g.features.keys) := by
  refine List.filter_congr fun sym hsym => ?_
  rw [Bool.eq_iff_iff, decide_eq_true_eq, Dict.mem_keys_iff]
  simp only [hg.features, if_pos hsym, Option.map_eq_some_iff, Option.isSome_iff_exists]
  exact ⟨fun ⟨tb, htb⟩ => ⟨_, tb, htb, rfl⟩, fun ⟨_, tb, htb, _⟩ => ⟨tb, htb⟩⟩

/-- The time stamps between the dates that the gathered tables share, once they are sorted. -/
lemma dateFilter_common {g : Gathered} (hg : g.Of S M files args.minRows args.symbols)
    {common : List ℤ} (hcommon : g.common = some common) :
    (args.dateFilter (common.mergeSort (· ≤ ·))).Pairwise (· < ·) ∧
      ∀ t, t ∈ args.dateFilter (common.mergeSort (· ≤ ·)) ↔ args.InDates t ∧
        ∀ sym ∈ args.symbols, ∀ tb, exported S files args.minRows sym = some tb →
          t ∈ tb.validIndex := by
  have hsorted := hg.common_sorted common hcommon
  have hsort : common.mergeSort (· ≤ ·) = common :=
    List.mergeSort_of_pairwise (hsorted.imp fun h => decide_eq_true h.le)
  rw [hsort]
  refine ⟨(hsorted.filter _).filter _, fun t => ?_⟩
  rw [mem_dateFilter, hg.mem_common common hcommon, and_comm]

/-- The tables are enough when the file is written. -/
theorem exports_of_ok {file : List UInt8} (h : exportBinary r S M files args = .ok file) :
    ∃ kept index, Exports S files args kept index := by
  have hg := gathered_of S M files args
  unfold exportBinary at h
  dsimp only at h
  generalize gathered S M files args = g at h hg
  cases hcommon : g.common with
  | none =>
    rw [hcommon] at h
    cases h
  | some common =>
    rw [hcommon] at h
    dsimp only at h
    obtain ⟨hsorted, hmem⟩ := dateFilter_common hg hcommon
    split at h
    · cases h
    split at h
    · cases h
    next hlong =>
    split at h
    · cases h
    next hne =>
    refine ⟨_, _, rfl, fun hnil => ?_, hsorted, fun t => ?_, hne, not_lt.mp hlong⟩
    · -- no symbol would have been gathered
      have hnone : g.common = none := hg.common_none.mpr fun sym hsym => by
        have hfilter := List.filter_eq_nil_iff.mp hnil sym hsym
        simpa using hfilter
      rw [hnone] at hcommon
      cases hcommon
    · rw [hmem, forall_kept_iff rfl]

/-- The file of the exported tables is packed. -/
theorem Exports.exportBinary_eq (h : Exports S files args kept index) :
    exportBinary r S M files args =
      (writeMarketBin kept (.ndarray (exportFeatures r (gathered S M files args) kept index))
        (.ndarray (exportPrices r (gathered S M files args) kept index)) index.length
          defaultFeaturesPerSym 1).mapError .pack := by
  have hg := gathered_of S M files args
  unfold exportBinary
  dsimp only
  generalize gathered S M files args = g at hg ⊢
  cases hcommon : g.common with
  | none =>
    have hnil : kept = [] := by
      rw [h.kept_eq]
      refine List.filter_eq_nil_iff.mpr fun sym hsym => ?_
      rw [hg.common_none.mp hcommon sym hsym]
      exact Bool.false_ne_true
    exact absurd hnil h.kept_ne_nil
  | some common =>
    obtain ⟨hsorted, hmem⟩ := dateFilter_common hg hcommon
    have hindex : args.dateFilter (common.mergeSort (· ≤ ·)) = index := by
      refine eq_of_pairwise_lt hsorted h.sorted fun t => ?_
      rw [hmem, h.mem, forall_kept_iff h.kept_eq]
    have hlength : index.length ≤ common.length := by
      rw [← hindex, ExportArgs.dateFilter]
      exact ((List.length_filter_le _ _).trans (List.length_filter_le _ _)).trans
        (List.length_mergeSort _).le
    dsimp only
    rw [if_neg (not_lt.mpr (h.minRows_le.trans hlength)), hindex,
      if_neg (not_lt.mpr h.minRows_le), if_neg h.index_ne_nil, ← kept_eq_of_gathered hg,
      ← h.kept_eq]

end Exports

/-! ## Loading what was exported -/

section Loading

variable {r : Rounding} {S : SortValues} {M : FeatureMath} {files : Files} {args : ExportArgs}
  {kept : List String} {index : List ℤ} {g : Gathered}

/-- The sizes that the format can hold, and names that its table can hold. -/
structure ExportFits (kept : List String) (index : List ℤ) : Prop where
  names : ∀ name ∈ kept, TableName name
  symbols : kept.length ≤ 128
  size : index.length * kept.length * defaultFeaturesPerSym < 2 ^ 31

/-- The tables of a kept symbol, and the time stamps of the file among them. -/
lemma Exports.tables (h : Exports S files args kept index) {sym : String} (hsym : sym ∈ kept) :
    ∃ tb, exported S files args.minRows sym = some tb ∧ ∀ t ∈ index, t ∈ tb.validIndex := by
  have hsome := hsym
  rw [h.kept_eq, List.mem_filter, Option.isSome_iff_exists] at hsome
  obtain ⟨-, tb, htb⟩ := hsome
  exact ⟨tb, htb, fun t ht => ((h.mem t).mp ht).2 sym hsym tb htb⟩

/-- The gathered tables of a kept symbol. -/
lemma Exports.get?_gathered (h : Exports S files args kept index)
    (hg : g.Of S M files args.minRows args.symbols) {sym : String} {tb : Tables}
    (hsym : sym ∈ kept) (htb : exported S files args.minRows sym = some tb) :
    g.features.get? sym = some (loc tb.validIndex (tb.features M)) ∧
      g.prices.get? sym = some (loc tb.validIndex tb.prices) := by
  have hmem : sym ∈ args.symbols := by
    rw [h.kept_eq] at hsym
    exact (List.mem_filter.mp hsym).1
  rw [hg.features, hg.prices, if_pos hmem, if_pos hmem, htb]
  exact ⟨rfl, rfl⟩

/-- The market of the file. -/
def exportedMarket (r : Rounding) (g : Gathered) (kept : List String) (index : List ℤ) :
    MarketData :=
  arraysMarket r (exportFeatures r g kept index) (exportPrices r g kept index)

/-- A column of the prices of a symbol, at the time stamps of the file. -/
def Tables.column (tb : Tables) (index : List ℤ) (k : PriceFeat) : Column ℚ :=
  index.map fun t => (tb.prices.lookup t).bind fun row => row.get k

/-- A column of prices, once it is filled. -/
def Tables.filledColumn (tb : Tables) (index : List ℤ) (k : PriceFeat) : Column ℚ :=
  Column.bfill (Column.ffill none (tb.column index k))

lemma length_column (tb : Tables) (index : List ℤ) (k : PriceFeat) :
    (tb.column index k).length = index.length := List.length_map _

lemma PriceRow.getD_cells (row : PriceRow) (k : PriceFeat) :
    row.cells.getD k.index none = row.get k := by
  cases k <;> rfl

/-- The column of the part of a table that is exported. -/
lemma column_loc {tb : Tables} (hvalid : ∀ t ∈ index, t ∈ tb.validIndex) (k : PriceFeat) :
    ((reindexRows index (loc tb.validIndex tb.prices)).map fun row =>
      row.bind fun row => row.cells.getD k.index none) = tb.column index k := by
  rw [reindexRows, List.map_map]
  refine List.map_congr_left fun t ht => ?_
  simp only [Function.comp_apply, lookup_loc (hvalid t ht), PriceRow.getD_cells]

/-- **Rows.** The row of a time stamp holds the filled columns of the symbol and its features. -/
theorem Exports.row (h : Exports S files args kept index)
    (hg : g.Of S M files args.minRows args.symbols) {s t : ℕ} {sym : String} {ts : ℤ}
    (hsym : kept[s]? = some sym) (hts : index[t]? = some ts) :
    ∃ tb i row, exported S files args.minRows sym = some tb ∧
      tb.prices[i]? = some (ts, row) ∧ (∀ k, (tb.column index k).getD t none = row.get k) ∧
      (∀ k, (exportedMarket r g kept index).prices t s k =
        r.value (r.cell ((tb.filledColumn index k).getD t none))) ∧
      ∀ f, (exportedMarket r g kept index).features t s f =
        r.round ((tb.featureRow M i).getD f 0) := by
  obtain ⟨tb, htb, hvalid⟩ := h.tables (List.mem_of_getElem? hsym)
  obtain ⟨hfeatures, hprices⟩ := h.get?_gathered hg (List.mem_of_getElem? hsym) htb
  have hsorted := exported_sorted htb
  obtain ⟨i, row, hi, hrow, hfeat⟩ := lookup_tables M hsorted (hvalid ts (List.mem_of_getElem? hts))
  have hname : kept.getD s "" = sym := by
    rw [List.getD_eq_getElem?_getD, hsym, Option.getD_some]
  have hfeature : (reindexRows index (loc tb.validIndex (tb.features M))).getD t none =
      some (tb.featureRow M i) := by
    rw [reindexRows, List.getD_eq_getElem?_getD, List.getElem?_map, hts, Option.map_some, hfeat]
    rfl
  refine ⟨tb, i, row, htb, hi, fun k => ?_, fun k => ?_, fun f => ?_⟩
  · rw [Tables.column, List.getD_eq_getElem?_getD, List.getElem?_map, hts, Option.map_some, hrow]
    rfl
  · simp only [exportedMarket, arraysMarket, exportPrices, hname, hprices, Option.getD_some,
      column_loc hvalid, Tables.filledColumn]
  · simp only [exportedMarket, arraysMarket, exportFeatures, hname, hfeatures, Option.getD_some,
      hfeature, Rounding.round]

/-- The file is written, and the C code reads the market out of it. -/
theorem Exports.exportBinary_shows (h : Exports S files args kept index)
    (hfits : ExportFits kept index) (r : Rounding) (M : FeatureMath) :
    ∃ file md, exportBinary r S M files args = .ok file ∧ marketDataLoad file = .ok (some md) ∧
      md.symNames.map cString = kept ∧
      md.Shows r (exportedMarket r (gathered S M files args) kept index) := by
  have harrays : ArraysFit kept (exportFeatures r (gathered S M files args) kept index)
      (exportPrices r (gathered S M files args) kept index) :=
    ⟨hfits.names, List.length_pos_of_ne_nil h.kept_ne_nil, hfits.symbols,
      List.length_pos_of_ne_nil h.index_ne_nil, show 1 ≤ defaultFeaturesPerSym by decide,
      hfits.size, rfl, rfl⟩
  obtain ⟨file, md, hpack, hmd, hnames, hshows⟩ := harrays.writeMarketBin_shows r
  exact ⟨file, md, h.exportBinary_eq.trans (congrArg (Except.mapError ExportError.pack) hpack), hmd,
    hnames, hshows⟩

/-- **From tables to a market.** When the tables on disk are enough to export some symbols and the
format can hold them, `export_binary` writes a file that the C code loads, under the names of these
symbols. Its rows are the time stamps between the dates that all of their tables share, in
increasing order, and it reads out of the row of a time stamp the rounded cells of the symbol's
prices at that time. An empty cell shows the latest cell of its column above it in the file or else
the first one below; no row is missing. Where the table of a symbol has the prices that the
features read, with every close above `1e-8`, it also reads the rounded features that
`compute_features` has at that time, in the whole table.

**Proof sketch.** One turn of the loop keeps what was gathered (`Gathered.Of.gatherSymbol`), so the
intersection of the indices has the time stamps that every kept symbol has. Hence no row is missing
when the tables are reindexed, and only empty cells are filled (`Column.getD_bfill_ffill_iff`). -/
theorem exportBinary_loads (r : Rounding) (S : SortValues) (M : FeatureMath) (files : Files)
    (args : ExportArgs) (kept : List String) (index : List ℤ)
    (h : Exports S files args kept index) (hfits : ExportFits kept index) :
    ∃ file md m, exportBinary r S M files args = .ok file ∧
      marketDataLoad file = .ok (some md) ∧ md.symNames.map cString = kept ∧ md.Shows r m ∧
      m.numSymbols = kept.length ∧ m.numTimesteps = index.length ∧ m.featuresPerSym = 16 ∧
      ∀ s t sym ts, kept[s]? = some sym → index[t]? = some ts →
        ∃ tb i row, loadTables S files sym = some tb ∧ tb.prices[i]? = some (ts, row) ∧
          ts ∈ tb.fcH1.index ∧ ts ∈ tb.fcH24.index ∧
          (∀ k x, row.get k = some x → m.prices t s k = r.round x) ∧
          (∀ k x, Column.FilledWith (tb.column index k) t x → m.prices t s k = r.round x) ∧
          (tb.prices.Priced →
            ∀ f, m.features t s f = r.round ((tb.computedRow M.sqrt i).getD f 0)) := by
  obtain ⟨file, md, hfile, hmd, hnames, hshows⟩ := h.exportBinary_shows hfits r M
  refine ⟨file, md, _, hfile, hmd, hnames, hshows, rfl, rfl, rfl, fun s t sym ts hsym hts => ?_⟩
  obtain ⟨tb, i, row, htb, hi, hcells, hprices, hfeatures⟩ :=
    h.row (r := r) (gathered_of S M files args) hsym hts
  have hvalid : ts ∈ tb.validIndex :=
    ((h.mem ts).mp (List.mem_of_getElem? hts)).2 sym (List.mem_of_getElem? hsym) tb htb
  obtain ⟨-, hH1, hH24⟩ := mem_validIndex.mp hvalid
  obtain ⟨ht, -⟩ := List.getElem?_eq_some_iff.mp hts
  have hfilled : ∀ k x, Column.FilledWith (tb.column index k) t x →
      (exportedMarket r (gathered S M files args) kept index).prices t s k = r.round x := by
    intro k x hx
    rw [hprices, Tables.filledColumn,
      (Column.getD_bfill_ffill_iff (by rwa [length_column])).mpr hx]
    rfl
  refine ⟨tb, i, row, (Option.filter_eq_some_iff.mp htb).1, hi, hH1, hH24,
    fun k x hx => hfilled k x (.inl (.of_eq_some ?_)), hfilled, fun hpriced f => ?_⟩
  · exact (hcells k).trans hx
  · rw [hfeatures, Tables.featureRow, if_pos hpriced]

end Loading

/-! ## Four hours -/

/-- Sorting by insertion, which keeps the order of rows with the same time stamp. -/
def insertionSortValues : SortValues where
  sort rows := rows.insertionSort fun a b => a.1 ≤ b.1
  perm rows := List.perm_insertionSort _ rows
  sorted rows := by
    have : IsTrans (ℤ × PriceRow) fun a b => a.1 ≤ b.1 := ⟨fun _ _ _ => le_trans⟩
    have : Std.Total fun a b : ℤ × PriceRow => a.1 ≤ b.1 := ⟨fun a b => le_total a.1 b.1⟩
    exact List.pairwise_map.mpr (List.pairwise_insertionSort _ rows)

/-- A forecast for each of four hours. -/
def hourlyForecasts : ForecastTable where
  index := [0, 1, 2, 3]
  frame := .ofList [("predicted_close_p50", .ofList [(0, some 101), (1, some 105), (2, some 111),
    (3, some 112)])]
  sorted := by decide
  columns name column h := by
    have hmem := Dict.get?_eq_some_iff.mp h
    obtain ⟨-, rfl⟩ := Prod.mk.inj (List.mem_singleton.mp hmem)
    decide +kernel

/-- A row at one price. -/
def PriceRow.flat (c : ℚ) : PriceRow := .ofBar (.flat c)

/-- Four hours of a symbol, of which the second one stands twice, the third one has no opening
price, and the last one closes at `close`. -/
def hourlyFiles (close : ℚ) : Files where
  csv directory symbol := if directory = "crypto" ∧ symbol = "BTCUSD" then
    some [(1, .flat 104), (0, .flat 100), (3, .flat close), (1, .flat 105),
      (2, { PriceRow.flat 110 with o := none })]
    else none
  parquet _ name := if name = "BTCUSD" then some hourlyForecasts else none

/-- The tables of that symbol. -/
def hourlyTables (close : ℚ) : Tables :=
  ⟨[(0, .flat 100), (1, .flat 105), (2, { PriceRow.flat 110 with o := none }), (3, .flat close)],
    hourlyForecasts, hourlyForecasts⟩

/-- The square root is not taken in these hours. -/
def hourlyMath : FeatureMath := ⟨id, fun _ _ _ _ => []⟩

/-- The last hours of two symbols, of which there are tables for the first one. -/
def hourlyArgs : ExportArgs := ⟨["BTCUSD", "ETHUSD"], 2, some 1, none⟩

lemma loadTables_hourlyFiles (close : ℚ) (sym : String) :
    loadTables insertionSortValues (hourlyFiles close) sym =
      if sym = "BTCUSD" then some (hourlyTables close) else none := by
  by_cases hsym : sym = "BTCUSD"
  · subst hsym
    rfl
  · simp [loadTables, loadPriceData, hourlyFiles, hsym]

lemma exports_hourlyFiles (close : ℚ) :
    Exports insertionSortValues (hourlyFiles close) hourlyArgs ["BTCUSD"] [1, 2, 3] := by
  have hexported : ∀ sym, exported insertionSortValues (hourlyFiles close) 2 sym =
      if sym = "BTCUSD" then some (hourlyTables close) else none := by
    intro sym
    rw [exported, loadTables_hourlyFiles]
    split <;> rfl
  have hvalid : (hourlyTables close).validIndex = [0, 1, 2, 3] := rfl
  refine ⟨?_, by decide, by decide, fun t => ?_, by decide, by decide⟩
  · simp only [hourlyArgs, hexported]
    rfl
  · simp only [hourlyArgs, hexported, List.forall_mem_singleton, if_true, Option.some.injEq,
      forall_eq', hvalid, ExportArgs.InDates]
    have hlast : ∀ last ∈ (none : Option ℤ), t ≤ last := fun _ h => by cases h
    rw [and_iff_left hlast]
    refine ⟨fun ht => ⟨?_, List.mem_cons_of_mem _ ht⟩, fun ⟨hfirst, ht⟩ => ?_⟩
    · rintro _ ⟨⟩
      exact (show ∀ u ∈ [1, 2, 3], (1 : ℤ) ≤ u by decide) t ht
    · refine (List.mem_cons.mp ht).resolve_left fun hzero => ?_
      exact absurd (hfirst 1 rfl) (by omega)

lemma hourlyFits : ExportFits ["BTCUSD"] [1, 2, 3] := ⟨by decide, by decide, by decide⟩

/-- The last of two rows with the same time stamp is exported, with its return, and the opening
price that is missing in the next row is filled. -/
theorem exportBinary_loads_hours :
    ∃ file md m, exportBinary nearestSingle insertionSortValues hourlyMath (hourlyFiles 120)
        hourlyArgs = .ok file ∧
      marketDataLoad file = .ok (some md) ∧ md.Shows nearestSingle m ∧ m.numTimesteps = 3 ∧
      m.prices 0 0 .pClose = 105 ∧ m.prices 1 0 .pOpen = 105 ∧
      m.features 0 0 8 = nearestSingle.round (1 / 20) := by
  obtain ⟨file, md, m, hfile, hmd, -, hshows, -, hsteps, -, hcells⟩ := exportBinary_loads
    nearestSingle insertionSortValues hourlyMath (hourlyFiles 120) hourlyArgs ["BTCUSD"] [1, 2, 3]
    (exports_hourlyFiles 120) hourlyFits
  obtain ⟨tb, i, row, htb, hi, -, -, -, hprices, hfeatures⟩ := hcells 0 0 "BTCUSD" 1 rfl rfl
  obtain ⟨tb', i', row', htb', -, -, -, -, hprices', -⟩ := hcells 0 1 "BTCUSD" 2 rfl rfl
  rw [loadTables_hourlyFiles] at htb htb'
  cases htb
  cases htb'
  obtain rfl : i = 1 := row_unique (by decide) hi (y := .flat 105) rfl
  refine ⟨file, md, m, hfile, hmd, hshows, hsteps, ?_, ?_, ?_⟩
  · rw [hprices .pClose 105 (.inl (.of_eq_some rfl))]
    decide +kernel
  · rw [hprices' .pOpen 105 (.inl ⟨0, by decide, rfl, fun u h h' => ?_⟩)]
    · decide +kernel
    · rw [show u = 1 by omega]
      rfl
  · rw [hfeatures (by decide +kernel)]
    decide +kernel

end KeelTrader.Sim
