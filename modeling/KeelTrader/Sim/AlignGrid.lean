import Mathlib.Data.List.Range
import Mathlib.Algebra.Order.Field.Rat
import KeelTrader.Lib.CarryForward
import KeelTrader.Lib.Dict

set_option relaxedAutoImplicit false
set_option autoImplicit false

/-!
# The grid of the market data

`align_to_grid` of `sim/kraken_data.py`: the bars of several symbols, each with its own history
and its own gaps, on one regular grid from the latest first bar to the earliest last one. A gap is
filled with a flat bar at the last close. The fill starts at the first grid point with nothing to
carry, although the history of a symbol may start earlier.

## Main definitions

* `KeelTrader.Sim.Bar`, `Series` — a bar and the history of a symbol.
* `KeelTrader.Sim.alignToGrid` — the alignment.
* `KeelTrader.Sim.IsRow`, `ForwardFilled` — every gap holds the latest close before it.

## Main results

* `KeelTrader.Sim.fillColumn_eq_scan` — the fill is a scan that starts with no output.
* `KeelTrader.Sim.alignToGrid_forwardFilled_iff` — the gaps are filled exactly when every kept
  symbol has a bar at the first grid point.

## Implementation notes

The array `prices[T][S][5]` is kept as one column for each symbol, and its entries are exact. An
error carries the numbers that its message shows.
-/

namespace KeelTrader.Sim

open CarryForward

/-! ## Bars -/

/-- A bar: `[o, h, l, c, v]`. -/
structure Bar where
  o : ℚ
  h : ℚ
  l : ℚ
  c : ℚ
  v : ℚ
  deriving DecidableEq, Repr

/-- A flat bar at the close `c`, without volume. -/
def Bar.flat (c : ℚ) : Bar := ⟨c, c, c, c, 0⟩

/-- A row of `np.zeros`. -/
def Bar.zeros : Bar := ⟨0, 0, 0, 0, 0⟩

/-- The prices of a bar are positive. -/
structure Bar.Positive (b : Bar) : Prop where
  o : 0 < b.o
  h : 0 < b.h
  l : 0 < b.l
  c : 0 < b.c

/-- The bars of a symbol, under their timestamps. -/
abbrev Series : Type := Dict ℤ Bar

/-- `min(series[s])`, for a symbol that has bars. -/
def Series.firstTs (bars : Series) : ℤ := bars.keys.min?.getD 0

/-- `max(series[s])`, for a symbol that has bars. -/
def Series.lastTs (bars : Series) : ℤ := bars.keys.max?.getD 0

/-! ## The alignment -/

/-- The errors of `align_to_grid`. -/
inductive AlignError where
  /-- `no symbol has any bars to align`. -/
  | noBars
  /-- `unsupported timeframe`. -/
  | unsupportedTimeframe (timeframe : String)
  /-- `symbols do not overlap in time`, with the latest first and the earliest last timestamp. -/
  | noOverlap (first last : ℤ)
  deriving DecidableEq, Repr

/-- `ms_per_bar`. -/
def msPerBar (timeframe : String) : Except AlignError ℤ :=
  match [("1h", 3600000), ("4h", 14400000), ("1d", 86400000)].lookup timeframe with
  | some step => .ok step
  | none => .error (.unsupportedTimeframe timeframe)

/-- The bars of a symbol; none when it is missing. -/
def barsOf (series : Dict String Series) (sym : String) : Series :=
  (series.get? sym).getD .empty

/-- The symbols that have bars. -/
def present (series : Dict String Series) (symbols : List String) : List String :=
  symbols.filter fun s => decide ((barsOf series s).entries ≠ [])

/-- The latest of the first timestamps. -/
def commonFirst (series : Dict String Series) (kept : List String) : ℤ :=
  (kept.map fun s => (barsOf series s).firstTs).max?.getD 0

/-- The earliest of the last timestamps. -/
def commonLast (series : Dict String Series) (kept : List String) : ℤ :=
  (kept.map fun s => (barsOf series s).lastTs).min?.getD 0

/-- `range(start, stop, step)`, for a positive step. -/
def pyRange (start stop step : ℤ) : List ℤ :=
  (List.range ((stop - start + step - 1) / step).toNat).map fun k : ℕ => start + k * step

/-- The column of a symbol: the inner loop, from the last bar it has seen. -/
def fillColumn (bars : Series) : Option Bar → List ℤ → List Bar
  | _, [] => []
  | lastBar, ts :: grid =>
    let bar := match bars.get? ts, lastBar with
      | none, some b => some (.flat b.c)
      | bar, _ => bar
    match bar with
    -- no prior bar to carry: the row keeps its zeros
    | none => .zeros :: fillColumn bars lastBar grid
    | some bar => bar :: fillColumn bars (some bar) grid

/-- What `align_to_grid` returns: column `si` of `columns` is `prices[:, si, :]`. -/
structure Aligned where
  kept : List String
  grid : List ℤ
  columns : List (List Bar)
  deriving DecidableEq

/-- `prices[ti, si, :]`. -/
def Aligned.price (r : Aligned) (ti si : ℕ) : Option Bar := r.columns[si]?.bind fun col => col[ti]?

/-- The columns of the kept symbols. -/
def fillGrid (series : Dict String Series) (kept : List String) (grid : List ℤ) : Aligned :=
  ⟨kept, grid, kept.map fun sym => fillColumn (barsOf series sym) none grid⟩

/-- `align_to_grid`. -/
def alignToGrid (series : Dict String Series) (symbols : List String) (timeframe : String) :
    Except AlignError Aligned :=
  let kept := present series symbols
  if kept = [] then .error .noBars
  else do
    let step ← msPerBar timeframe
    let first := commonFirst series kept
    let last := commonLast series kept
    if last < first then .error (.noOverlap first last)
    else
      pure (fillGrid series kept (pyRange first (last + step) step))

/-! ## Forward filling -/

/-- The row of a symbol at `ts`: its own bar if it has one, and otherwise the flat bar at the close
of its latest bar before `ts`. -/
def IsRow (bars : Series) (ts : ℤ) (row : Bar) : Prop :=
  row ≠ .zeros ∧
    match bars.get? ts with
    | some bar => row = bar
    | none => ∃ bar, IsLatest bars.get? ts bar ∧ row = .flat bar.c

/-- Every entry is the row of its symbol at its time. -/
def ForwardFilled (series : Dict String Series) (r : Aligned) : Prop :=
  ∀ (si : ℕ) (sym : String), r.kept[si]? = some sym → ∀ (ti : ℕ) (ts : ℤ), r.grid[ti]? = some ts →
    ∃ row, r.price ti si = some row ∧ IsRow (barsOf series sym) ts row

/-- A positive bar is not zero, nor is the flat bar at its close. -/
lemma Bar.Positive.ne_zeros {b : Bar} (h : b.Positive) : b ≠ .zeros ∧ Bar.flat b.c ≠ .zeros := by
  constructor
  · rintro rfl
    exact absurd h.c (lt_irrefl _)
  · intro heq
    have hc : b.c = 0 := congrArg Bar.c heq
    exact absurd h.c (hc ▸ lt_irrefl _)

section Fill

variable {bars : Series}

/-- **The fill** is a scan that repeats the last bar as a flat one. -/
theorem fillColumn_eq_scan : ∀ (lastBar : Option Bar) (grid : List ℤ),
    fillColumn bars lastBar grid =
      (scan bars.get? (fun b => .flat b.c) lastBar grid).map fun row => row.getD .zeros
  | _, [] => rfl
  | lastBar, ts :: grid => by
    cases hbar : bars.get? ts with
    | some bar => simp [fillColumn, scan, hbar, fillColumn_eq_scan (some bar) grid]
    | none =>
      cases lastBar with
      | none => simp [fillColumn, scan, hbar, fillColumn_eq_scan none grid]
      | some b => simp [fillColumn, scan, hbar, fillColumn_eq_scan (some (.flat b.c)) grid]

/-- What a sample of the scan is, as a row. -/
lemma sampled_iff {ts : ℤ} {out : Option Bar}
    (hpos : ∀ ts bar, bars.get? ts = some bar → bar.Positive) :
    Sampled bars.get? (fun b => .flat b.c) ts out ↔ IsRow bars ts (out.getD .zeros) := by
  constructor
  · rintro ⟨a, hlatest, rfl⟩
    obtain ⟨u, -, hu, -⟩ := id hlatest
    have hne := (hpos u a hu).ne_zeros
    cases hbar : bars.get? ts with
    | some bar =>
      obtain rfl := hlatest.eq_of_eq_some hbar
      exact ⟨hne.1, by simp [hbar]⟩
    | none =>
      refine ⟨hne.2, ?_⟩
      rw [hbar]
      exact ⟨a, hlatest, rfl⟩
  · rintro ⟨hne, hrow⟩
    cases out with
    | none => exact absurd rfl hne
    | some row =>
      cases hbar : bars.get? ts with
      | some bar =>
        rw [hbar] at hrow
        obtain rfl : row = bar := hrow
        exact ⟨row, .of_eq_some hbar, by rw [hbar]; rfl⟩
      | none =>
        rw [hbar] at hrow
        obtain ⟨bar, hlatest, hflat⟩ := hrow
        exact ⟨bar, hlatest, by rw [hbar]; exact congrArg some hflat⟩

/-- A column is right when the scan is. -/
lemma fillColumn_isRow_iff (grid : List ℤ)
    (hpos : ∀ ts bar, bars.get? ts = some bar → bar.Positive) :
    (∀ (ti : ℕ) (ts : ℤ), grid[ti]? = some ts →
      ∃ row, (fillColumn bars none grid)[ti]? = some row ∧ IsRow bars ts row) ↔
      List.Forall₂ (Sampled bars.get? fun b => .flat b.c) grid
        (scan bars.get? (fun b => .flat b.c) none grid) := by
  have hlen := length_scan bars.get? (fun b => .flat b.c) none grid
  rw [fillColumn_eq_scan, List.forall₂_iff_get]
  constructor
  · refine fun h => ⟨hlen.symm, fun i hi hi' => (sampled_iff hpos).mpr ?_⟩
    obtain ⟨row, hrow, hisRow⟩ := h i grid[i] (List.getElem?_eq_getElem hi)
    rw [List.getElem?_map, List.getElem?_eq_getElem hi'] at hrow
    cases hrow
    exact hisRow
  · rintro ⟨-, h⟩ ti ts hts
    obtain ⟨hi, rfl⟩ := List.getElem?_eq_some_iff.mp hts
    have hi' : ti < (scan bars.get? (fun b => .flat b.c) none grid).length := hlen ▸ hi
    refine ⟨_, ?_, (sampled_iff hpos).mp (h ti hi hi')⟩
    rw [List.getElem?_map, List.getElem?_eq_getElem hi']
    rfl

end Fill

/-! ## The grid -/

section Grid

variable {first last step : ℤ}

/-- The points of the grid. -/
lemma pyRange_eq (hstep : 0 < step) (hle : first ≤ last) (hdvd : step ∣ last - first) :
    ∃ n : ℕ, pyRange first (last + step) step =
      (List.range (n + 1)).map fun k : ℕ => first + k * step := by
  obtain ⟨m, hm⟩ := hdvd
  have hnonneg : 0 ≤ m := by nlinarith
  refine ⟨m.toNat, ?_⟩
  have hcount : (last + step - first + step - 1) / step = m + 1 := by
    rw [show last + step - first + step - 1 = (step - 1) + step * (m + 1) by linarith,
      Int.add_mul_ediv_left _ _ hstep.ne', Int.ediv_eq_zero_of_lt (by omega) (by omega), zero_add]
  unfold pyRange
  rw [hcount, show (m + 1).toNat = m.toNat + 1 by omega]

/-- No multiple of the step lies between two grid points. -/
lemma quiet_grid {α : Type} {obs : ℤ → Option α} (hstep : 0 < step) (hfirst : step ∣ first)
    (hobs : ∀ ts a, obs ts = some a → step ∣ ts) (n : ℕ) :
    Quiet obs ((List.range (n + 1)).map fun k : ℕ => first + k * step) := by
  unfold Quiet
  rw [List.isChain_map, List.isChain_range]
  intro k _
  refine ⟨by push_cast; nlinarith, fun u hlo hhi => ?_⟩
  by_contra hne
  obtain ⟨a, ha⟩ := Option.ne_none_iff_exists'.mp hne
  obtain ⟨q, rfl⟩ := hobs u a ha
  obtain ⟨r, rfl⟩ := hfirst
  push_cast at hhi
  have hlt : r + k < q := by nlinarith
  have hgt : q < r + k + 1 := by nlinarith
  omega

end Grid

/-! ## When the gaps are filled -/

/-- Bars on the grid of the timeframe with positive prices, of symbols that overlap in time. -/
structure Alignable (series : Dict String Series) (symbols : List String) (step : ℤ) : Prop where
  multiples : ∀ sym ∈ present series symbols, ∀ ts bar,
    (barsOf series sym).get? ts = some bar → step ∣ ts
  positive : ∀ sym ∈ present series symbols, ∀ ts bar,
    (barsOf series sym).get? ts = some bar → bar.Positive
  some : present series symbols ≠ []
  overlap : commonFirst series (present series symbols) ≤ commonLast series (present series symbols)

section Align

variable {series : Dict String Series} {symbols : List String} {timeframe : String} {step : ℤ}

/-- A symbol that is present has its first and its last bar. -/
lemma exists_firstTs {sym : String} (h : sym ∈ present series symbols) :
    (∃ bar, (barsOf series sym).get? (barsOf series sym).firstTs = some bar) ∧
      ∃ bar, (barsOf series sym).get? (barsOf series sym).lastTs = some bar := by
  have hentries : (barsOf series sym).entries ≠ [] := by simpa [present] using List.of_mem_filter h
  have hkeys : (barsOf series sym).keys ≠ [] := by simpa [Dict.keys] using hentries
  constructor
  · cases hmin : (barsOf series sym).keys.min? with
    | none => exact absurd (List.min?_eq_none_iff.mp hmin) hkeys
    | some ts =>
      rw [Series.firstTs, hmin]
      exact Dict.mem_keys_iff.mp (List.min?_mem hmin)
  · cases hmax : (barsOf series sym).keys.max? with
    | none => exact absurd (List.max?_eq_none_iff.mp hmax) hkeys
    | some ts =>
      rw [Series.lastTs, hmax]
      exact Dict.mem_keys_iff.mp (List.max?_mem hmax)

/-- The ends of the grid are timestamps of bars, hence multiples of the step. -/
lemma Alignable.dvd (h : Alignable series symbols step) :
    step ∣ commonFirst series (present series symbols) ∧
      step ∣ commonLast series (present series symbols) := by
  constructor
  · cases hmax : ((present series symbols).map fun s => (barsOf series s).firstTs).max? with
    | none => exact absurd (List.map_eq_nil_iff.mp (List.max?_eq_none_iff.mp hmax)) h.some
    | some ts =>
      obtain ⟨sym, hsym, rfl⟩ := List.mem_map.mp (List.max?_mem hmax)
      obtain ⟨bar, hbar⟩ := (exists_firstTs hsym).1
      rw [commonFirst, hmax]
      exact h.multiples sym hsym _ bar hbar
  · cases hmin : ((present series symbols).map fun s => (barsOf series s).lastTs).min? with
    | none => exact absurd (List.map_eq_nil_iff.mp (List.min?_eq_none_iff.mp hmin)) h.some
    | some ts =>
      obtain ⟨sym, hsym, rfl⟩ := List.mem_map.mp (List.min?_mem hmin)
      obtain ⟨bar, hbar⟩ := (exists_firstTs hsym).2
      rw [commonLast, hmin]
      exact h.multiples sym hsym _ bar hbar

lemma msPerBar_pos (h : msPerBar timeframe = .ok step) : 0 < step := by
  unfold msPerBar at h
  split at h
  · next hstep =>
    cases h
    obtain ⟨before, after, heq, -⟩ := List.lookup_eq_some_iff.mp hstep
    have hmem : ∀ e ∈ [("1h", (3600000 : ℤ)), ("4h", 14400000), ("1d", 86400000)], 0 < e.2 := by
      decide
    exact hmem (timeframe, step) (heq ▸ List.mem_append_right _ List.mem_cons_self)
  · cases h

/-- Symbols that overlap in time are aligned, from the latest first bar to the earliest last one. -/
lemma Alignable.alignToGrid_eq_ok (hstep : msPerBar timeframe = .ok step)
    (h : Alignable series symbols step) :
    alignToGrid series symbols timeframe = .ok (fillGrid series (present series symbols)
      (pyRange (commonFirst series (present series symbols))
        (commonLast series (present series symbols) + step) step)) := by
  rw [alignToGrid, if_neg h.some, hstep]
  show (if _ then _ else _) = _
  rw [if_neg (not_lt.mpr h.overlap)]
  rfl

/-- The columns of a grid are right when the scans of the symbols are. -/
lemma fillGrid_forwardFilled_iff (grid : List ℤ) {kept : List String}
    (hpos : ∀ sym ∈ kept, ∀ ts bar, (barsOf series sym).get? ts = some bar → bar.Positive) :
    ForwardFilled series (fillGrid series kept grid) ↔ ∀ sym ∈ kept,
      List.Forall₂ (Sampled (barsOf series sym).get? fun b => .flat b.c) grid
        (scan (barsOf series sym).get? (fun b => .flat b.c) none grid) := by
  have hprice : ∀ (si : ℕ) (sym : String) (ti : ℕ), kept[si]? = some sym →
      (fillGrid series kept grid).price ti si =
        (fillColumn (barsOf series sym) none grid)[ti]? := by
    intro si sym ti hsi
    simp [fillGrid, Aligned.price, List.getElem?_map, hsi]
  constructor
  · intro hfilled sym hsym
    obtain ⟨si, hsi⟩ := List.mem_iff_getElem?.mp hsym
    refine (fillColumn_isRow_iff grid (hpos sym hsym)).mp fun ti ts hts => ?_
    rw [← hprice si sym ti hsi]
    exact hfilled si sym hsi ti ts hts
  · intro hscans si sym hsi ti ts hts
    have hsym := List.mem_of_getElem? hsi
    rw [hprice si sym ti hsi]
    exact (fillColumn_isRow_iff grid (hpos sym hsym)).mpr (hscans sym hsym) ti ts hts

/-- **Forward filling.** Symbols that overlap in time are aligned, and every row of the result is
right exactly when every kept symbol has a bar of its own at the first grid point. -/
theorem alignToGrid_forwardFilled_iff (series : Dict String Series) (symbols : List String)
    (timeframe : String) (step : ℤ) (hstep : msPerBar timeframe = .ok step)
    (h : Alignable series symbols step) :
    ∃ r, alignToGrid series symbols timeframe = .ok r ∧ r.kept = present series symbols ∧
      (ForwardFilled series r ↔ ∀ sym ∈ present series symbols,
        ((barsOf series sym).get? (commonFirst series (present series symbols))).isSome) := by
  have hpos := msPerBar_pos hstep
  obtain ⟨n, hgrid⟩ := pyRange_eq hpos h.overlap (dvd_sub h.dvd.2 h.dvd.1)
  refine ⟨_, h.alignToGrid_eq_ok hstep, rfl, ?_⟩
  rw [fillGrid_forwardFilled_iff _ h.positive, hgrid]
  refine forall₂_congr fun sym hsym => ?_
  have hquiet := quiet_grid hpos h.dvd.1 (h.multiples sym hsym) n
  rw [List.range_succ_eq_map, List.map_cons, Nat.cast_zero, zero_mul, add_zero] at hquiet ⊢
  exact scan_none_iff (fun _ => rfl) hquiet

end Align

/-! ## A gap at the first grid point -/

instance (b : Bar) : Decidable b.Positive :=
  decidable_of_iff (0 < b.o ∧ 0 < b.h ∧ 0 < b.l ∧ 0 < b.c)
    ⟨fun ⟨ho, hh, hl, hc⟩ => ⟨ho, hh, hl, hc⟩, fun h => ⟨h.o, h.h, h.l, h.c⟩⟩

/-- Being alignable is a condition on the entries. -/
lemma alignable_of_entries {series : Dict String Series} {symbols : List String} {step : ℤ}
    (hentries : ∀ sym ∈ present series symbols, ∀ e ∈ (barsOf series sym).entries,
      step ∣ e.1 ∧ e.2.Positive)
    (hsome : present series symbols ≠ [])
    (hoverlap : commonFirst series (present series symbols) ≤
      commonLast series (present series symbols)) : Alignable series symbols step where
  multiples sym hsym _ _ hbar := (hentries sym hsym _ (Dict.get?_eq_some_iff.mp hbar)).1
  positive sym hsym _ _ hbar := (hentries sym hsym _ (Dict.get?_eq_some_iff.mp hbar)).2
  some := hsome
  overlap := hoverlap

/-- Two hourly histories: `BTC/USD` has a gap at the second hour, and `ETH/USD` starts at
`start`. -/
def gappedHistories (start : ℤ) : Dict String Series :=
  .ofList [("BTC/USD", .ofList [(0, .flat 100), (7200000, .flat 110)]),
    ("ETH/USD", .ofList [(start, .flat 10), (7200000, .flat 11)])]

/-- `ETH/USD` starts in the gap of `BTC/USD`: the first row of `BTC/USD` is zero, although it closed
at `100` an hour before. -/
theorem not_forwardFilled_gap :
    Alignable (gappedHistories 3600000) ["BTC/USD", "ETH/USD"] 3600000 ∧
      ∃ r, alignToGrid (gappedHistories 3600000) ["BTC/USD", "ETH/USD"] "1h" = .ok r ∧
        r.kept = ["BTC/USD", "ETH/USD"] ∧ r.grid = [3600000, 7200000] ∧
        r.price 0 0 = some .zeros ∧ ¬ForwardFilled (gappedHistories 3600000) r := by
  refine ⟨alignable_of_entries (by decide +kernel) (by decide +kernel) (by decide +kernel),
    fillGrid (gappedHistories 3600000) ["BTC/USD", "ETH/USD"] [3600000, 7200000],
    by decide +kernel, rfl, rfl, by decide +kernel, fun hfilled => ?_⟩
  obtain ⟨row, hrow, hne, -⟩ := hfilled 0 "BTC/USD" rfl 0 3600000 rfl
  have hzeros : (fillGrid (gappedHistories 3600000) ["BTC/USD", "ETH/USD"]
      [3600000, 7200000]).price 0 0 = some .zeros := by decide +kernel
  rw [hzeros] at hrow
  exact hne (Option.some.inj hrow).symm

/-- `ETH/USD` starts together with `BTC/USD`: the gap is filled. -/
theorem alignToGrid_forwardFilled_iff_filled :
    ∃ r, alignToGrid (gappedHistories 0) ["BTC/USD", "ETH/USD"] "1h" = .ok r ∧
      ForwardFilled (gappedHistories 0) r := by
  obtain ⟨r, hr, -, hfilled⟩ := alignToGrid_forwardFilled_iff (gappedHistories 0)
    ["BTC/USD", "ETH/USD"] "1h" 3600000 rfl
    (alignable_of_entries (by decide +kernel) (by decide +kernel) (by decide +kernel))
  exact ⟨r, hr, hfilled.mpr (by decide +kernel)⟩

end KeelTrader.Sim
