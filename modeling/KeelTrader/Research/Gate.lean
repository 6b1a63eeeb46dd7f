import KeelTrader.Lib.Median
import KeelTrader.Research.Windows
import Mathlib.Order.WithBot
import Mathlib.Tactic

set_option relaxedAutoImplicit false
set_option autoImplicit false

/-!
# The out-of-sample gate

`_run_cell` and `evaluate` of `research/eval.py`: a policy is run over windows at each slippage,
with two early exits inside a cell and one across cells.

## Main definitions

* `KeelTrader.Research.GateSettings` — the keyword arguments of `evaluate`.
* `KeelTrader.Research.runCell` — the cell of one slippage.
* `KeelTrader.Research.judge` — the verdict over given offsets.
* `KeelTrader.Research.evaluate` — the gate.
* `KeelTrader.Research.medianOver` — the median monthly return over all the offsets.

## Main results

* `KeelTrader.Research.runCell_cases` — how a cell ends, and what each end says about all the
  offsets.
* `KeelTrader.Research.judge_promote_iff` — the plain meaning of a promotion.
* `KeelTrader.Research.judge_failFast` — failing fast changes no decision.
* `KeelTrader.Research.isLeast_worst_iff` — when the reported median is that of the worst cell.

## Implementation notes

A policy is the function from an offset and a slippage to the result of the window: `run_window`
for a deterministic policy. Returns are rationals; the infinite start of the running minimum is
`⊤`. The texts of the reasons are kept as the values that they print.
-/

namespace KeelTrader.Research

/-! ## The gate -/

/-- `WindowResult`. -/
structure WindowResult where
  offset : ℤ
  totalReturn : ℚ
  monthlyReturn : ℚ
  maxDrawdown : ℚ
  numTrades : ℚ
  deriving DecidableEq, Repr

/-- The `fail_reason` of a cell. -/
inductive FailReason
  /-- "window … max_dd … > limit …". -/
  | drawdown (window : ℕ) (maxDrawdown limit : ℚ)
  /-- "median-monthly unreachable: …/… windows >= target after …/… (only … left)". -/
  | unreachable (geCount neededGe done n remaining : ℕ)
  deriving DecidableEq, Repr

/-- `CellResult`. -/
structure CellResult where
  slippageBps : ℚ
  medianMonthly : ℚ
  windowsRun : ℕ
  failedFast : Bool
  failReason : Option FailReason
  results : List WindowResult
  deriving DecidableEq, Repr

/-- The `reason` of a verdict. -/
inductive Reason
  /-- "all slippage cells median monthly >= target …". -/
  | allCells (target : ℚ)
  /-- "fail-fast at slippage …bps: …". -/
  | failFast (slippageBps : ℚ) (reason : Option FailReason)
  /-- "slippage …bps median monthly … < target …". -/
  | belowTarget (slippageBps medianMonthly target : ℚ)
  deriving DecidableEq, Repr

/-- `Verdict`. -/
structure Verdict where
  promote : Bool
  worstCellMedianMonthly : ℚ
  promotionTarget : ℚ
  failedFast : Bool
  reason : Reason
  nWindows : ℕ
  windowSteps : ℕ
  cells : List CellResult
  deriving DecidableEq, Repr

/-- The keyword arguments of `evaluate`. -/
structure GateSettings where
  nWindows : ℕ := 20
  windowSteps : ℕ := 720
  slippagesBps : List ℚ := [0, 10, 20, 30]
  promotionTarget : ℚ := 1 / 10
  failFast : Bool := true
  failFastMaxDd : ℚ := 3 / 10
  seed : ℤ := 0
  offsetLoFrac : ℚ := 0
  offsetHiFrac : ℚ := 1
  deriving DecidableEq, Repr

/-- `_windows_needed_ge`. -/
def windowsNeededGe (n : ℕ) : ℕ := n - n / 2

/-- The early exits of `_run_cell`, after window `i` of `n`. -/
def GateSettings.bail (settings : GateSettings) (n i geCount : ℕ) (wr : WindowResult) :
    Option FailReason :=
  if settings.failFast = false then none
  else if settings.failFastMaxDd < wr.maxDrawdown then
    some (.drawdown i wr.maxDrawdown settings.failFastMaxDd)
  else if geCount + (n - (i + 1)) < windowsNeededGe n then
    some (.unreachable geCount (windowsNeededGe n) (i + 1) n (n - (i + 1)))
  else none

section

variable (runWindow : ℤ → ℚ → WindowResult) (settings : GateSettings)

/-- The loop of `_run_cell` from window `i` of `n` on: the results, and the reason when it
breaks. -/
def cellLoop (slip : ℚ) (n : ℕ) : (i geCount : ℕ) → (offsets : List ℤ) →
    List WindowResult × Option FailReason
  | _, _, [] => ([], none)
  | i, geCount, off :: rest =>
    let wr := runWindow off slip
    let geCount' := if settings.promotionTarget ≤ wr.monthlyReturn then geCount + 1 else geCount
    match settings.bail n i geCount' wr with
    | some reason => ([wr], some reason)
    | none =>
      let tail := cellLoop slip n (i + 1) geCount' rest
      (wr :: tail.1, tail.2)

/-- `_run_cell`. -/
def runCell (offsets : List ℤ) (slip : ℚ) : CellResult :=
  let loop := cellLoop runWindow settings slip offsets.length 0 0 offsets
  { slippageBps := slip
    medianMonthly := if loop.1.isEmpty then 0 else median (loop.1.map (·.monthlyReturn))
    windowsRun := loop.1.length
    failedFast := loop.2.isSome
    failReason := loop.2
    results := loop.1 }

/-- The variables of the loop of `evaluate`, when it ends. -/
structure Sweep where
  promote : Bool
  worstMedian : WithTop ℚ
  failedFast : Bool
  reason : Reason
  cells : List CellResult

/-- The loop of `evaluate` over the slippages. -/
def sweep (offsets : List ℤ) : (worstMedian : WithTop ℚ) → (cells : List CellResult) →
    (slippagesBps : List ℚ) → Sweep
  | worst, cells, [] => ⟨true, worst, false, .allCells settings.promotionTarget, cells⟩
  | worst, cells, slip :: rest =>
    let cell := runCell runWindow settings offsets slip
    let cells' := cells ++ [cell]
    let worst' := min worst (cell.medianMonthly : WithTop ℚ)
    if cell.failedFast = true then
      ⟨false, worst', true, .failFast slip cell.failReason, cells'⟩
    else if cell.medianMonthly < settings.promotionTarget then
      ⟨false, worst', false, .belowTarget slip cell.medianMonthly settings.promotionTarget, cells'⟩
    else sweep offsets worst' cells' rest

/-- `evaluate`, once the offsets are generated. -/
def judge (offsets : List ℤ) : Verdict :=
  let result := sweep runWindow settings offsets ⊤ [] settings.slippagesBps
  { promote := result.promote
    worstCellMedianMonthly := result.worstMedian.untopD 0
    promotionTarget := settings.promotionTarget
    failedFast := result.failedFast
    reason := result.reason
    nWindows := settings.nWindows
    windowSteps := settings.windowSteps
    cells := result.cells }

/-- `evaluate`. -/
def evaluate (rng : Rng) (numTimesteps : ℕ) : Except WindowTooLarge Verdict := do
  let offsets ← generateOffsets rng numTimesteps settings.nWindows settings.windowSteps
    settings.seed settings.offsetLoFrac settings.offsetHiFrac
  return judge runWindow settings offsets

/-! ## What a cell says -/

/-- The median monthly return over all the offsets, `0` when there are none. -/
def medianOver (offsets : List ℤ) (slip : ℚ) : ℚ :=
  if offsets.isEmpty then 0 else median (offsets.map fun off => (runWindow off slip).monthlyReturn)

/-- No window breaches the drawdown limit. -/
def WithinLimit (offsets : List ℤ) (slip : ℚ) : Prop :=
  ∀ off ∈ offsets, (runWindow off slip).maxDrawdown ≤ settings.failFastMaxDd

instance (offsets : List ℤ) (slip : ℚ) : Decidable (WithinLimit runWindow settings offsets slip) :=
  inferInstanceAs (Decidable (∀ off ∈ offsets, _))

end

section Cells

variable {runWindow : ℤ → ℚ → WindowResult} {settings : GateSettings} {slip : ℚ}
  {offsets offsets' : List ℤ}

/-- The order of the offsets does not matter to the median. -/
lemma medianOver_perm (h : offsets.Perm offsets') (slip : ℚ) :
    medianOver runWindow offsets slip = medianOver runWindow offsets' slip := by
  have hempty : offsets.isEmpty = offsets'.isEmpty := by
    rw [Bool.eq_iff_iff, List.isEmpty_iff, List.isEmpty_iff]
    exact ⟨fun hnil => (hnil ▸ h).nil_eq.symm, fun hnil => (hnil ▸ h).eq_nil⟩
  simp only [medianOver, hempty]
  rw [median_perm (h.map fun off => (runWindow off slip).monthlyReturn)]

/-- When the median is out of reach, it is below the target. -/
lemma medianOver_lt_of_count
    (h : offsets.countP (fun off => decide (settings.promotionTarget ≤
      (runWindow off slip).monthlyReturn)) < windowsNeededGe offsets.length) :
    medianOver runWindow offsets slip < settings.promotionTarget := by
  have hne : offsets.isEmpty = false := by
    cases offsets with
    | nil => simp [windowsNeededGe] at h
    | cons off rest => rfl
  simp only [medianOver, hne]
  apply median_lt_of_countP
  rw [List.countP_map, List.length_map]
  exact h

/-- How `bail` decides. -/
lemma bail_cases (settings : GateSettings) (n i geCount : ℕ) (wr : WindowResult) :
    (settings.bail n i geCount wr = none ∧
      (settings.failFast = true → wr.maxDrawdown ≤ settings.failFastMaxDd)) ∨
    (settings.failFast = true ∧ settings.failFastMaxDd < wr.maxDrawdown ∧
      settings.bail n i geCount wr =
        some (.drawdown i wr.maxDrawdown settings.failFastMaxDd)) ∨
    (settings.failFast = true ∧ geCount + (n - (i + 1)) < windowsNeededGe n ∧
      settings.bail n i geCount wr =
        some (.unreachable geCount (windowsNeededGe n) (i + 1) n (n - (i + 1)))) := by
  unfold GateSettings.bail
  cases hff : settings.failFast with
  | false => simp
  | true =>
    by_cases hdd : settings.failFastMaxDd < wr.maxDrawdown
    · simp [hdd]
    · by_cases hreach : geCount + (n - (i + 1)) < windowsNeededGe n
      · simp [hdd, hreach]
      · simp [hdd, hreach, not_lt.mp hdd]

/-- How the loop of a cell ends: it ran every window; or a window breached the limit; or too
many windows missed the target for the rest to make up for. -/
lemma cellLoop_cases (runWindow : ℤ → ℚ → WindowResult) (settings : GateSettings) (slip : ℚ)
    (n : ℕ) (offsets : List ℤ) (i geCount : ℕ) (hn : i + offsets.length = n) :
    (cellLoop runWindow settings slip n i geCount offsets =
        (offsets.map (runWindow · slip), none) ∧
      (settings.failFast = true → WithinLimit runWindow settings offsets slip)) ∨
    (settings.failFast = true ∧ ¬WithinLimit runWindow settings offsets slip ∧
      ∃ j dd limit, (cellLoop runWindow settings slip n i geCount offsets).2 =
        some (.drawdown j dd limit)) ∨
    (settings.failFast = true ∧
      geCount + offsets.countP (fun off => decide (settings.promotionTarget ≤
        (runWindow off slip).monthlyReturn)) < windowsNeededGe n ∧
      ∃ ge needed done m left, (cellLoop runWindow settings slip n i geCount offsets).2 =
        some (.unreachable ge needed done m left)) := by
  induction offsets generalizing i geCount with
  | nil => exact Or.inl ⟨rfl, fun _ _ h => absurd h List.not_mem_nil⟩
  | cons off rest ih =>
    obtain ⟨ge', hge'⟩ : ∃ ge', ge' = if settings.promotionTarget ≤
      (runWindow off slip).monthlyReturn then geCount + 1 else geCount := ⟨_, rfl⟩
    -- counting this window now or with the rest is the same
    have hcount : geCount + (off :: rest).countP (fun off => decide (settings.promotionTarget ≤
        (runWindow off slip).monthlyReturn)) = ge' + rest.countP (fun off => decide
          (settings.promotionTarget ≤ (runWindow off slip).monthlyReturn)) := by
      rw [List.countP_cons, hge']
      by_cases htarget : settings.promotionTarget ≤ (runWindow off slip).monthlyReturn
      · simp only [htarget, decide_true, if_true]
        omega
      · simp only [htarget, decide_false, if_false, Bool.false_eq_true]
        omega
    have hle := List.countP_le_length (l := rest) (p := fun off => decide
      (settings.promotionTarget ≤ (runWindow off slip).monthlyReturn))
    simp only [List.length_cons] at hn
    rw [hcount]
    simp only [cellLoop, ← hge']
    rcases bail_cases settings n i ge' (runWindow off slip) with
      ⟨hbail, hdd⟩ | ⟨hff, hdd, hbail⟩ | ⟨hff, hreach, hbail⟩
    · rw [hbail]
      rcases ih (i + 1) ge' (by omega) with ⟨hloop, hwithin⟩ | ⟨hff, hnot, hloop⟩ | hunreachable
      · rw [hloop]
        exact Or.inl ⟨rfl, fun hff => List.forall_mem_cons.mpr ⟨hdd hff, hwithin hff⟩⟩
      · exact Or.inr (Or.inl ⟨hff, fun h => hnot (List.forall_mem_cons.mp h).2, hloop⟩)
      · exact Or.inr (Or.inr hunreachable)
    · rw [hbail]
      exact Or.inr (Or.inl ⟨hff, fun h => absurd (List.forall_mem_cons.mp h).1 (not_le.mpr hdd),
        _, _, _, rfl⟩)
    · rw [hbail]
      exact Or.inr (Or.inr ⟨hff, by omega, _, _, _, _, _, rfl⟩)

/-- How a cell ends. -/
theorem runCell_cases (runWindow : ℤ → ℚ → WindowResult) (settings : GateSettings)
    (offsets : List ℤ) (slip : ℚ) :
    ((runCell runWindow settings offsets slip).failedFast = false ∧
      (runCell runWindow settings offsets slip).medianMonthly =
        medianOver runWindow offsets slip ∧
      (settings.failFast = true → WithinLimit runWindow settings offsets slip)) ∨
    (settings.failFast = true ∧ ¬WithinLimit runWindow settings offsets slip ∧
      (runCell runWindow settings offsets slip).failedFast = true ∧
      ∃ j dd limit, (runCell runWindow settings offsets slip).failReason =
        some (.drawdown j dd limit)) ∨
    (settings.failFast = true ∧
      medianOver runWindow offsets slip < settings.promotionTarget ∧
      (runCell runWindow settings offsets slip).failedFast = true) := by
  rcases cellLoop_cases runWindow settings slip offsets.length offsets 0 0 (by omega) with
    ⟨hloop, hwithin⟩ | ⟨hff, hnot, j, dd, limit, hloop⟩ | ⟨hff, hcount, _, _, _, _, _, hloop⟩
  · refine Or.inl ⟨by simp [runCell, hloop], ?_, hwithin⟩
    simp only [runCell, hloop, medianOver, List.isEmpty_map, List.map_map]
    rfl
  · exact Or.inr (Or.inl ⟨hff, hnot, by simp [runCell, hloop], j, dd, limit, hloop⟩)
  · rw [Nat.zero_add] at hcount
    exact Or.inr (Or.inr ⟨hff, medianOver_lt_of_count hcount, by simp [runCell, hloop]⟩)

end Cells

/-! ## What a verdict says -/

section Verdicts

variable (runWindow : ℤ → ℚ → WindowResult) (settings : GateSettings)

/-- What a promotion asks of one slippage. -/
def Passes (offsets : List ℤ) (slip : ℚ) : Prop :=
  (settings.failFast = true → WithinLimit runWindow settings offsets slip) ∧
    settings.promotionTarget ≤ medianOver runWindow offsets slip

variable {runWindow settings} {offsets : List ℤ} {slip : ℚ}

/-- The running minimum over a part of the slippages. -/
def worstOver (runWindow : ℤ → ℚ → WindowResult) (offsets : List ℤ) (worst : WithTop ℚ)
    (slippages : List ℚ) : WithTop ℚ :=
  slippages.foldl (fun w slip => min w (medianOver runWindow offsets slip : WithTop ℚ)) worst

/-- The loop goes on after a cell that passes. -/
lemma sweep_cons_of_passes (h : Passes runWindow settings offsets slip) (worst : WithTop ℚ)
    (cells : List CellResult) (rest : List ℚ) :
    sweep runWindow settings offsets worst cells (slip :: rest) =
      sweep runWindow settings offsets (min worst (medianOver runWindow offsets slip : WithTop ℚ))
        (cells ++ [runCell runWindow settings offsets slip]) rest := by
  obtain ⟨hwithin, htarget⟩ := h
  rcases runCell_cases runWindow settings offsets slip with
    ⟨hpassed, hmedian, -⟩ | ⟨hff, hnot, -⟩ | ⟨-, hlt, -⟩
  · simp only [sweep, hpassed, hmedian, Bool.false_eq_true, if_false, if_neg (not_lt.mpr htarget)]
  · exact absurd (hwithin hff) hnot
  · exact absurd htarget (not_le.mpr hlt)

/-- The loop stops at the first cell that does not pass. -/
lemma sweep_cons_of_not_passes (h : ¬Passes runWindow settings offsets slip)
    (worst : WithTop ℚ) (cells : List CellResult) (rest : List ℚ) :
    (sweep runWindow settings offsets worst cells (slip :: rest)).promote = false := by
  rcases runCell_cases runWindow settings offsets slip with
    ⟨hpassed, hmedian, hwithin⟩ | ⟨-, -, hfailed, -⟩ | ⟨-, -, hfailed⟩
  · have hlt : medianOver runWindow offsets slip < settings.promotionTarget :=
      not_le.mp fun htarget => h ⟨hwithin, htarget⟩
    simp only [sweep, hpassed, hmedian, Bool.false_eq_true, if_false, if_pos hlt]
  · simp only [sweep, hfailed, if_true]
  · simp only [sweep, hfailed, if_true]

/-- The loop over cells that all pass. -/
lemma sweep_append_of_passes {before : List ℚ}
    (h : ∀ slip ∈ before, Passes runWindow settings offsets slip) (worst : WithTop ℚ)
    (cells : List CellResult) (rest : List ℚ) :
    sweep runWindow settings offsets worst cells (before ++ rest) =
      sweep runWindow settings offsets (worstOver runWindow offsets worst before)
        (cells ++ before.map (runCell runWindow settings offsets)) rest := by
  induction before generalizing worst cells with
  | nil => simp [worstOver]
  | cons slip before ih =>
    obtain ⟨hslip, hbefore⟩ := List.forall_mem_cons.mp h
    rw [List.cons_append, sweep_cons_of_passes hslip, ih hbefore]
    simp [worstOver]

/-- Every list of slippages passes, or has a first one that does not. -/
lemma passes_or_first (runWindow : ℤ → ℚ → WindowResult) (settings : GateSettings)
    (offsets : List ℤ) (slippages : List ℚ) :
    (∀ slip ∈ slippages, Passes runWindow settings offsets slip) ∨
      ∃ before slip after, slippages = before ++ slip :: after ∧
        (∀ slip' ∈ before, Passes runWindow settings offsets slip') ∧
        ¬Passes runWindow settings offsets slip := by
  induction slippages with
  | nil => exact Or.inl fun _ h => absurd h List.not_mem_nil
  | cons slip rest ih =>
    by_cases hslip : Passes runWindow settings offsets slip
    · rcases ih with hrest | ⟨before, failing, after, rfl, hbefore, hfailing⟩
      · exact Or.inl (List.forall_mem_cons.mpr ⟨hslip, hrest⟩)
      · exact Or.inr ⟨slip :: before, failing, after, rfl,
          List.forall_mem_cons.mpr ⟨hslip, hbefore⟩, hfailing⟩
    · exact Or.inr ⟨[], slip, rest, rfl, fun _ h => absurd h List.not_mem_nil, hslip⟩

/-- **A promotion.** The gate promotes if and only if at every slippage the median over all the
offsets reaches the target and, when it fails fast, no window breaches the drawdown limit. -/
theorem judge_promote_iff (runWindow : ℤ → ℚ → WindowResult) (settings : GateSettings)
    (offsets : List ℤ) :
    (judge runWindow settings offsets).promote = true ↔
      ∀ slip ∈ settings.slippagesBps, Passes runWindow settings offsets slip := by
  show (sweep runWindow settings offsets ⊤ [] settings.slippagesBps).promote = true ↔ _
  rcases passes_or_first runWindow settings offsets settings.slippagesBps with
    hall | ⟨before, slip, after, hsplit, hbefore, hslip⟩
  · have hsweep := sweep_append_of_passes hall ⊤ [] []
    rw [List.append_nil] at hsweep
    rw [hsweep]
    exact ⟨fun _ => hall, fun _ => rfl⟩
  · rw [hsplit, sweep_append_of_passes hbefore, sweep_cons_of_not_passes hslip]
    refine ⟨fun h => absurd h Bool.false_ne_true,
      fun h => absurd (h slip ?_) hslip⟩
    exact List.mem_append_right _ List.mem_cons_self

/-- A verdict that says the median is out of reach is about a slippage whose median is below the
target. -/
lemma sweep_unreachable {slippages : List ℚ} {ge needed done n left : ℕ} (worst : WithTop ℚ)
    (cells : List CellResult)
    (h : (sweep runWindow settings offsets worst cells slippages).reason =
      .failFast slip (some (.unreachable ge needed done n left))) :
    ∃ slip' ∈ slippages, medianOver runWindow offsets slip' < settings.promotionTarget := by
  induction slippages generalizing worst cells with
  | nil => simp [sweep] at h
  | cons slip' rest ih =>
    by_cases hlt : medianOver runWindow offsets slip' < settings.promotionTarget
    · exact ⟨slip', List.mem_cons_self, hlt⟩
    · rcases runCell_cases runWindow settings offsets slip' with
        ⟨hpassed, hmedian, hwithin⟩ | ⟨-, -, hfailed, j, dd, limit, hreason⟩ | ⟨-, hlt', -⟩
      · rw [sweep_cons_of_passes ⟨hwithin, not_lt.mp hlt⟩] at h
        obtain ⟨slip'', hmem, hbelow⟩ := ih _ _ h
        exact ⟨slip'', List.mem_cons_of_mem _ hmem, hbelow⟩
      · simp [sweep, hfailed, hreason] at h
      · exact absurd hlt' hlt

/-- **Failing fast changes no decision.** With both early exits, a promotion means that at every
slippage no window over all the offsets breaches the drawdown limit and the median over all the
offsets reaches the target. So a policy rejected because its median is out of reach is rejected
by the full evaluation, failing fast adds the drawdown limit and nothing else, and neither the
order of the offsets nor that of the slippages matters. -/
theorem judge_failFast (runWindow : ℤ → ℚ → WindowResult) (settings : GateSettings)
    (offsets : List ℤ) :
    ((judge runWindow { settings with failFast := true } offsets).promote = true ↔
      ∀ slip ∈ settings.slippagesBps,
        (∀ off ∈ offsets, (runWindow off slip).maxDrawdown ≤ settings.failFastMaxDd) ∧
          settings.promotionTarget ≤ medianOver runWindow offsets slip) ∧
    (∀ slip ge needed done n left,
      (judge runWindow { settings with failFast := true } offsets).reason =
        .failFast slip (some (.unreachable ge needed done n left)) →
      (judge runWindow { settings with failFast := false } offsets).promote = false) ∧
    (judge runWindow { settings with failFast := true } offsets).promote =
      ((judge runWindow { settings with failFast := false } offsets).promote &&
        decide (∀ slip ∈ settings.slippagesBps, ∀ off ∈ offsets,
          (runWindow off slip).maxDrawdown ≤ settings.failFastMaxDd)) ∧
    (∀ offsets' slippages', offsets.Perm offsets' → settings.slippagesBps.Perm slippages' →
      (judge runWindow { settings with slippagesBps := slippages' } offsets').promote =
        (judge runWindow settings offsets).promote) := by
  have hfull : (judge runWindow { settings with failFast := false } offsets).promote = true ↔
      ∀ slip ∈ settings.slippagesBps,
        settings.promotionTarget ≤ medianOver runWindow offsets slip := by
    rw [judge_promote_iff]
    simp [Passes]
  have hfast : (judge runWindow { settings with failFast := true } offsets).promote = true ↔
      ∀ slip ∈ settings.slippagesBps,
        (∀ off ∈ offsets, (runWindow off slip).maxDrawdown ≤ settings.failFastMaxDd) ∧
          settings.promotionTarget ≤ medianOver runWindow offsets slip := by
    rw [judge_promote_iff]
    simp [Passes, WithinLimit]
  refine ⟨hfast, ?_, ?_, ?_⟩
  · intro slip ge needed done n left hreason
    obtain ⟨slip', hmem, hlt⟩ := sweep_unreachable _ _ hreason
    rw [Bool.eq_false_iff]
    intro hpromote
    exact absurd (hfull.mp hpromote slip' hmem) (not_le.mpr hlt)
  · rw [Bool.eq_iff_iff, Bool.and_eq_true, decide_eq_true_iff, hfast, hfull]
    constructor
    · exact fun h => ⟨fun slip hs => (h slip hs).2, fun slip hs => (h slip hs).1⟩
    · exact fun h slip hs => ⟨h.2 slip hs, h.1 slip hs⟩
  · intro offsets' slippages' hoffsets hslippages
    rw [Bool.eq_iff_iff, judge_promote_iff, judge_promote_iff]
    refine forall_congr' fun slip => ?_
    simp only [Passes, WithinLimit, hslippages.mem_iff, hoffsets.mem_iff,
      medianOver_perm hoffsets]

end Verdicts

/-! ## The worst cell -/

section Worst

variable {runWindow : ℤ → ℚ → WindowResult} {settings : GateSettings} {offsets : List ℤ}

/-- The running minimum is the least of its start and of the medians. -/
lemma le_worstOver_iff {x worst : WithTop ℚ} {slippages : List ℚ} :
    x ≤ worstOver runWindow offsets worst slippages ↔
      x ≤ worst ∧ ∀ slip ∈ slippages, x ≤ (medianOver runWindow offsets slip : WithTop ℚ) := by
  induction slippages generalizing worst with
  | nil => simp [worstOver]
  | cons slip rest ih =>
    show x ≤ worstOver runWindow offsets (min worst _) rest ↔ _
    rw [ih, le_min_iff, List.forall_mem_cons, and_assoc]

/-- The running minimum is its start or one of the medians. -/
lemma worstOver_mem (runWindow : ℤ → ℚ → WindowResult) (offsets : List ℤ)
    (worst : WithTop ℚ) (slippages : List ℚ) :
    worstOver runWindow offsets worst slippages = worst ∨ ∃ slip ∈ slippages,
      worstOver runWindow offsets worst slippages = (medianOver runWindow offsets slip : ℚ) := by
  induction slippages generalizing worst with
  | nil => exact Or.inl rfl
  | cons slip rest ih =>
    show worstOver runWindow offsets (min worst _) rest = worst ∨ ∃ slip' ∈ slip :: rest,
      worstOver runWindow offsets (min worst _) rest = _
    rcases ih (min worst (medianOver runWindow offsets slip : WithTop ℚ)) with h | ⟨s, hs, h⟩
    · rcases min_choice worst (medianOver runWindow offsets slip : WithTop ℚ) with hmin | hmin
      · exact Or.inl (h.trans hmin)
      · exact Or.inr ⟨slip, List.mem_cons_self, h.trans hmin⟩
    · exact Or.inr ⟨s, List.mem_cons_of_mem _ hs, h⟩

/-- Without failing fast a slippage passes when its median reaches the target. -/
lemma passes_iff_of_full (h : settings.failFast = false) (slip : ℚ) :
    Passes runWindow settings offsets slip ↔
      settings.promotionTarget ≤ medianOver runWindow offsets slip := by
  simp [Passes, h]

/-- When every slippage passes, the reported median is the least one. -/
lemma isLeast_worst_of_passes (hslippages : settings.slippagesBps ≠ [])
    (h : ∀ slip ∈ settings.slippagesBps, Passes runWindow settings offsets slip) :
    IsLeast (medianOver runWindow offsets '' {slip | slip ∈ settings.slippagesBps})
      (judge runWindow settings offsets).worstCellMedianMonthly := by
  have hsweep := sweep_append_of_passes h ⊤ [] []
  rw [List.append_nil] at hsweep
  have hworst : (judge runWindow settings offsets).worstCellMedianMonthly =
      (worstOver runWindow offsets ⊤ settings.slippagesBps).untopD 0 := by
    simp only [judge, hsweep, sweep]
  rcases worstOver_mem runWindow offsets ⊤ settings.slippagesBps with
    htop | ⟨slip, hslip, hmedian⟩
  · -- a slippage has a median, and the minimum is at most that
    obtain ⟨slip, hslip⟩ := List.exists_mem_of_ne_nil _ hslippages
    have hle := (le_worstOver_iff.mp (le_of_eq htop.symm)).2 slip hslip
    exact absurd (top_le_iff.mp hle) (WithTop.coe_ne_top)
  · rw [hworst, hmedian, WithTop.untopD_coe]
    refine ⟨⟨slip, hslip, rfl⟩, ?_⟩
    rintro _ ⟨slip', hslip', rfl⟩
    exact WithTop.coe_le_coe.mp ((le_worstOver_iff.mp (le_of_eq hmedian.symm)).2 slip' hslip')

/-- When a cell is below the target, the reported median is that of the first such cell. -/
lemma worst_of_first (hfull : settings.failFast = false) {before after : List ℚ} {slip : ℚ}
    (hsplit : settings.slippagesBps = before ++ slip :: after)
    (hbefore : ∀ slip' ∈ before, settings.promotionTarget ≤ medianOver runWindow offsets slip')
    (hslip : medianOver runWindow offsets slip < settings.promotionTarget) :
    (judge runWindow settings offsets).worstCellMedianMonthly =
      medianOver runWindow offsets slip := by
  have hpasses : ∀ slip' ∈ before, Passes runWindow settings offsets slip' :=
    fun slip' h => (passes_iff_of_full hfull slip').mpr (hbefore slip' h)
  have hmin : min (worstOver runWindow offsets ⊤ before)
      (medianOver runWindow offsets slip : WithTop ℚ) = medianOver runWindow offsets slip := by
    refine min_eq_right (le_worstOver_iff.mpr ⟨le_top, fun slip' h => ?_⟩)
    exact WithTop.coe_le_coe.mpr (hslip.le.trans (hbefore slip' h))
  have hsweep : (sweep runWindow settings offsets ⊤ [] settings.slippagesBps).worstMedian =
      medianOver runWindow offsets slip := by
    rw [hsplit, sweep_append_of_passes hpasses]
    rcases runCell_cases runWindow settings offsets slip with
      ⟨hpassed, hmedian, -⟩ | ⟨hff, -⟩ | ⟨hff, -⟩
    · simp only [sweep, hpassed, hmedian, Bool.false_eq_true, if_false, if_pos hslip, hmin]
    · exact absurd hff (by simp [hfull])
    · exact absurd hff (by simp [hfull])
  simp only [judge, hsweep, WithTop.untopD_coe]

/-- **When the reported cell is the worst cell.** Without failing fast, the reported median is
the least over every slippage if and only if no slippage after the first one below the target
has a lower median than that one. -/
theorem isLeast_worst_iff (runWindow : ℤ → ℚ → WindowResult) (settings : GateSettings)
    (offsets : List ℤ) (hfull : settings.failFast = false)
    (hslippages : settings.slippagesBps ≠ []) :
    IsLeast (medianOver runWindow offsets '' {slip | slip ∈ settings.slippagesBps})
        (judge runWindow settings offsets).worstCellMedianMonthly ↔
      ∀ before slip after, settings.slippagesBps = before ++ slip :: after →
        (∀ slip' ∈ before, settings.promotionTarget ≤ medianOver runWindow offsets slip') →
        medianOver runWindow offsets slip < settings.promotionTarget →
        ∀ slip' ∈ after,
          medianOver runWindow offsets slip ≤ medianOver runWindow offsets slip' := by
  constructor
  · intro hleast before slip after hsplit hbefore hslip slip' hslip'
    rw [worst_of_first hfull hsplit hbefore hslip] at hleast
    refine hleast.2 ⟨slip', ?_, rfl⟩
    show slip' ∈ settings.slippagesBps
    rw [hsplit]
    exact List.mem_append_right _ (List.mem_cons_of_mem _ hslip')
  · intro hfirst
    rcases passes_or_first runWindow settings offsets settings.slippagesBps with
      hall | ⟨before, slip, after, hsplit, hbefore, hslip⟩
    · exact isLeast_worst_of_passes hslippages hall
    · have hbefore' : ∀ slip' ∈ before,
          settings.promotionTarget ≤ medianOver runWindow offsets slip' :=
        fun slip' h => (passes_iff_of_full hfull slip').mp (hbefore slip' h)
      have hslip' : medianOver runWindow offsets slip < settings.promotionTarget :=
        not_le.mp fun h => hslip ((passes_iff_of_full hfull slip).mpr h)
      rw [worst_of_first hfull hsplit hbefore' hslip', hsplit]
      refine ⟨⟨slip, List.mem_append_right _ List.mem_cons_self, rfl⟩, ?_⟩
      rintro _ ⟨other, hother, rfl⟩
      rcases List.mem_append.mp hother with h | h
      · exact hslip'.le.trans (hbefore' other h)
      · rcases List.mem_cons.mp h with rfl | h
        · exact le_rfl
        · exact hfirst before slip after hsplit hbefore' hslip' other h

/-- A policy that returns 5% a month without slippage and loses a point for every 10 bps. -/
def declining (off : ℤ) (slip : ℚ) : WindowResult :=
  let monthly := 1 / 20 - slip / 1000
  ⟨off, monthly / (730 / 720), monthly, 0, 1⟩

/-- At the default slippages the best cell of the declining policy is reported, not the worst. -/
theorem not_isLeast_worst_declining :
    ¬IsLeast (medianOver declining [0] '' {slip | slip ∈ ({} : GateSettings).slippagesBps})
      (judge declining { failFast := false } [0]).worstCellMedianMonthly := by
  intro h
  have hle := h.2 ⟨30, by decide +kernel, rfl⟩
  exact absurd hle (by decide +kernel)

/-- With nothing to reach, the default slippages all pass, and the last one is reported. -/
theorem isLeast_worst_declining :
    let settings : GateSettings := { failFast := false, promotionTarget := 0 }
    settings.slippagesBps = [0, 10, 20, 30] ∧
      (judge declining settings [0]).worstCellMedianMonthly = 2 / 100 ∧
      IsLeast (medianOver declining [0] '' {slip | slip ∈ settings.slippagesBps})
        (judge declining settings [0]).worstCellMedianMonthly := by
  intro settings
  have hpasses : ∀ slip ∈ settings.slippagesBps, ¬medianOver declining [0] slip < 0 := by
    decide +kernel
  refine ⟨rfl, by decide +kernel, ?_⟩
  refine (isLeast_worst_iff declining settings [0] rfl (by decide)).mpr ?_
  intro before slip after hsplit _ hslip
  have hmem : slip ∈ settings.slippagesBps := by
    rw [hsplit]
    exact List.mem_append_right _ List.mem_cons_self
  exact absurd hslip (hpasses slip hmem)

end Worst

end KeelTrader.Research
