import KeelTrader.Lib.FixedPoint
import KeelTrader.Lib.JoinedNames
import KeelTrader.Lib.TopK
import KeelTrader.Models.Strategy
import KeelTrader.Research.Gate

set_option relaxedAutoImplicit false
set_option autoImplicit false

/-!
# The search for strategies

`research/autoresearch.py`: preset configurations are expanded over a grid, each is judged by the
gate on a train split and on an unseen split, and the trials are ranked by a score that penalizes
overfitting.

## Main definitions

* `KeelTrader.Research.TrialConfig`, `KeelTrader.Research.mutationGrid` — the configurations.
* `KeelTrader.Research.generalizationScore` — the score.
* `KeelTrader.Research.runTrial` — a trial of one configuration.
* `KeelTrader.Research.ranked` — the ranking.
* `KeelTrader.Research.Judged` — what the result of a trial says about the unseen split.

## Main results

* `KeelTrader.Research.mutationGrid_names` — every configuration of a grid has a name of its own.
* `KeelTrader.Research.runTrial_judged` — a trial is promoted exactly when the gate clears on the
  unseen split, and its score is never above its median there.
* `KeelTrader.Research.ranked_spec` — the ranking.

## Implementation notes

The windows of a strategy are a function from its settings, an offset and a slippage. The texts of
floats are a parameter. The values of a grid have the types that the fields declare, and the value
of a name that is no field is its text.
-/

namespace KeelTrader.Research

open Models

/-! ## Configurations -/

/-- `TrialConfig`. -/
structure TrialConfig where
  name : String
  convictionThreshold : ℚ := 0
  grossExposure : ℚ := 1
  maxPositionWeight : ℚ := 34 / 100
  maxPositions : ℤ := 5
  deriving DecidableEq, Repr

/-- `TrialConfig.to_strategy`. -/
def TrialConfig.toStrategy (config : TrialConfig) : StrategyConfig :=
  { convictionThreshold := config.convictionThreshold
    grossExposure := config.grossExposure
    maxPositionWeight := config.maxPositionWeight
    maxPositions := config.maxPositions }

/-- A number of a dictionary of parameters. -/
inductive Scalar
  | float (x : ℚ)
  | int (n : ℤ)
  deriving DecidableEq, Repr

/-- The text of a number. -/
def Scalar.text (repr : ℚ → String) : Scalar → String
  | .float x => repr x
  | .int n => toString n

/-- `TrialConfig.params`. -/
def TrialConfig.params (config : TrialConfig) : List (String × Scalar) :=
  [("conviction_threshold", .float config.convictionThreshold),
    ("gross_exposure", .float config.grossExposure),
    ("max_position_weight", .float config.maxPositionWeight),
    ("max_positions", .int config.maxPositions)]

/-- `preset_pool`. -/
def presetPool : List TrialConfig :=
  [{ name := "baseline", convictionThreshold := 0, grossExposure := 1 },
    { name := "selective", convictionThreshold := 2 / 1000, grossExposure := 8 / 10 },
    { name := "concentrated", maxPositionWeight := 5 / 10, maxPositions := 2 }]

/-- One entry of a grid: a name and the values that it takes. -/
inductive Axis
  | convictionThreshold (values : List ℚ)
  | grossExposure (values : List ℚ)
  | maxPositionWeight (values : List ℚ)
  | maxPositions (values : List ℤ)
  | other (key : String) (values : List String)
  deriving DecidableEq, Repr

/-- One name and the value that it takes in a combination. -/
inductive Override
  | convictionThreshold (x : ℚ)
  | grossExposure (x : ℚ)
  | maxPositionWeight (x : ℚ)
  | maxPositions (n : ℤ)
  | other (key : String) (value : String)
  deriving DecidableEq, Repr

namespace Override

/-- The name of an override. -/
def key : Override → String
  | convictionThreshold _ => "conviction_threshold"
  | grossExposure _ => "gross_exposure"
  | maxPositionWeight _ => "max_position_weight"
  | maxPositions _ => "max_positions"
  | other key _ => key

/-- The text of its value. -/
def value (repr : ℚ → String) : Override → String
  | convictionThreshold x | grossExposure x | maxPositionWeight x => repr x
  | maxPositions n => toString n
  | other _ value => value

/-- The override, if it is one of the conviction threshold. -/
def convictionThreshold? : Override → Option ℚ
  | convictionThreshold x => some x
  | _ => none

/-- The override, if it is one of the gross exposure. -/
def grossExposure? : Override → Option ℚ
  | grossExposure x => some x
  | _ => none

/-- The override, if it is one of the position weight. -/
def maxPositionWeight? : Override → Option ℚ
  | maxPositionWeight x => some x
  | _ => none

/-- The override, if it is one of the number of positions. -/
def maxPositions? : Override → Option ℤ
  | maxPositions n => some n
  | _ => none

end Override

/-- The name of an entry of a grid. -/
def Axis.key : Axis → String
  | convictionThreshold _ => "conviction_threshold"
  | grossExposure _ => "gross_exposure"
  | maxPositionWeight _ => "max_position_weight"
  | maxPositions _ => "max_positions"
  | other key _ => key

/-- The overrides of one entry of a grid. -/
def Axis.overrides : Axis → List Override
  | convictionThreshold values => values.map .convictionThreshold
  | grossExposure values => values.map .grossExposure
  | maxPositionWeight values => values.map .maxPositionWeight
  | maxPositions values => values.map .maxPositions
  | other key values => values.map (.other key)

/-- The suffix of the name that a combination gives. -/
def suffix (repr : ℚ → String) (combo : List Override) : String :=
  "_".intercalate (combo.map fun o => o.key ++ o.value repr)

/-- The configuration of a combination over a preset. -/
def TrialConfig.mutate (repr : ℚ → String) (preset : TrialConfig) (combo : List Override) :
    TrialConfig :=
  { name := preset.name ++ "__" ++ suffix repr combo
    convictionThreshold :=
      (combo.findSome? Override.convictionThreshold?).getD preset.convictionThreshold
    grossExposure := (combo.findSome? Override.grossExposure?).getD preset.grossExposure
    maxPositionWeight := (combo.findSome? Override.maxPositionWeight?).getD preset.maxPositionWeight
    maxPositions := (combo.findSome? Override.maxPositions?).getD preset.maxPositions }

/-- `mutation_grid`. -/
def mutationGrid (repr : ℚ → String) (presets : List TrialConfig) (grid : List Axis) :
    List TrialConfig :=
  if grid.isEmpty then presets
  else presets.flatMap fun preset =>
    (product (grid.map Axis.overrides)).map (preset.mutate repr)

/-! ## Trials -/

/-- `TrialResult`. -/
structure TrialResult where
  configName : String
  params : List (String × Scalar)
  seed : ℤ
  trainMedianMonthly : ℚ
  testMedianMonthly : ℚ
  generalizationScore : ℚ
  gatePromoted : Bool
  promoted : Bool
  deriving DecidableEq, Repr

/-- The keyword arguments of `run_trial`. -/
structure TrialArgs where
  seed : ℤ := 0
  trainFrac : ℚ := 6 / 10
  nWindows : ℕ := 8
  windowSteps : ℕ := 120
  overfitPenalty : ℚ := 1
  deriving DecidableEq, Repr

/-- `generalization_score`. -/
def generalizationScore (trainScore testScore overfitPenalty : ℚ) : ℚ :=
  let overfitGap := max 0 (trainScore - testScore)
  testScore - overfitPenalty * overfitGap

/-- The gate on the train split: no window is cut short. -/
def TrialArgs.trainSettings (args : TrialArgs) : GateSettings :=
  { nWindows := args.nWindows
    windowSteps := args.windowSteps
    seed := args.seed
    failFast := false
    offsetLoFrac := 0
    offsetHiFrac := args.trainFrac }

/-- The gate on the unseen split. -/
def TrialArgs.testSettings (args : TrialArgs) : GateSettings :=
  { nWindows := args.nWindows
    windowSteps := args.windowSteps
    seed := args.seed
    offsetLoFrac := args.trainFrac
    offsetHiFrac := 1 }

section Trials

variable (windows : StrategyConfig → ℤ → ℚ → WindowResult) (rng : Rng) (numTimesteps : ℕ)
  (args : TrialArgs)

/-- `run_trial`. -/
def runTrial (config : TrialConfig) : Except WindowTooLarge TrialResult := do
  let trainV ← evaluate (windows config.toStrategy) args.trainSettings rng numTimesteps
  let testV ← evaluate (windows config.toStrategy) args.testSettings rng numTimesteps
  let gen := generalizationScore trainV.worstCellMedianMonthly testV.worstCellMedianMonthly
    args.overfitPenalty
  return {
    configName := config.name
    params := config.params
    seed := args.seed
    trainMedianMonthly := trainV.worstCellMedianMonthly
    testMedianMonthly := testV.worstCellMedianMonthly
    generalizationScore := gen
    gatePromoted := testV.promote
    promoted := testV.promote }

end Trials

/-! ## Names -/

section Names

variable {repr : ℚ → String}

/-- The values of an entry have distinct texts, and none holds an underscore. -/
def Axis.Legible (repr : ℚ → String) (axis : Axis) : Prop :=
  (axis.overrides.map (·.value repr)).Nodup ∧
    ∀ o ∈ axis.overrides, '_' ∉ (o.value repr).toList

instance (axis : Axis) : Decidable (axis.Legible repr) := inferInstanceAs (Decidable (_ ∧ _))

lemma Axis.key_of_mem {axis : Axis} {o : Override} (h : o ∈ axis.overrides) : o.key = axis.key := by
  cases axis <;>
  · obtain ⟨x, -, rfl⟩ := List.mem_map.mp h
    rfl

/-- The keys and values of a combination. -/
def parts (repr : ℚ → String) (combo : List Override) : List (List Char × List Char) :=
  combo.map fun o => (o.key.toList, (o.value repr).toList)

lemma toList_suffix (combo : List Override) :
    (suffix repr combo).toList = joinParts '_' (parts repr combo) := by
  simp [suffix, joinParts, parts, String.toList_intercalate, Function.comp_def]

/-- A combination takes one override of each entry. -/
lemma forall₂_of_mem_product {grid : List Axis} {combo : List Override}
    (h : combo ∈ product (grid.map Axis.overrides)) :
    List.Forall₂ (fun o axis => o ∈ axis.overrides) combo grid :=
  List.forall₂_map_right_iff.mp (mem_product.mp h)

/-- The keys of a combination are those of the grid. -/
lemma keys_of_mem_product (repr : ℚ → String) {grid : List Axis} {combo : List Override}
    (h : combo ∈ product (grid.map Axis.overrides)) :
    (parts repr combo).map Prod.fst = grid.map (·.key.toList) := by
  have hmem := forall₂_of_mem_product h
  clear h
  induction hmem with
  | nil => rfl
  | cons hhead _ ih =>
    simp only [parts, List.map_cons] at ih ⊢
    rw [Axis.key_of_mem hhead, ih]

/-- The values of a combination hold no underscore. -/
lemma values_of_mem_product {grid : List Axis} (hlegible : ∀ axis ∈ grid, axis.Legible repr)
    {combo : List Override} (h : combo ∈ product (grid.map Axis.overrides)) :
    ∀ part ∈ parts repr combo, '_' ∉ part.2 := by
  have hmem := forall₂_of_mem_product h
  clear h
  induction hmem with
  | nil => exact fun part h => absurd h List.not_mem_nil
  | cons hhead _ ih =>
    obtain ⟨haxis, hgrid⟩ := List.forall_mem_cons.mp hlegible
    exact List.forall_mem_cons.mpr ⟨haxis.2 _ hhead, ih hgrid⟩

/-- The parts of its name determine a combination. -/
lemma parts_inj {grid : List Axis} (hlegible : ∀ axis ∈ grid, axis.Legible repr)
    {combo combo' : List Override} (h : combo ∈ product (grid.map Axis.overrides))
    (h' : combo' ∈ product (grid.map Axis.overrides)) (heq : parts repr combo = parts repr combo') :
    combo = combo' := by
  have hmem := forall₂_of_mem_product h
  have hmem' := forall₂_of_mem_product h'
  clear h h'
  induction hmem generalizing combo' with
  | nil =>
    cases hmem' with
    | nil => rfl
  | cons hhead _ ih =>
    cases hmem' with
    | cons hhead' htail' =>
      obtain ⟨haxis, hgrid⟩ := List.forall_mem_cons.mp hlegible
      simp only [parts, List.map_cons, List.cons.injEq, Prod.mk.injEq, String.toList_inj] at heq
      rw [List.inj_on_of_nodup_map haxis.1 hhead hhead' heq.1.2, ih hgrid heq.2 htail']

/-- The name of a configuration determines the name of its preset and its combination. -/
lemma mutate_name_inj {grid : List Axis} (hlegible : ∀ axis ∈ grid, axis.Legible repr)
    {preset preset' : TrialConfig} {combo combo' : List Override}
    (h : combo ∈ product (grid.map Axis.overrides))
    (h' : combo' ∈ product (grid.map Axis.overrides))
    (heq : (preset.mutate repr combo).name = (preset'.mutate repr combo').name) :
    preset.name = preset'.name ∧ combo = combo' := by
  have hkeys : (parts repr combo).map Prod.fst = (parts repr combo').map Prod.fst := by
    rw [keys_of_mem_product repr h, keys_of_mem_product repr h']
  have hlist : preset.name.toList ++ ['_', '_'] ++ joinParts '_' (parts repr combo) =
      preset'.name.toList ++ ['_', '_'] ++ joinParts '_' (parts repr combo') := by
    rw [← toList_suffix, ← toList_suffix]
    simpa [TrialConfig.mutate] using congrArg String.toList heq
  obtain ⟨hname, hparts⟩ := append_joinParts_inj hkeys (values_of_mem_product hlegible h)
    (values_of_mem_product hlegible h') hlist
  exact ⟨String.toList_inj.mp hname, parts_inj hlegible h h' hparts⟩

/-- **Names.** When the presets have distinct names and the values of every entry have distinct
texts without underscores, every configuration of the grid has a name of its own, whatever the
names of the presets and of the entries are; and there is one for each preset and combination.

**Proof sketch.** All the suffixes hold the same underscores, those of the keys. So the suffix of a
name starts after the same number of underscores from its end, where the longer one of two
suffixes would have one more; and between the known keys each value ends at the next underscore. -/
theorem mutationGrid_names (repr : ℚ → String) (presets : List TrialConfig) (grid : List Axis)
    (hpresets : (presets.map (·.name)).Nodup) (hlegible : ∀ axis ∈ grid, axis.Legible repr) :
    ((mutationGrid repr presets grid).map (·.name)).Nodup ∧
      (mutationGrid repr presets grid).length =
        presets.length * (grid.map (·.overrides.length)).prod := by
  cases grid with
  | nil => exact ⟨hpresets, by simp [mutationGrid]⟩
  | cons axis grid =>
    have hgrid : mutationGrid repr presets (axis :: grid) = presets.flatMap fun preset =>
        (product ((axis :: grid).map Axis.overrides)).map (preset.mutate repr) := rfl
    have hproduct : (product ((axis :: grid).map Axis.overrides)).Nodup := by
      refine nodup_product fun overrides hmem => ?_
      obtain ⟨axis', haxis', rfl⟩ := List.mem_map.mp hmem
      exact (hlegible axis' haxis').1.of_map _
    constructor
    · rw [hgrid, List.map_flatMap, List.nodup_flatMap]
      constructor
      · intro preset _
        rw [List.map_map]
        refine hproduct.map_on fun combo h combo' h' heq => ?_
        exact (mutate_name_inj hlegible h h' heq).2
      · rw [List.nodup_iff_pairwise_ne, List.pairwise_map] at hpresets
        refine hpresets.imp fun {preset preset'} hne => ?_
        intro name hname hname'
        simp only [List.mem_map] at hname hname'
        obtain ⟨_, ⟨combo, h, rfl⟩, rfl⟩ := hname
        obtain ⟨_, ⟨combo', h', rfl⟩, heq⟩ := hname'
        exact hne (mutate_name_inj hlegible h' h heq).1.symm
    · rw [hgrid]
      simp only [List.length_flatMap, List.length_map, length_product, List.map_map,
        List.map_const', List.sum_replicate, smul_eq_mul]
      rfl

/-- The shortest text of a number with at most three decimals. -/
def shortText (x : ℚ) : String :=
  let trimmed := ((fixedText 3 x).reverse.dropWhile (· = '0')).reverse
  String.ofList (if trimmed.getLast? = some '.' then trimmed ++ ['0'] else trimmed)

/-- The grid of `main` over the preset pool. -/
theorem mutationGrid_names_pool :
    let grid : List Axis := [.convictionThreshold [0, 1 / 1000], .grossExposure [8 / 10, 1]]
    ((mutationGrid shortText presetPool grid).map (·.name)).Nodup ∧
      (mutationGrid shortText presetPool grid).length =
        presetPool.length * (grid.map (·.overrides.length)).prod :=
  mutationGrid_names shortText presetPool _ (by decide) (by decide +kernel)

end Names

/-! ## The score and the ranking -/

/-- The score is at most the median on the unseen split. -/
lemma generalizationScore_le {penalty : ℚ} (h : 0 ≤ penalty) (train test : ℚ) :
    generalizationScore train test penalty ≤ test := by
  have hgap : 0 ≤ penalty * max 0 (train - test) := mul_nonneg h (le_max_left _ _)
  simp only [generalizationScore]
  linarith

/-- It is that median exactly when the train split was no better. -/
lemma generalizationScore_eq_iff {penalty : ℚ} (h : 0 < penalty) (train test : ℚ) :
    generalizationScore train test penalty = test ↔ train ≤ test := by
  have hscore : generalizationScore train test penalty = test ↔
      penalty * max 0 (train - test) = 0 := by
    simp only [generalizationScore]
    constructor <;> intro h <;> linarith
  rw [hscore, mul_eq_zero, or_iff_right h.ne', max_eq_left_iff]
  constructor <;> intro h <;> linarith

/-- A result with a score that is at least another one ranks before it. -/
def RanksBefore (a b : TrialResult) : Prop := b.generalizationScore ≤ a.generalizationScore

instance : DecidableRel RanksBefore := fun _ _ => inferInstanceAs (Decidable (_ ≤ _))

instance : Std.Total RanksBefore := ⟨fun _ _ => le_total _ _⟩

instance : IsTrans TrialResult RanksBefore := ⟨fun _ _ _ h h' => le_trans h' h⟩

/-- `results.sort(key=lambda r: r.generalization_score, reverse=True)`. -/
def ranked (results : List TrialResult) : List TrialResult := results.insertionSort RanksBefore

/-- **The ranking.** It lists the trials from the highest score to the lowest, and trials of one
score in the order they were run. -/
theorem ranked_spec (results : List TrialResult) :
    (ranked results).Perm results ∧ (ranked results).Pairwise RanksBefore ∧
      ∀ score, (ranked results).filter (·.generalizationScore = score) =
        results.filter (·.generalizationScore = score) := by
  refine ⟨List.perm_insertionSort _ _, List.pairwise_insertionSort _ _, fun score => ?_⟩
  refine filter_insertionSort _ results fun a b ha hb => ?_
  simp only [decide_eq_true_eq] at ha hb
  exact (hb.trans ha.symm).le

/-! ## What a trial says -/

section Judgement

variable {windows : StrategyConfig → ℤ → ℚ → WindowResult} {rng : Rng} {numTimesteps : ℕ}
  {args : TrialArgs}

/-- What the result of a trial says about the windows `offsets` of the unseen split: it is promoted
exactly when at every slippage the median monthly return reaches a tenth and no window draws down
more than three tenths, and then the median that it reports is that of the worst slippage. -/
structure Judged (windows : StrategyConfig → ℤ → ℚ → WindowResult) (config : TrialConfig)
    (offsets : List ℤ) (r : TrialResult) : Prop where
  promoted_iff : r.promoted = true ↔ ∀ slip ∈ ([0, 10, 20, 30] : List ℚ),
    (∀ off ∈ offsets, (windows config.toStrategy off slip).maxDrawdown ≤ 3 / 10) ∧
      1 / 10 ≤ medianOver (windows config.toStrategy) offsets slip
  worst : r.promoted = true → IsLeast (medianOver (windows config.toStrategy) offsets ''
    {slip | slip ∈ ([0, 10, 20, 30] : List ℚ)}) r.testMedianMonthly
  gate : r.gatePromoted = r.promoted

/-- What `run_trial` does. -/
lemma runTrial_ok {config : TrialConfig} {r : TrialResult}
    (h : runTrial windows rng numTimesteps args config = .ok r) :
    ∃ trainV testV,
      evaluate (windows config.toStrategy) args.trainSettings rng numTimesteps = .ok trainV ∧
      evaluate (windows config.toStrategy) args.testSettings rng numTimesteps = .ok testV ∧
      r = { configName := config.name
            params := config.params
            seed := args.seed
            trainMedianMonthly := trainV.worstCellMedianMonthly
            testMedianMonthly := testV.worstCellMedianMonthly
            generalizationScore := generalizationScore trainV.worstCellMedianMonthly
              testV.worstCellMedianMonthly args.overfitPenalty
            gatePromoted := testV.promote
            promoted := testV.promote } := by
  unfold runTrial at h
  cases htrain : evaluate (windows config.toStrategy) args.trainSettings rng numTimesteps with
  | error e =>
    rw [htrain] at h
    cases h
  | ok trainV =>
    cases htest : evaluate (windows config.toStrategy) args.testSettings rng numTimesteps with
    | error e =>
      rw [htrain, htest] at h
      cases h
    | ok testV =>
      rw [htrain, htest] at h
      cases h
      exact ⟨trainV, testV, rfl, rfl, rfl⟩

/-- A verdict judges the offsets that are generated. -/
lemma evaluate_eq_ok {runWindow : ℤ → ℚ → WindowResult} {settings : GateSettings}
    {verdict : Verdict} (h : evaluate runWindow settings rng numTimesteps = .ok verdict) :
    ∃ offsets, generateOffsets rng numTimesteps settings.nWindows settings.windowSteps
      settings.seed settings.offsetLoFrac settings.offsetHiFrac = .ok offsets ∧
      verdict = judge runWindow settings offsets := by
  unfold evaluate at h
  cases hoffsets : generateOffsets rng numTimesteps settings.nWindows settings.windowSteps
      settings.seed settings.offsetLoFrac settings.offsetHiFrac with
  | error e =>
    rw [hoffsets] at h
    cases h
  | ok offsets =>
    rw [hoffsets] at h
    cases h
    exact ⟨offsets, rfl, rfl⟩

/-- **A trial.** It is judged on the windows of the unseen split. -/
theorem runTrial_judged {config : TrialConfig} {r : TrialResult}
    (h : runTrial windows rng numTimesteps args config = .ok r) :
    ∃ offsets, generateOffsets rng numTimesteps args.nWindows args.windowSteps args.seed
      args.trainFrac 1 = .ok offsets ∧ Judged windows config offsets r := by
  obtain ⟨trainV, testV, -, htest, rfl⟩ := runTrial_ok h
  obtain ⟨offsets, hoffsets, rfl⟩ := evaluate_eq_ok htest
  have hpasses := judge_promote_iff (windows config.toStrategy) args.testSettings offsets
  refine ⟨offsets, hoffsets, ?_, fun hpromoted => ?_, rfl⟩
  · rw [hpasses]
    simp [Passes, WithinLimit, TrialArgs.testSettings]
  · exact isLeast_worst_of_passes (by simp [TrialArgs.testSettings]) (hpasses.mp hpromoted)

/-- The windows of the unseen split start at or after the cut. -/
lemma cut_le_of_generateOffsets {n W : ℕ} {seed : ℤ} {f : ℚ} (h0 : 0 < f) (h1 : f < 1)
    {offsets : List ℤ} (h : generateOffsets rng numTimesteps n W seed f 1 = .ok offsets) :
    ∀ o ∈ offsets, ⌊(maxOffset numTimesteps W : ℚ) * f⌋ ≤ o := by
  have hpos : 0 < maxOffset numTimesteps W := by
    by_contra hnot
    rw [generateOffsets, if_pos (not_lt.mp hnot)] at h
    cases h
  rw [generateOffsets_of_pos hpos] at h
  cases h
  intro o ho
  obtain ⟨i, -, rfl⟩ := List.mem_map.mp ho
  have hlo := (drawOffset_mem hpos rng seed f 1 i).1
  rwa [offsetRange_rest hpos h0 h1] at hlo

/-- The score of a trial is at most its median on the unseen split, and equal to it exactly when
the train split was no better. -/
lemma runTrial_score {config : TrialConfig} {r : TrialResult}
    (h : runTrial windows rng numTimesteps args config = .ok r)
    (hpenalty : 0 < args.overfitPenalty) :
    r.generalizationScore ≤ r.testMedianMonthly ∧
      (r.generalizationScore = r.testMedianMonthly ↔
        r.trainMedianMonthly ≤ r.testMedianMonthly) := by
  obtain ⟨trainV, testV, -, -, rfl⟩ := runTrial_ok h
  exact ⟨generalizationScore_le hpenalty.le _ _, generalizationScore_eq_iff hpenalty _ _⟩

end Judgement

end KeelTrader.Research
