import Mathlib
import KeelTrader.Lib.Csv
import KeelTrader.Lib.FixedPoint
import KeelTrader.Research.Autoresearch

set_option relaxedAutoImplicit false
set_option autoImplicit false

/-!
# The leaderboard

`append_to_leaderboard` and `run_autoresearch` of `research/autoresearch.py`: the results of a
search are appended to a file of comma-separated values and returned in the order of their scores.

## Main definitions

* `KeelTrader.Research.leaderboardColumns`, `KeelTrader.Research.leaderboardRow` — the columns, and
  the row of a result.
* `KeelTrader.Research.appendToLeaderboard`, `KeelTrader.Research.SearchCall.run` — what a search
  appends, and a search.
* `KeelTrader.Research.leaderboardAfter` — the file after searches that follow each other.

## Main results

* `KeelTrader.Research.run_ranked` — what a search returns.
* `KeelTrader.Research.leaderboard_reads_back` — what is read back from the file after any searches.

## Implementation notes

A file is its text, or `none` when it does not exist. The texts of floats are a parameter, except
for the metrics, which have six decimals. A search that raises leaves the file as it was: the gate
raises before the file is opened.
-/

namespace KeelTrader.Research

open Models Csv Checked

/-! ## Rows -/

/-- `LEADERBOARD_COLUMNS`. -/
def leaderboardColumns : List String :=
  ["timestamp", "git_hash", "hardware", "seed", "config_name", "params", "train_median_monthly",
    "test_median_monthly", "generalization_score", "gate_promoted", "promoted"]

/-- What a run records of itself: the time, the commit and the machine. -/
structure Manifest where
  timestamp : String
  gitHash : String
  hardware : String
  deriving DecidableEq, Repr

/-- `json.dumps(params, sort_keys=True)`. -/
def jsonDumps (repr : ℚ → String) (params : List (String × Scalar)) : String :=
  let sorted := params.insertionSort fun a b => a.1 ≤ b.1
  "\x7b" ++ ", ".intercalate (sorted.map fun e => "\x22" ++ e.1 ++ "\x22: " ++ e.2.text repr) ++
    "\x7d"

/-- `int(flag)`, as it is written. -/
def flagText (flag : Bool) : String := if flag then "1" else "0"

/-- The row of a result. -/
def leaderboardRow (repr : ℚ → String) (m : Manifest) (r : TrialResult) :
    List (List Char × List Char) :=
  [("timestamp".toList, m.timestamp.toList),
    ("git_hash".toList, m.gitHash.toList),
    ("hardware".toList, m.hardware.toList),
    ("seed".toList, (toString r.seed).toList),
    ("config_name".toList, r.configName.toList),
    ("params".toList, (jsonDumps repr r.params).toList),
    ("train_median_monthly".toList, fixedText 6 r.trainMedianMonthly),
    ("test_median_monthly".toList, fixedText 6 r.testMedianMonthly),
    ("generalization_score".toList, fixedText 6 r.generalizationScore),
    ("gate_promoted".toList, (flagText r.gatePromoted).toList),
    ("promoted".toList, (flagText r.promoted).toList)]

/-- What a search raises. -/
inductive SearchError
  | windowTooLarge (e : WindowTooLarge)
  /-- "dict contains fields not in fieldnames". -/
  | unknownColumn
  deriving DecidableEq, Repr

/-- `append_to_leaderboard`: the text of the file afterwards. -/
def appendToLeaderboard (repr : ℚ → String) (m : Manifest) (file : Option (List Char))
    (results : List TrialResult) : Except SearchError (List Char) :=
  let columns := leaderboardColumns.map String.toList
  match results.mapM fun r => dictRow columns (Dict.ofList (leaderboardRow repr m r)) with
  | none => .error .unknownColumn
  | some records => .ok (appendRows excel columns file records)

/-! ## Searches -/

/-- A call of `run_autoresearch`: the strategies' windows on its market, the arguments, and what
the run records of itself. -/
structure SearchCall where
  windows : StrategyConfig → ℤ → ℚ → WindowResult
  rng : Rng
  numTimesteps : ℕ
  configs : List TrialConfig
  args : TrialArgs
  manifest : Manifest

/-- The results of the trials, in the order of the configurations. -/
def SearchCall.trials (call : SearchCall) : Except WindowTooLarge (List TrialResult) :=
  call.configs.mapM (runTrial call.windows call.rng call.numTimesteps call.args)

/-- `run_autoresearch`: what it returns, and the text of the leaderboard afterwards. -/
def SearchCall.run (repr : ℚ → String) (call : SearchCall) (file : Option (List Char)) :
    Except SearchError (List TrialResult × List Char) := do
  let results ← match call.trials with
    | .ok results => .ok results
    | .error e => .error (.windowTooLarge e)
  let text ← appendToLeaderboard repr call.manifest file results
  return (ranked results, text)

/-- The leaderboard after a search: one that raises leaves it as it was. -/
def SearchCall.fileAfter (repr : ℚ → String) (call : SearchCall) (file : Option (List Char)) :
    Option (List Char) :=
  match call.run repr file with
  | .ok (_, text) => some text
  | .error _ => file

/-- The leaderboard after searches that follow each other. -/
def leaderboardAfter (repr : ℚ → String) (calls : List SearchCall) (file : Option (List Char)) :
    Option (List Char) :=
  calls.foldl (fun file call => call.fileAfter repr file) file

/-! ## What is appended -/

section Append

variable {repr : ℚ → String}

lemma fst_leaderboardRow (repr : ℚ → String) (m : Manifest) (r : TrialResult) :
    (leaderboardRow repr m r).map Prod.fst = leaderboardColumns.map String.toList := rfl

lemma nodup_columns : (leaderboardColumns.map String.toList).Nodup := by decide

/-- A result has a value under every column and nothing else. -/
lemma dictRow_leaderboardRow (m : Manifest) (r : TrialResult) :
    dictRow (leaderboardColumns.map String.toList) (Dict.ofList (leaderboardRow repr m r)) =
      some ((leaderboardRow repr m r).map Prod.snd) := by
  have hnodup : ((leaderboardRow repr m r).map Prod.fst).Nodup := by
    rw [fst_leaderboardRow]
    exact nodup_columns
  rw [← fst_leaderboardRow repr m r]
  exact dictRow_ofList hnodup

/-- Appending results raises nothing. -/
lemma appendToLeaderboard_eq (m : Manifest) (file : Option (List Char))
    (results : List TrialResult) :
    appendToLeaderboard repr m file results =
      .ok (appendRows excel (leaderboardColumns.map String.toList) file
        (results.map fun r => (leaderboardRow repr m r).map Prod.snd)) := by
  have hrecords : results.mapM (fun r => dictRow (leaderboardColumns.map String.toList)
      (Dict.ofList (leaderboardRow repr m r))) =
      some (results.map fun r => (leaderboardRow repr m r).map Prod.snd) := by
    simp only [dictRow_leaderboardRow]
    exact List.mapM_pure
  simp only [appendToLeaderboard, hrecords]

/-- What a search does. -/
lemma run_eq (repr : ℚ → String) (call : SearchCall) (file : Option (List Char)) :
    call.run repr file = match call.trials with
      | .ok results => .ok (ranked results,
          appendRows excel (leaderboardColumns.map String.toList) file
            (results.map fun r => (leaderboardRow repr call.manifest r).map Prod.snd))
      | .error e => .error (.windowTooLarge e) := by
  unfold SearchCall.run
  cases call.trials with
  | error e => rfl
  | ok results =>
    show (appendToLeaderboard repr call.manifest file results >>= fun text =>
      pure (ranked results, text)) = _
    rw [appendToLeaderboard_eq]
    rfl

/-- The trials that a search records, with their configurations. -/
def SearchCall.recorded (call : SearchCall) : List (TrialConfig × TrialResult) :=
  match call.trials with
  | .ok results => call.configs.zip results
  | .error _ => []

/-- The trials that searches record one after the other. -/
def recordedBy (calls : List SearchCall) : List (SearchCall × TrialConfig × TrialResult) :=
  calls.flatMap fun call => call.recorded.map fun trial => (call, trial)

/-- The record of a trial. -/
def recordOf (repr : ℚ → String) (trial : SearchCall × TrialConfig × TrialResult) :
    List (List Char) :=
  (leaderboardRow repr trial.1.manifest trial.2.2).map Prod.snd

/-- A trial that is recorded was run. -/
lemma runTrial_of_mem_recorded {call : SearchCall} {config : TrialConfig} {r : TrialResult}
    (h : (config, r) ∈ call.recorded) :
    runTrial call.windows call.rng call.numTimesteps call.args config = .ok r := by
  unfold SearchCall.recorded at h
  cases htrials : call.trials with
  | error e => simp [htrials] at h
  | ok results =>
    rw [htrials] at h
    exact List.forall₂_zip (forall₂_of_mapM_eq_ok htrials) h

/-- The records that a search appends. -/
lemma map_recordOf_recorded (repr : ℚ → String) {call : SearchCall} {results : List TrialResult}
    (h : call.trials = .ok results) :
    (call.recorded.map fun trial => (call, trial)).map (recordOf repr) =
      results.map fun r => (leaderboardRow repr call.manifest r).map Prod.snd := by
  have hlength := (forall₂_of_mapM_eq_ok h).length_eq
  have hsnd : (call.configs.zip results).map Prod.snd = results :=
    List.map_snd_zip hlength.ge
  conv_rhs => rw [← hsnd]
  simp [SearchCall.recorded, h, recordOf, Function.comp_def]

/-- The file that holds some records. -/
def table (records : List (List (List Char))) : List Char :=
  write excel (leaderboardColumns.map String.toList :: records)

/-- A search that raises leaves the file as it was. -/
lemma leaderboardAfter_cons_error {call : SearchCall} {e : WindowTooLarge}
    (h : call.trials = .error e) (calls : List SearchCall) (file : Option (List Char)) :
    leaderboardAfter repr (call :: calls) file = leaderboardAfter repr calls file := by
  show leaderboardAfter repr calls (call.fileAfter repr file) = _
  rw [SearchCall.fileAfter, run_eq, h]

/-- Any other search appends its records. -/
lemma leaderboardAfter_cons_ok {call : SearchCall} {results : List TrialResult}
    (h : call.trials = .ok results) (calls : List SearchCall) (file : Option (List Char)) :
    leaderboardAfter repr (call :: calls) file = leaderboardAfter repr calls
      (some (appendRows excel (leaderboardColumns.map String.toList) file
        ((call.recorded.map fun trial => (call, trial)).map (recordOf repr)))) := by
  show leaderboardAfter repr calls (call.fileAfter repr file) = _
  rw [SearchCall.fileAfter, run_eq, h, map_recordOf_recorded repr h]

lemma recordedBy_cons_error {call : SearchCall} {e : WindowTooLarge} (h : call.trials = .error e)
    (calls : List SearchCall) : recordedBy (call :: calls) = recordedBy calls := by
  simp [recordedBy, SearchCall.recorded, h]

lemma recordedBy_cons (call : SearchCall) (calls : List SearchCall) :
    recordedBy (call :: calls) =
      (call.recorded.map fun trial => (call, trial)) ++ recordedBy calls := List.flatMap_cons

/-- A file that holds the header and some records holds those of the searches below them
afterwards. -/
lemma leaderboardAfter_table (repr : ℚ → String) (calls : List SearchCall)
    (records : List (List (List Char))) :
    leaderboardAfter repr calls (some (table records)) =
      some (table (records ++ (recordedBy calls).map (recordOf repr))) := by
  induction calls generalizing records with
  | nil => simp [leaderboardAfter, recordedBy]
  | cons call calls ih =>
    cases htrials : call.trials with
    | error e =>
      rw [leaderboardAfter_cons_error htrials, recordedBy_cons_error htrials, ih]
    | ok results =>
      rw [leaderboardAfter_cons_ok htrials, table, appendRows_write, ← table, ih, recordedBy_cons,
        List.map_append, List.append_assoc]

/-- Without a file, it does not exist as long as every search raises, and then it holds the header
and the records. -/
lemma leaderboardAfter_none (repr : ℚ → String) (calls : List SearchCall) :
    (leaderboardAfter repr calls none = none ∧ ∀ call ∈ calls, ∃ e, call.trials = .error e) ∨
      leaderboardAfter repr calls none =
        some (table ((recordedBy calls).map (recordOf repr))) := by
  induction calls with
  | nil => exact Or.inl ⟨rfl, fun _ h => absurd h List.not_mem_nil⟩
  | cons call calls ih =>
    cases htrials : call.trials with
    | error e =>
      rw [leaderboardAfter_cons_error htrials, recordedBy_cons_error htrials]
      exact ih.imp_left fun h => ⟨h.1, List.forall_mem_cons.mpr ⟨⟨e, htrials⟩, h.2⟩⟩
    | ok results =>
      refine Or.inr ?_
      rw [leaderboardAfter_cons_ok htrials]
      show leaderboardAfter repr calls (some (table _)) = _
      rw [leaderboardAfter_table, recordedBy_cons, List.map_append]

/-- **The file only grows.** Later searches keep what it holds in front. -/
lemma prefix_leaderboardAfter (repr : ℚ → String) (calls : List SearchCall) (text : List Char) :
    ∃ text', leaderboardAfter repr calls (some text) = some text' ∧ text <+: text' := by
  induction calls generalizing text with
  | nil => exact ⟨text, rfl, List.prefix_rfl⟩
  | cons call calls ih =>
    cases htrials : call.trials with
    | error e =>
      rw [leaderboardAfter_cons_error htrials]
      exact ih text
    | ok results =>
      rw [leaderboardAfter_cons_ok htrials]
      obtain ⟨text', hafter, hfront⟩ := ih (appendRows excel
        (leaderboardColumns.map String.toList) (some text)
        ((call.recorded.map fun trial => (call, trial)).map (recordOf repr)))
      exact ⟨text', hafter, (prefix_appendRows _ _ _ _).trans hfront⟩

end Append

/-! ## What is returned -/

/-- The offsets of the unseen split of a search. -/
def SearchCall.unseenOffsets (call : SearchCall) : Except WindowTooLarge (List ℤ) :=
  generateOffsets call.rng call.numTimesteps call.args.nWindows call.args.windowSteps call.args.seed
    call.args.trainFrac 1

/-- **A search.** What it returns lists its trials from the highest score to the lowest, and trials
of one score in the order of their configurations. Each configuration has one trial, and all of
them are judged on the same windows, which start at or after the cut: a trial is promoted exactly
when its strategy clears the gate there, and its score is at most the median there and equal to it
exactly when the train split was no better. -/
theorem run_ranked (repr : ℚ → String) (call : SearchCall) (file : Option (List Char))
    {results : List TrialResult} {text : List Char}
    (h : call.run repr file = .ok (results, text)) (hpenalty : 0 < call.args.overfitPenalty) :
    ∃ trials offsets, results.Perm trials ∧ results.Pairwise RanksBefore ∧
      (∀ score, results.filter (·.generalizationScore = score) =
        trials.filter (·.generalizationScore = score)) ∧
      (call.configs ≠ [] → call.unseenOffsets = .ok offsets) ∧
      (0 < call.args.trainFrac → call.args.trainFrac < 1 → ∀ o ∈ offsets,
        ⌊(maxOffset call.numTimesteps call.args.windowSteps : ℚ) * call.args.trainFrac⌋ ≤ o) ∧
      List.Forall₂ (fun config r => r.configName = config.name ∧
        Judged call.windows config offsets r ∧
        r.generalizationScore ≤ r.testMedianMonthly ∧
        (r.generalizationScore = r.testMedianMonthly ↔
          r.trainMedianMonthly ≤ r.testMedianMonthly)) call.configs trials := by
  rw [run_eq] at h
  cases htrials : call.trials with
  | error e =>
    rw [htrials] at h
    cases h
  | ok trials =>
    rw [htrials] at h
    cases h
    obtain ⟨hperm, hpairwise, hties⟩ := ranked_spec trials
    have hrun := forall₂_of_mapM_eq_ok htrials
    cases hconfigs : call.configs with
    | nil =>
      rw [hconfigs] at hrun
      cases hrun
      exact ⟨[], [], hperm, hpairwise, hties, fun h => absurd rfl h,
        fun _ _ o h => absurd h List.not_mem_nil, .nil⟩
    | cons config configs =>
      rw [← hconfigs]
      -- the windows of one trial are those of every other
      have hfirst : ∃ r,
          runTrial call.windows call.rng call.numTimesteps call.args config = .ok r := by
        rw [hconfigs] at hrun
        cases hrun with
        | cons hhead _ => exact ⟨_, hhead⟩
      obtain ⟨r, hr⟩ := hfirst
      obtain ⟨offsets, hoffsets, -⟩ := runTrial_judged hr
      refine ⟨trials, offsets, hperm, hpairwise, hties, fun _ => hoffsets,
        fun h0 h1 => cut_le_of_generateOffsets h0 h1 hoffsets, hrun.imp fun config r hr => ?_⟩
      obtain ⟨offsets', hoffsets', hjudged⟩ := runTrial_judged hr
      obtain rfl : offsets' = offsets := Except.ok.inj (hoffsets'.symm.trans hoffsets)
      obtain ⟨trainV, testV, -, -, hresult⟩ := runTrial_ok hr
      exact ⟨by rw [hresult], hjudged, runTrial_score hr hpenalty⟩

/-- The preset pool on a market of twenty bars, where an exposure earns a quarter a month and a
basis point of slippage costs a tenth of a percent. -/
def poolSearch : SearchCall where
  windows cfg off slip :=
    let monthly := cfg.grossExposure / 4 - slip / 1000
    ⟨off, monthly / 100, monthly, 1 / 10, 3⟩
  rng := Rng.towards 3
  numTimesteps := 20
  configs := presetPool
  args := { nWindows := 2, windowSteps := 4 }
  manifest := ⟨"2026-01-05T00:00:00Z", "unknown", "Linux-6.1, \x22x86_64\x22\n"⟩

/-- The search of the preset pool. -/
theorem run_ranked_pool :
    ∃ results text trials offsets, poolSearch.run shortText none = .ok (results, text) ∧
      results.Perm trials ∧ results.Pairwise RanksBefore ∧
      poolSearch.unseenOffsets = .ok offsets ∧
      List.Forall₂ (fun config r => r.configName = config.name ∧
        Judged poolSearch.windows config offsets r) poolSearch.configs trials := by
  have hrun : (poolSearch.run shortText none).toBool = true := by decide +kernel
  cases h : poolSearch.run shortText none with
  | error e =>
    rw [h] at hrun
    cases hrun
  | ok r =>
    obtain ⟨results, text⟩ := r
    obtain ⟨trials, offsets, hperm, hpairwise, -, hoffsets, -, hjudged⟩ :=
      run_ranked shortText poolSearch none h (by decide)
    exact ⟨results, text, trials, offsets, rfl, hperm, hpairwise, hoffsets (by decide),
      hjudged.imp fun _ _ hr => ⟨hr.1, hr.2.1⟩⟩

/-! ## What is read back -/

/-- The limit of the length of a field that the reader keeps to. -/
def fieldLimit : ℕ := 131072

/-- A row that is read back. -/
abbrev Row : Type := Dict (Option (List Char)) Cell

/-- A text in a row. -/
def Row.Holds (row : Row) (column text : String) : Prop :=
  row.get? (some column.toList) = some (.text text.toList)

/-- The number in a row. -/
def Row.number (row : Row) (column : String) : Option ℚ :=
  match row.get? (some column.toList) with
  | some (.text t) => decimalValue t
  | _ => none

/-- What a row of the leaderboard shows of a trial: its configuration and what its search records,
its metrics up to half a millionth, and whether its strategy clears the gate on the unseen split. -/
structure Shows (repr : ℚ → String) (call : SearchCall) (config : TrialConfig) (r : TrialResult)
    (row : Row) : Prop where
  timestamp : row.Holds "timestamp" call.manifest.timestamp
  gitHash : row.Holds "git_hash" call.manifest.gitHash
  hardware : row.Holds "hardware" call.manifest.hardware
  seed : ∃ text, row.Holds "seed" text ∧ text.toInt? = some call.args.seed
  configName : row.Holds "config_name" config.name
  params : row.Holds "params" (jsonDumps repr config.params)
  metrics : ∀ metric ∈ [("train_median_monthly", r.trainMedianMonthly),
    ("test_median_monthly", r.testMedianMonthly),
    ("generalization_score", r.generalizationScore)],
    ∃ x, row.number metric.1 = some x ∧ |x - metric.2| ≤ 1 / 2000000
  promoted : ∃ offsets, call.unseenOffsets = .ok offsets ∧
    Judged call.windows config offsets r ∧
    row.Holds "promoted" (if r.promoted then "1" else "0") ∧
    row.Holds "gate_promoted" (if r.promoted then "1" else "0")

section Readback

variable {repr : ℚ → String}

/-- The row that is read back of a trial. -/
def rowOf (repr : ℚ → String) (trial : SearchCall × TrialConfig × TrialResult) : Row :=
  rowDict (leaderboardColumns.map String.toList) (recordOf repr trial)

/-- What stands under a column. -/
lemma get?_rowOf (trial : SearchCall × TrialConfig × TrialResult) {column : String}
    {value : List Char}
    (h : (column.toList, value) ∈ leaderboardRow repr trial.1.manifest trial.2.2) :
    (rowOf repr trial).get? (some column.toList) = some (.text value) := by
  rw [rowOf, recordOf, ← fst_leaderboardRow repr trial.1.manifest trial.2.2]
  refine get?_rowDict ?_ h
  rw [fst_leaderboardRow]
  exact nodup_columns

/-- A metric in a row. -/
lemma number_rowOf (trial : SearchCall × TrialConfig × TrialResult) {column : String} {x : ℚ}
    (h : (column.toList, fixedText 6 x) ∈ leaderboardRow repr trial.1.manifest trial.2.2) :
    (rowOf repr trial).number column = some (fixedValue 6 x) := by
  rw [Row.number, get?_rowOf trial h]
  exact decimalValue_fixedText (by decide) x

/-- **One row.** It shows its trial. -/
theorem shows_rowOf {call : SearchCall} {config : TrialConfig} {r : TrialResult}
    (h : (config, r) ∈ call.recorded) :
    Shows repr call config r (rowOf repr (call, config, r)) := by
  have hrun := runTrial_of_mem_recorded h
  obtain ⟨offsets, hoffsets, hjudged⟩ := runTrial_judged hrun
  obtain ⟨trainV, testV, -, -, hresult⟩ := runTrial_ok hrun
  have hname : r.configName = config.name := by rw [hresult]
  have hparams : r.params = config.params := by rw [hresult]
  have hseed : r.seed = call.args.seed := by rw [hresult]
  have hmetric : ∀ {column : String} {x : ℚ},
      (column.toList, fixedText 6 x) ∈ leaderboardRow repr call.manifest r →
      ∃ y, (rowOf repr (call, config, r)).number column = some y ∧ |y - x| ≤ 1 / 2000000 := by
    intro column x hmem
    refine ⟨fixedValue 6 x, number_rowOf (call, config, r) hmem, ?_⟩
    exact (abs_fixedValue_sub_le 6 x).trans (by norm_num)
  have hholds : ∀ {column text : String},
      (column.toList, text.toList) ∈ leaderboardRow repr call.manifest r →
      (rowOf repr (call, config, r)).Holds column text :=
    fun hmem => get?_rowOf (call, config, r) hmem
  refine ⟨hholds ?_, hholds ?_, hholds ?_, ⟨toString r.seed, hholds ?_, ?_⟩, hholds ?_, hholds ?_,
    ?_, offsets, hoffsets, hjudged, hholds ?_, hholds ?_⟩
  · simp [leaderboardRow]
  · simp [leaderboardRow]
  · simp [leaderboardRow]
  · simp [leaderboardRow]
  · rw [← hseed]
    exact Int.toInt?_repr r.seed
  · rw [← hname]
    simp [leaderboardRow]
  · rw [← hparams]
    simp [leaderboardRow]
  · intro metric hmem
    simp only [List.mem_cons, List.not_mem_nil, or_false] at hmem
    rcases hmem with rfl | rfl | rfl <;> exact hmetric (by simp [leaderboardRow])
  · simp [leaderboardRow, flagText]
  · rw [← hjudged.gate]
    simp [leaderboardRow, flagText]

/-- The rows of a file that holds the header and the records of trials. -/
lemma dictReader_table (trials : List (SearchCall × TrialConfig × TrialResult))
    (hlimit : ∀ trial ∈ trials, ∀ field ∈ recordOf repr trial, field.length ≤ fieldLimit) :
    dictReader excel fieldLimit (table (trials.map (recordOf repr))) =
      .ok (trials.map (rowOf repr)) := by
  have hheader : ∀ name ∈ leaderboardColumns.map String.toList, name.length ≤ fieldLimit := by
    decide +kernel
  have hmap : trials.map (rowOf repr) =
      (trials.map (recordOf repr)).map (rowDict (leaderboardColumns.map String.toList)) := by
    rw [List.map_map]
    exact List.map_congr_left fun trial _ => by rw [rowOf, Function.comp_apply]
  rw [table, hmap]
  refine dictReader_write (by decide) _ ?_ ?_
  · intro record hrecord
    obtain ⟨trial, -, rfl⟩ := List.mem_map.mp hrecord
    have hlength := congrArg List.length
      (fst_leaderboardRow repr trial.1.manifest trial.2.2)
    rw [List.length_map] at hlength
    rw [recordOf, List.length_map, hlength]
  · refine List.forall_mem_cons.mpr ⟨hheader, fun record hrecord => ?_⟩
    obtain ⟨trial, htrial, rfl⟩ := List.mem_map.mp hrecord
    exact hlimit trial htrial

/-- The scores in two rows are in the order of the scores of the trials. -/
lemma number_rowOf_le (trial trial' : SearchCall × TrialConfig × TrialResult)
    (h : trial.2.2.generalizationScore ≤ trial'.2.2.generalizationScore) :
    ∃ x x', (rowOf repr trial).number "generalization_score" = some x ∧
      (rowOf repr trial').number "generalization_score" = some x' ∧ x ≤ x' :=
  ⟨_, _, number_rowOf trial (by simp [leaderboardRow]),
    number_rowOf trial' (by simp [leaderboardRow]), fixedValue_mono 6 h⟩

/-- **The leaderboard.** After any searches that start without a file, either all of them have
raised and there is still none, or the file is read back as one row for each trial of the searches
that did not raise, in the order in which they were run. Each row shows its trial, whatever
characters the names and the texts of the machine hold; the scores in the rows are in the order of
the scores; and the file starts with what it was after any of the earlier searches.

**Proof sketch.** The file is the header above the records of the trials: a search that raises
leaves it as it is, the first other one writes the header, and every later one appends. Records
that are written are read back, and what stands in a row is what was written under its column. -/
theorem leaderboard_reads_back (repr : ℚ → String) (calls : List SearchCall)
    (hlimit : ∀ trial ∈ recordedBy calls, ∀ field ∈ recordOf repr trial,
      field.length ≤ fieldLimit) :
    (leaderboardAfter repr calls none = none ∧ ∀ call ∈ calls, ∃ e, call.trials = .error e) ∨
      ∃ (text : List Char) (rows : List Row), leaderboardAfter repr calls none = some text ∧
        dictReader excel fieldLimit text = .ok rows ∧
        List.Forall₂ (fun trial row => Shows repr trial.1 trial.2.1 trial.2.2 row)
          (recordedBy calls) rows ∧
        (∀ p ∈ (recordedBy calls).zip rows, ∀ p' ∈ (recordedBy calls).zip rows,
          p.1.2.2.generalizationScore ≤ p'.1.2.2.generalizationScore →
          ∃ x x', p.2.number "generalization_score" = some x ∧
            p'.2.number "generalization_score" = some x' ∧ x ≤ x') ∧
        ∀ before after old, calls = before ++ after →
          leaderboardAfter repr before none = some old → old <+: text := by
  rcases leaderboardAfter_none repr calls with hnone | htext
  · exact Or.inl hnone
  · refine Or.inr ⟨_, (recordedBy calls).map (rowOf repr), htext, dictReader_table _ hlimit,
      ?_, ?_, ?_⟩
    · refine List.forall₂_map_right_iff.mpr (List.forall₂_same.mpr fun trial htrial => ?_)
      obtain ⟨call, -, hcall⟩ := List.mem_flatMap.mp htrial
      obtain ⟨⟨config, r⟩, hrecorded, rfl⟩ := List.mem_map.mp hcall
      exact shows_rowOf hrecorded
    · intro p hp p' hp' hle
      rw [← List.map_prod_left_eq_zip] at hp hp'
      obtain ⟨trial, -, rfl⟩ := List.mem_map.mp hp
      obtain ⟨trial', -, rfl⟩ := List.mem_map.mp hp'
      dsimp only at hle ⊢
      exact number_rowOf_le trial trial' hle
    · intro before after old hcalls hold
      have hafter : leaderboardAfter repr calls none = leaderboardAfter repr after (some old) := by
        rw [hcalls, ← hold]
        exact List.foldl_append
      obtain ⟨text', htext', hfront⟩ := prefix_leaderboardAfter repr after old
      rw [htext, htext'] at hafter
      rwa [Option.some.inj hafter]

end Readback

/-- The search of the preset pool, one on a market that is too short, and the first one again. -/
theorem leaderboard_reads_back_pool :
    let calls := [poolSearch, { poolSearch with numTimesteps := 3 }, poolSearch]
    ∃ (text : List Char) (rows : List Row), leaderboardAfter shortText calls none = some text ∧
      dictReader excel fieldLimit text = .ok rows ∧ rows.length = 6 ∧
      List.Forall₂ (fun trial row => Shows shortText trial.1 trial.2.1 trial.2.2 row)
        (recordedBy calls) rows := by
  intro calls
  have hlimit : ∀ trial ∈ recordedBy calls, ∀ field ∈ recordOf shortText trial,
      field.length ≤ fieldLimit := by decide +kernel
  have hcount : (recordedBy calls).length = 6 := by decide +kernel
  have hsome : (leaderboardAfter shortText calls none).isSome = true := by decide +kernel
  rcases leaderboard_reads_back shortText calls hlimit with
    ⟨hnone, -⟩ | ⟨text, rows, htext, hrows, hshows, -, -⟩
  · rw [hnone] at hsome
    cases hsome
  · exact ⟨text, rows, htext, hrows, by rw [← hshows.length_eq, hcount], hshows⟩

end KeelTrader.Research
