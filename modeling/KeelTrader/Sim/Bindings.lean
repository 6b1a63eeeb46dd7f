import KeelTrader.Sim.TellingRuns

set_option relaxedAutoImplicit false
set_option autoImplicit false

/-!
# The two bindings

An environment is configured in one of two ways. The plain C interface of `sim/src/keel_sim.c`
starts from the defaults of `keel_env_create`, takes one parameter after another through
`keel_env_set_param`, and clamps three of them in `keel_env_finalize`. The Python binding of
`sim/src/binding.c` reads all of them from keyword arguments in `my_init`, with its own table of
defaults and its own clamps. Both are tables over the same names here, so that they can be
compared name by name.

## Main definitions

* `KeelTrader.Sim.EnvParam`, `Fields` — the parameters, and the fields of a `TradingEnv` that hold
  them.
* `KeelTrader.Sim.keelEnvSetParam`, `keelEnvFinalize`, `keelBuild` — the C interface.
* `KeelTrader.Sim.obsSize`, `numActions` — the sizes that both derive.
* `KeelTrader.Sim.myInit` — the Python binding.
* `KeelTrader.Sim.Keywords.Same` — both build the same environment.
* `KeelTrader.Sim.Keywords.Agree` — what the values have to be for that.

## Main results

* `KeelTrader.Sim.foldlM_setParam` — the order of the calls does not matter.
* `KeelTrader.Sim.myInit_params` — what `my_init` builds is what the C interface builds, clamped.
* `KeelTrader.Sim.same_iff_agree` — both build the same environment exactly when the values agree
  with both.

## Implementation notes

`none` stands for an environment that the caller does not get: a conversion that C leaves
undefined, or a Python exception. `my_init` returns `0` even when a read has raised, but the
interpreter does not return the result of a call that left an exception behind. A float raises
where `my_init` reads an integer, as `PyLong_AsLong` does from Python 3.10 on. Values are exact
fractions: the rounding to `float` is the same on both sides.
-/

namespace KeelTrader.Sim

/-! ## Parameters and values -/

/-- How a parameter is stored and read: `int` and `float` fields, and the `int` fields that
`my_init` reads with `PyObject_IsTrue`. -/
inductive Kind where
  | int | float | flag
  deriving DecidableEq, Repr

/-- The C type of a field. -/
abbrev Kind.Carrier : Kind → Type
  | .int => ℤ
  | .float => ℚ
  | .flag => ℤ

/-- The parameters of a `TradingEnv`. -/
inductive EnvParam where
  | maxSteps | feeRate | maxLeverage | shortBorrowApr | periodsPerYear | maxHoldHours
  | actionAllocationBins | actionLevelBins | actionMaxOffsetBps | rewardScale | rewardClip
  | cashPenalty | drawdownPenalty | downsidePenalty | smoothDownsidePenalty
  | smoothDownsideTemperature | tradePenalty | smoothnessPenalty | fillSlippageBps
  | fillBufferBps | fillProbability | decisionLag | deathSpiralToleranceBps
  | deathSpiralOvernightToleranceBps | deathSpiralStaleAfterBars | forcedOffset
  | enableDrawdownProfitEarlyExit | drawdownProfitEarlyExitVerbose
  | drawdownProfitEarlyExitMinSteps | drawdownProfitEarlyExitProgressFraction
  deriving DecidableEq, Repr

/-- The names that `keel_env_set_param` matches. -/
def EnvParam.all : List EnvParam :=
  [maxSteps, feeRate, maxLeverage, shortBorrowApr, periodsPerYear, maxHoldHours,
    actionAllocationBins, actionLevelBins, actionMaxOffsetBps, rewardScale, rewardClip,
    cashPenalty, drawdownPenalty, downsidePenalty, smoothDownsidePenalty,
    smoothDownsideTemperature, tradePenalty, smoothnessPenalty, fillSlippageBps,
    fillBufferBps, fillProbability, decisionLag, deathSpiralToleranceBps,
    deathSpiralOvernightToleranceBps, deathSpiralStaleAfterBars, forcedOffset,
    enableDrawdownProfitEarlyExit, drawdownProfitEarlyExitVerbose,
    drawdownProfitEarlyExitMinSteps, drawdownProfitEarlyExitProgressFraction]

lemma EnvParam.mem_all (k : EnvParam) : k ∈ EnvParam.all := by
  cases k <;> decide

/-- The kind of a parameter. -/
abbrev EnvParam.kind : EnvParam → Kind
  | .maxSteps | .maxHoldHours | .actionAllocationBins | .actionLevelBins | .decisionLag
  | .deathSpiralStaleAfterBars | .forcedOffset | .drawdownProfitEarlyExitMinSteps => .int
  | .enableDrawdownProfitEarlyExit | .drawdownProfitEarlyExitVerbose => .flag
  | _ => .float

/-- The C type of a parameter. -/
abbrev EnvParam.Carrier (k : EnvParam) : Type := k.kind.Carrier

/-- The fields of a `TradingEnv` that hold its parameters. -/
abbrev Fields : Type := (k : EnvParam) → k.Carrier

/-- The parameters that `c_reset` and `c_step` read: all but the `verbose` flag, which only
prints. -/
def Fields.toParams (f : Fields) : Params where
  maxSteps := f .maxSteps
  feeRate := f .feeRate
  maxLeverage := f .maxLeverage
  shortBorrowApr := f .shortBorrowApr
  periodsPerYear := f .periodsPerYear
  maxHoldHours := f .maxHoldHours
  enableDrawdownProfitEarlyExit := f .enableDrawdownProfitEarlyExit
  drawdownProfitEarlyExitMinSteps := f .drawdownProfitEarlyExitMinSteps
  drawdownProfitEarlyExitProgressFraction := f .drawdownProfitEarlyExitProgressFraction
  actionAllocationBins := f .actionAllocationBins
  actionLevelBins := f .actionLevelBins
  actionMaxOffsetBps := f .actionMaxOffsetBps
  rewardScale := f .rewardScale
  rewardClip := f .rewardClip
  cashPenalty := f .cashPenalty
  drawdownPenalty := f .drawdownPenalty
  downsidePenalty := f .downsidePenalty
  smoothDownsidePenalty := f .smoothDownsidePenalty
  smoothDownsideTemperature := f .smoothDownsideTemperature
  tradePenalty := f .tradePenalty
  smoothnessPenalty := f .smoothnessPenalty
  fillSlippageBps := f .fillSlippageBps
  fillBufferBps := f .fillBufferBps
  fillProbability := f .fillProbability
  decisionLag := f .decisionLag
  deathSpiralToleranceBps := f .deathSpiralToleranceBps
  deathSpiralOvernightToleranceBps := f .deathSpiralOvernightToleranceBps
  deathSpiralStaleAfterBars := f .deathSpiralStaleAfterBars
  forcedOffset := f .forcedOffset

/-- A finite Python number. -/
inductive PyNum where
  | int (z : ℤ)
  | float (q : ℚ)
  deriving DecidableEq, Repr

/-- `PyFloat_AsDouble`, and the `float(value)` that is passed to `keel_env_set_param`. -/
def PyNum.toRat : PyNum → ℚ
  | .int z => z
  | .float q => q

/-- Keyword arguments: the values that are given. -/
abbrev Keywords : Type := EnvParam → Option PyNum

/-! ## Conversions -/

/-- Truncation towards zero. -/
def truncate (v : ℚ) : ℤ := v.num.tdiv v.den

/-- The range of a C `int`. -/
def IsCInt (z : ℤ) : Prop := -2 ^ 31 ≤ z ∧ z < 2 ^ 31

instance : DecidablePred IsCInt := fun _ => inferInstanceAs (Decidable (_ ∧ _))

/-- `(int)v`, which C leaves undefined outside the range of an `int`. -/
def cInt (v : ℚ) : Option ℤ := if IsCInt (truncate v) then some (truncate v) else none

/-- Whether `PyLong_AsLong` raises: on a float, and outside the range of a C `long`. -/
def PyNum.longRaises : PyNum → Bool
  | .int z => !decide (-2 ^ 63 ≤ z ∧ z < 2 ^ 63)
  | .float _ => true

/-- `PyLong_AsLong`, which returns `-1` when it raises. -/
def PyNum.asLong (v : PyNum) : ℤ :=
  match v with
  | .int z => if v.longRaises then -1 else z
  | .float _ => -1

/-- `PyObject_IsTrue`. -/
def PyNum.isTrue (v : PyNum) : ℤ := if v.toRat = 0 then 0 else 1

/-! ## The C interface -/

/-- The assignment of `keel_env_set_param`: `env->k = (int)v` or `env->k = (float)v`. -/
def Kind.cast : (κ : Kind) → ℚ → Option κ.Carrier
  | .int, v => cInt v
  | .flag, v => cInt v
  | .float, v => some v

/-- `keel_env_set_param`. -/
def keelEnvSetParam (env : Fields) (k : EnvParam) (v : ℚ) : Option Fields :=
  (k.kind.cast v).map (Function.update env k)

/-- The fields that `keel_env_create` sets. -/
def keelEnvCreateFields : Fields
  | .maxSteps => keelEnvCreate.maxSteps
  | .feeRate => keelEnvCreate.feeRate
  | .maxLeverage => keelEnvCreate.maxLeverage
  | .shortBorrowApr => keelEnvCreate.shortBorrowApr
  | .periodsPerYear => keelEnvCreate.periodsPerYear
  | .maxHoldHours => keelEnvCreate.maxHoldHours
  | .actionAllocationBins => keelEnvCreate.actionAllocationBins
  | .actionLevelBins => keelEnvCreate.actionLevelBins
  | .actionMaxOffsetBps => keelEnvCreate.actionMaxOffsetBps
  | .rewardScale => keelEnvCreate.rewardScale
  | .rewardClip => keelEnvCreate.rewardClip
  | .cashPenalty => keelEnvCreate.cashPenalty
  | .drawdownPenalty => keelEnvCreate.drawdownPenalty
  | .downsidePenalty => keelEnvCreate.downsidePenalty
  | .smoothDownsidePenalty => keelEnvCreate.smoothDownsidePenalty
  | .smoothDownsideTemperature => keelEnvCreate.smoothDownsideTemperature
  | .tradePenalty => keelEnvCreate.tradePenalty
  | .smoothnessPenalty => keelEnvCreate.smoothnessPenalty
  | .fillSlippageBps => keelEnvCreate.fillSlippageBps
  | .fillBufferBps => keelEnvCreate.fillBufferBps
  | .fillProbability => keelEnvCreate.fillProbability
  | .decisionLag => keelEnvCreate.decisionLag
  | .deathSpiralToleranceBps => keelEnvCreate.deathSpiralToleranceBps
  | .deathSpiralOvernightToleranceBps => keelEnvCreate.deathSpiralOvernightToleranceBps
  | .deathSpiralStaleAfterBars => keelEnvCreate.deathSpiralStaleAfterBars
  | .forcedOffset => keelEnvCreate.forcedOffset
  | .enableDrawdownProfitEarlyExit => keelEnvCreate.enableDrawdownProfitEarlyExit
  | .drawdownProfitEarlyExitVerbose => (0 : ℤ)
  | .drawdownProfitEarlyExitMinSteps => keelEnvCreate.drawdownProfitEarlyExitMinSteps
  | .drawdownProfitEarlyExitProgressFraction =>
    keelEnvCreate.drawdownProfitEarlyExitProgressFraction

/-- The clamps of `keel_env_finalize`. -/
def keelEnvFinalize (env : Fields) : Fields
  | .actionAllocationBins => atLeast (1 : ℤ) (env .actionAllocationBins)
  | .actionLevelBins => atLeast (1 : ℤ) (env .actionLevelBins)
  | .decisionLag => atLeast (1 : ℤ) (env .decisionLag)
  | k => env k

/-- `keel_env_create`, a `keel_env_set_param` for every name of `order`, and
`keel_env_finalize`. -/
def keelBuild (kw : Keywords) (order : List EnvParam) : Option Fields := do
  let env ← order.foldlM (fun env k =>
    match kw k with
    | some v => keelEnvSetParam env k v.toRat
    | none => some env) keelEnvCreateFields
  pure (keelEnvFinalize env)

/-! ## The Python binding -/

/-- How `my_init` reads a value: `(int)PyLong_AsLong`, `(float)PyFloat_AsDouble` or
`PyObject_IsTrue`. -/
def Kind.read : (κ : Kind) → PyNum → κ.Carrier
  | .int, v => v.asLong.bmod (2 ^ 32)
  | .flag, v => v.isTrue
  | .float, v => v.toRat

/-- Whether the read leaves a Python exception behind. -/
def Kind.raises : Kind → PyNum → Bool
  | .int, v => v.longRaises
  | .flag, _ => false
  | .float, _ => false

/-- The defaults of `my_init`. -/
def myInitDefault : Fields
  | .maxSteps => (720 : ℤ)
  | .feeRate => (1 / 1000 : ℚ)
  | .maxLeverage => (1 : ℚ)
  | .shortBorrowApr => (0 : ℚ)
  | .periodsPerYear => (8760 : ℚ)
  | .maxHoldHours => (0 : ℤ)
  | .actionAllocationBins => (1 : ℤ)
  | .actionLevelBins => (1 : ℤ)
  | .actionMaxOffsetBps => (0 : ℚ)
  | .rewardScale => (10 : ℚ)
  | .rewardClip => (5 : ℚ)
  | .cashPenalty => (1 / 100 : ℚ)
  | .drawdownPenalty => (0 : ℚ)
  | .downsidePenalty => (0 : ℚ)
  | .smoothDownsidePenalty => (0 : ℚ)
  | .smoothDownsideTemperature => (2 / 100 : ℚ)
  | .tradePenalty => (0 : ℚ)
  | .smoothnessPenalty => (0 : ℚ)
  | .fillSlippageBps => (0 : ℚ)
  | .fillBufferBps => (0 : ℚ)
  | .fillProbability => (1 : ℚ)
  | .decisionLag => (2 : ℤ)
  | .deathSpiralToleranceBps => (0 : ℚ)
  | .deathSpiralOvernightToleranceBps => (500 : ℚ)
  | .deathSpiralStaleAfterBars => (8 : ℤ)
  | .forcedOffset => (-1 : ℤ)
  | .enableDrawdownProfitEarlyExit => (0 : ℤ)
  | .drawdownProfitEarlyExitVerbose => (0 : ℤ)
  | .drawdownProfitEarlyExitMinSteps => (20 : ℤ)
  | .drawdownProfitEarlyExitProgressFraction => (1 / 2 : ℚ)

/-- The clamps of `my_init`. -/
def myInitClamp : (k : EnvParam) → k.Carrier → k.Carrier
  | .actionAllocationBins, x => atLeast (1 : ℤ) x
  | .actionLevelBins, x => atLeast (1 : ℤ) x
  | .actionMaxOffsetBps, x => atLeast (0 : ℚ) x
  | .fillBufferBps, x => atLeast (0 : ℚ) x
  | .fillProbability, x => atMost (1 : ℚ) (atLeast (0 : ℚ) x)
  | .deathSpiralStaleAfterBars, x => atLeast (0 : ℤ) x
  | .decisionLag, x => atLeast (1 : ℤ) x
  | .forcedOffset, x => atLeast (-1 : ℤ) x
  | .drawdownProfitEarlyExitMinSteps, x => atLeast (0 : ℤ) x
  | .drawdownProfitEarlyExitProgressFraction, x => atMost (1 : ℚ) (atLeast (0 : ℚ) x)
  | _, x => x

/-- A value as `my_init` reads it, or its default. -/
def myInitRead (kw : Keywords) (k : EnvParam) : k.Carrier :=
  match kw k with
  | some v => k.kind.read v
  | none => myInitDefault k

/-- Whether the read of a parameter raises. -/
def Keywords.raises (kw : Keywords) (k : EnvParam) : Bool := (kw k).any k.kind.raises

/-- `my_init`. -/
def myInit (kw : Keywords) : Option Fields :=
  if EnvParam.all.any kw.raises then none else some fun k => myInitClamp k (myInitRead kw k)

/-! ## The same environment -/

/-- Both bindings build an environment, whatever the order of the calls of the C interface, and
the two environments show the same in every run. -/
def Keywords.Same (kw : Keywords) : Prop :=
  ∀ order : List EnvParam, (∀ k, k ∈ order ↔ (kw k).isSome) →
    ∃ env₁ env₂, keelBuild kw order = some env₁ ∧ myInit kw = some env₂ ∧
      SameRuns env₁.toParams env₂.toParams

/-- A value, truncated for an integer field. -/
def Kind.value : (κ : Kind) → ℚ → κ.Carrier
  | .int, v => truncate v
  | .flag, v => truncate v
  | .float, v => v

/-- The value that is given for a parameter, or its default. -/
def Keywords.value (kw : Keywords) : Fields := fun k =>
  match kw k with
  | some v => k.kind.value v.toRat
  | none => keelEnvCreateFields k

/-- The truth value that is given for the switch of the early exit, or its default. -/
def Keywords.switch (kw : Keywords) : ℤ :=
  match kw .enableDrawdownProfitEarlyExit with
  | some v => v.isTrue
  | none => 0

/-- Both bindings can convert a value: a parameter of type `int` is given as a Python integer in
the range of a C `int`, and a flag as a number that truncates to one. -/
def Kind.Converts : Kind → PyNum → Prop
  | .int, v => ∃ z, v = .int z ∧ IsCInt z
  | .flag, v => IsCInt (truncate v.toRat)
  | .float, _ => True

/-- The values agree with both bindings: they can be converted; the two parameters of the fills
are not negative, unless no order can fill at all; and the early exit is the same one with and
without the clamps and the truth value of its switch, unless no position can lose. -/
structure Keywords.Agree (kw : Keywords) : Prop where
  converts : ∀ k v, kw k = some v → k.kind.Converts v
  fills : kw.value.toParams.CanTrade →
    0 ≤ kw.value.toParams.fillBufferBps ∧ 0 ≤ kw.value.toParams.fillProbability
  exit : kw.value.toParams.CanLose → kw.value.toParams.KeepsExit kw.switch

/-! ## What the C interface builds -/

/-- The conversion to the field of a parameter is defined. -/
def Kind.Fits : Kind → ℚ → Prop
  | .float, _ => True
  | _, v => IsCInt (truncate v)

lemma Kind.cast_eq_some {κ : Kind} {v : ℚ} {x : κ.Carrier} :
    κ.cast v = some x ↔ κ.Fits v ∧ κ.value v = x := by
  have hint : ∀ z : ℤ, cInt v = some z ↔ IsCInt (truncate v) ∧ truncate v = z := by
    intro z
    unfold cInt
    split_ifs with h
    · simp [h]
    · simp [h]
  cases κ with
  | int => exact hint x
  | flag => exact hint x
  | float => exact ⟨fun h => ⟨trivial, Option.some.inj h⟩, fun h => congrArg some h.2⟩

/-- **Calls.** A list of calls for parameters with values succeeds when every value fits, and sets
every parameter of the list to its value: neither the order of the calls nor their number
matters. -/
theorem foldlM_setParam {kw : Keywords} (order : List EnvParam)
    (hgiven : ∀ k ∈ order, (kw k).isSome) : ∀ {env env' : Fields},
    order.foldlM (fun env k =>
      match kw k with
      | some v => keelEnvSetParam env k v.toRat
      | none => some env) env = some env' ↔
    (∀ k ∈ order, ∀ v, kw k = some v → k.kind.Fits v.toRat) ∧
      env' = fun k => if k ∈ order then kw.value k else env k := by
  induction order with
  | nil =>
    intro env env'
    simp [eq_comm]
  | cons a order ih =>
    intro env env'
    obtain ⟨v, hv⟩ := Option.isSome_iff_exists.mp (hgiven a List.mem_cons_self)
    have hvalue : kw.value a = a.kind.value v.toRat := by
      simp only [Keywords.value, hv]
    have hrest := fun k hk => hgiven k (List.mem_cons_of_mem a hk)
    have hset : (fun k => if k ∈ order then kw.value k
        else Function.update env a (a.kind.value v.toRat) k) =
        fun k => if k ∈ a :: order then kw.value k else env k := by
      funext k
      by_cases hk : k ∈ order
      · rw [if_pos hk, if_pos (List.mem_cons_of_mem a hk)]
      · rw [if_neg hk]
        by_cases hka : k = a
        · subst hka
          rw [Function.update_self, if_pos List.mem_cons_self, hvalue]
        · rw [Function.update_of_ne hka, if_neg (by simp [hka, hk])]
    rw [List.foldlM_cons]
    simp only [hv, keelEnvSetParam]
    constructor
    · intro h
      obtain ⟨env₁, h₁, h⟩ := Option.bind_eq_some_iff.mp h
      obtain ⟨x, hx, rfl⟩ := Option.map_eq_some_iff.mp h₁
      obtain ⟨hfits, rfl⟩ := Kind.cast_eq_some.mp hx
      obtain ⟨hall, rfl⟩ := (ih hrest).mp h
      refine ⟨List.forall_mem_cons.mpr ⟨fun w hw => ?_, hall⟩, hset⟩
      rw [hv] at hw
      cases hw
      exact hfits
    · rintro ⟨hall, rfl⟩
      rw [List.forall_mem_cons] at hall
      refine Option.bind_eq_some_iff.mpr ⟨_, ?_, (ih hrest).mpr ⟨hall.2, hset.symm⟩⟩
      exact Option.map_eq_some_iff.mpr ⟨_, Kind.cast_eq_some.mpr ⟨hall.1 v hv, rfl⟩, rfl⟩

/-- **The C interface** builds an environment when every given value fits, the same for every
order of the calls. -/
theorem keelBuild_eq_some {kw : Keywords} {order : List EnvParam}
    (horder : ∀ k, k ∈ order ↔ (kw k).isSome) {env : Fields} :
    keelBuild kw order = some env ↔
      (∀ k v, kw k = some v → k.kind.Fits v.toRat) ∧ env = keelEnvFinalize kw.value := by
  have hvalue : (fun k => if k ∈ order then kw.value k else keelEnvCreateFields k) = kw.value := by
    funext k
    by_cases hk : k ∈ order
    · exact if_pos hk
    · have hnone : kw k = none := by
        rw [horder, Option.not_isSome_iff_eq_none] at hk
        exact hk
      rw [if_neg hk]
      simp only [Keywords.value, hnone]
  have hall : (∀ k ∈ order, ∀ v, kw k = some v → k.kind.Fits v.toRat) ↔
      ∀ k v, kw k = some v → k.kind.Fits v.toRat := by
    refine ⟨fun h k v hv => h k ?_ v hv, fun h k _ v hv => h k v hv⟩
    rw [horder, hv]
    rfl
  unfold keelBuild
  constructor
  · intro h
    obtain ⟨env', h', h⟩ := Option.bind_eq_some_iff.mp h
    obtain ⟨hfits, rfl⟩ := (foldlM_setParam order fun k hk => (horder k).mp hk).mp h'
    rw [hvalue] at h
    exact ⟨hall.mp hfits, (Option.some.inj h).symm⟩
  · rintro ⟨hfits, rfl⟩
    refine Option.bind_eq_some_iff.mpr ⟨kw.value, ?_, rfl⟩
    exact (foldlM_setParam order fun k hk => (horder k).mp hk).mpr ⟨hall.mpr hfits, hvalue.symm⟩

/-! ## What the Python binding builds -/

lemma Keywords.any_raises {kw : Keywords} : EnvParam.all.any kw.raises = false ↔
    ∀ k v, kw k = some v → k.kind.raises v = false := by
  rw [List.any_eq_false]
  constructor
  · intro h k v hv
    have hk := h k k.mem_all
    simpa [Keywords.raises, hv] using hk
  · intro h k _
    cases hv : kw k with
    | none => simp [Keywords.raises, hv]
    | some v => simp [Keywords.raises, hv, h k v hv]

/-- **The Python binding** builds an environment when no read raises. -/
theorem myInit_eq_some {kw : Keywords} {env : Fields} : myInit kw = some env ↔
    (∀ k v, kw k = some v → k.kind.raises v = false) ∧
      env = fun k => myInitClamp k (myInitRead kw k) := by
  rw [← Keywords.any_raises, myInit]
  split_ifs with h
  · simp [h]
  · simp [h, eq_comm]

/-! ## Values that convert -/

lemma truncate_intCast (z : ℤ) : truncate z = z := by
  simp [truncate]

/-- A C `int` is a C `long`. -/
lemma longRaises_int {z : ℤ} (h : IsCInt z) : (PyNum.int z).longRaises = false := by
  have hlong : -2 ^ 63 ≤ z ∧ z < 2 ^ 63 := by
    unfold IsCInt at h
    omega
  rw [PyNum.longRaises, decide_eq_true hlong]
  rfl

/-- A value converts when the C interface can store it and the Python binding can read it. -/
lemma Kind.converts_iff {κ : Kind} {v : PyNum} :
    κ.Converts v ↔ κ.Fits v.toRat ∧ κ.raises v = false := by
  cases κ with
  | float => exact ⟨fun _ => ⟨trivial, rfl⟩, fun _ => trivial⟩
  | flag => exact ⟨fun h => ⟨h, rfl⟩, fun h => h.1⟩
  | int =>
    cases v with
    | float q =>
      refine iff_of_false ?_ fun h => Bool.false_ne_true h.2.symm
      rintro ⟨z, hz, -⟩
      cases hz
    | int z =>
      have htruncate : truncate (PyNum.int z).toRat = z := truncate_intCast z
      change (∃ z', PyNum.int z = .int z' ∧ IsCInt z') ↔
        IsCInt (truncate (PyNum.int z).toRat) ∧ _
      rw [htruncate]
      constructor
      · rintro ⟨z', hz', h⟩
        cases hz'
        exact ⟨h, longRaises_int h⟩
      · rintro ⟨h, -⟩
        exact ⟨z, rfl, h⟩

/-- Both bindings read the same from a value that converts, unless it is a flag. -/
lemma Kind.read_eq_value {κ : Kind} {v : PyNum} (hκ : κ ≠ .flag) (h : κ.Converts v) :
    κ.read v = κ.value v.toRat := by
  cases κ with
  | float => rfl
  | flag => exact absurd rfl hκ
  | int =>
    obtain ⟨z, rfl, hz⟩ := h
    have hread : (PyNum.int z).asLong = z := by
      simp [PyNum.asLong, longRaises_int hz]
    have htruncate : truncate (PyNum.int z).toRat = z := truncate_intCast z
    change (PyNum.int z).asLong.bmod (2 ^ 32) = truncate (PyNum.int z).toRat
    rw [hread, htruncate]
    unfold IsCInt at hz
    exact Int.bmod_eq_of_le (by omega) (by omega)

/-- The two tables of defaults are the same. -/
theorem myInitDefault_eq : myInitDefault = keelEnvCreateFields := by
  funext k
  cases k <;> rfl

/-- Values that convert are read as the C interface stores them, except for the flags. -/
lemma myInitRead_eq_value {kw : Keywords} (h : ∀ k v, kw k = some v → k.kind.Converts v)
    {k : EnvParam} (hk : k.kind ≠ .flag) : myInitRead kw k = kw.value k := by
  unfold myInitRead Keywords.value
  rw [myInitDefault_eq]
  cases hv : kw k with
  | none => rfl
  | some v => exact Kind.read_eq_value hk (h k v hv)

/-- **Clamps.** What `my_init` builds is what the C interface builds, clamped, and with the truth
value of the switch. -/
theorem myInit_params {kw : Keywords} (h : ∀ k v, kw k = some v → k.kind.Converts v) :
    Fields.toParams (fun k => myInitClamp k (myInitRead kw k)) =
      (keelEnvFinalize kw.value).toParams.clamped kw.switch := by
  have hread : myInitRead kw = Function.update (Function.update kw.value
      .enableDrawdownProfitEarlyExit kw.switch) .drawdownProfitEarlyExitVerbose
        (myInitRead kw .drawdownProfitEarlyExitVerbose) := by
    funext k
    by_cases hverbose : k = .drawdownProfitEarlyExitVerbose
    · subst hverbose
      rw [Function.update_self]
    rw [Function.update_of_ne hverbose]
    by_cases henable : k = .enableDrawdownProfitEarlyExit
    · subst henable
      rw [Function.update_self]
      rfl
    rw [Function.update_of_ne henable]
    refine myInitRead_eq_value h ?_
    cases k <;> simp_all
  rw [hread]
  rfl

/-! ## The sizes of the buffers -/

/-- `obs_size`, as `keel_env_finalize` and `my_init` compute it. -/
def obsSize (md : MarketData) : ℕ := md.numSymbols * md.featuresPerSym + 5 + md.numSymbols

/-- `num_actions`, as `keel_env_finalize` and `my_init` compute it. -/
def numActions (md : MarketData) (f : Fields) : ℤ :=
  1 + 2 * (md.numSymbols * f .actionAllocationBins * f .actionLevelBins)

/-- An observation fills its buffer. -/
theorem length_fillObservations {md : MarketData} {p : Params} {ag : AgentState} {obs : List ℚ}
    (h : fillObservations md p ag = .ok obs) : obs.length = obsSize md := by
  obtain ⟨feats, hfeats, h⟩ := Checked.bind_eq_ok.mp h
  obtain ⟨value, -, h⟩ := Checked.bind_eq_ok.mp h
  obtain ⟨hours, -, h⟩ := Checked.bind_eq_ok.mp h
  obtain ⟨episode, -, h⟩ := Checked.bind_eq_ok.mp h
  obtain ⟨row, -, hfeats⟩ := Checked.bind_eq_ok.mp hfeats
  rw [← Checked.pure_eq_ok.mp h, ← Checked.pure_eq_ok.mp hfeats]
  simp [obsSize, positionOneHot, List.length_flatMap]
  ring

/-- The two bindings decode the same number of actions. -/
theorem numActions_eq {kw : Keywords} (h : ∀ k v, kw k = some v → k.kind.Converts v)
    (md : MarketData) : numActions md (keelEnvFinalize kw.value) =
      numActions md fun k => myInitClamp k (myInitRead kw k) := by
  have halloc : myInitRead kw .actionAllocationBins = kw.value .actionAllocationBins :=
    myInitRead_eq_value h (by decide)
  have hlevel : myInitRead kw .actionLevelBins = kw.value .actionLevelBins :=
    myInitRead_eq_value h (by decide)
  simp only [numActions, keelEnvFinalize, myInitClamp, halloc, hlevel]

/-! ## When the two environments are the same -/

/-- The switch is off for both bindings when it is off for `my_init`. -/
lemma value_of_switch {kw : Keywords} (h : kw.switch = 0) :
    kw.value.toParams.enableDrawdownProfitEarlyExit = 0 := by
  change kw.value .enableDrawdownProfitEarlyExit = (0 : ℤ)
  unfold Keywords.switch at h
  unfold Keywords.value
  cases hv : kw .enableDrawdownProfitEarlyExit with
  | none => rfl
  | some v =>
    have hzero : v.toRat = 0 := by
      by_contra hne
      rw [hv] at h
      exact one_ne_zero ((if_neg hne).symm.trans h)
    change truncate v.toRat = 0
    rw [hzero]
    rfl

/-- The smallest allocation does not depend on the clamp of the bins. -/
lemma canLose_finalize (f : Fields) :
    (keelEnvFinalize f).toParams.CanLose ↔ f.toParams.CanLose := by
  have hleast : (keelEnvFinalize f).toParams.leastAllocation = f.toParams.leastAllocation := by
    unfold Params.leastAllocation
    change (if atLeast (1 : ℤ) (f .actionAllocationBins) ≤ 1 then _ else
      max _ (1 / ((atLeast (1 : ℤ) (f .actionAllocationBins) : ℤ) : ℚ))) =
        if f .actionAllocationBins ≤ (1 : ℤ) then _ else _
    rcases lt_or_ge (f .actionAllocationBins) (1 : ℤ) with hlow | hbins
    · rw [atLeast_of_lt hlow, if_pos le_rfl, if_pos hlow.le]
    · rw [atLeast_of_le hbins]
      rfl
  unfold Params.CanLose
  rw [hleast]
  rfl

/-- For values that convert, the question is what the clamps of `my_init` change. -/
theorem same_iff_sameRuns {kw : Keywords} (h : ∀ k v, kw k = some v → k.kind.Converts v) :
    kw.Same ↔ SameRuns (keelEnvFinalize kw.value).toParams
      ((keelEnvFinalize kw.value).toParams.clamped kw.switch) := by
  have hfits : ∀ k v, kw k = some v → k.kind.Fits v.toRat :=
    fun k v hv => (Kind.converts_iff.mp (h k v hv)).1
  have hraises : ∀ k v, kw k = some v → k.kind.raises v = false :=
    fun k v hv => (Kind.converts_iff.mp (h k v hv)).2
  rw [← myInit_params h]
  constructor
  · intro hsame
    obtain ⟨env₁, env₂, hkeel, hinit, hruns⟩ :=
      hsame (EnvParam.all.filter fun k => (kw k).isSome) fun k => by simp [EnvParam.mem_all k]
    have horder : ∀ k, k ∈ EnvParam.all.filter (fun k => (kw k).isSome) ↔ (kw k).isSome :=
      fun k => by simp [EnvParam.mem_all k]
    rw [((keelBuild_eq_some horder).mp hkeel).2, (myInit_eq_some.mp hinit).2] at hruns
    exact hruns
  · intro hruns order horder
    exact ⟨_, _, (keelBuild_eq_some horder).mpr ⟨hfits, rfl⟩, myInit_eq_some.mpr ⟨hraises, rfl⟩,
      hruns⟩

/-- Values from which both bindings build an environment convert. -/
lemma Keywords.Same.converts {kw : Keywords} (h : kw.Same) {k : EnvParam} {v : PyNum}
    (hv : kw k = some v) : k.kind.Converts v := by
  have horder : ∀ k, k ∈ EnvParam.all.filter (fun k => (kw k).isSome) ↔ (kw k).isSome :=
    fun k => by simp [EnvParam.mem_all k]
  obtain ⟨env₁, env₂, hkeel, hinit, -⟩ := h _ horder
  exact Kind.converts_iff.mpr
    ⟨((keelBuild_eq_some horder).mp hkeel).1 k v hv, (myInit_eq_some.mp hinit).1 k v hv⟩

/-- **The two bindings** build the same environment from the same values exactly when the values
agree with both. -/
theorem same_iff_agree (kw : Keywords) : kw.Same ↔ kw.Agree := by
  have hclamped : (∀ k v, kw k = some v → k.kind.Converts v) → (kw.Same ↔
      (kw.value.toParams.CanTrade →
        0 ≤ kw.value.toParams.fillBufferBps ∧ 0 ≤ kw.value.toParams.fillProbability) ∧
      (kw.value.toParams.CanLose → kw.value.toParams.KeepsExit kw.switch)) := by
    intro h
    have hoff : kw.switch = 0 →
        (keelEnvFinalize kw.value).toParams.enableDrawdownProfitEarlyExit = 0 := value_of_switch
    rw [same_iff_sameRuns h, sameRuns_clamped_iff hoff, canLose_finalize]
    rfl
  constructor
  · intro hsame
    have hconverts : ∀ k v, kw k = some v → k.kind.Converts v := fun k v hv => hsame.converts hv
    obtain ⟨hfills, hexit⟩ := (hclamped hconverts).mp hsame
    exact ⟨hconverts, hfills, hexit⟩
  · intro hagree
    exact (hclamped hagree.converts).mpr ⟨hagree.fills, hagree.exit⟩

/-- A negative buffer: the C interface fills a buy whose limit the market never reaches. -/
theorem not_same_negative_buffer :
    ¬Keywords.Same fun k =>
      if k = EnvParam.fillBufferBps then some (.float (-100)) else none := by
  have hconverts : ∀ (k : EnvParam) (v : PyNum), (if k = EnvParam.fillBufferBps then
      some (PyNum.float (-100)) else none) = some v → k.kind.Converts v := by
    intro k v hv
    split_ifs at hv with hk
    subst hk
    exact trivial
  rw [same_iff_sameRuns hconverts]
  refine not_sameRuns_of_fills ⟨?_, false, ?_⟩ fun h => ?_
  · decide +kernel
  · unfold Params.Fills
    decide +kernel
  · exact absurd h.1 (by decide +kernel)

end KeelTrader.Sim
