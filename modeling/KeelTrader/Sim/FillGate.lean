import Mathlib.Data.Set.Card
import KeelTrader.Lib.Xorshift
import KeelTrader.Sim.HoldClock

set_option relaxedAutoImplicit false
set_option autoImplicit false

/-!
# The fill gate

`fill_probability` is the probability that an order fills. The gate draws a roll, one of `2²⁴`
equidistant numbers in `[0, 1)`, and lets the order through when the roll is at most the
probability. Equality is let through too, so that `m + 1` of the rolls pass a gate of `m / 2²⁴`, and
an order with the probability `0` fills at the roll of `0`.

## Main definitions

* `KeelTrader.Sim.keelSeed` — `keel_seed`.
* `KeelTrader.Sim.RngState` — the states of the generator.
* `KeelTrader.Sim.rolls`, `fillingRolls` — the rolls, and those that pass the gate.
* `KeelTrader.Sim.opensPosition`, `NoEntries` — a step opens a position; no step of a run does.

## Main results

* `KeelTrader.Sim.fastRandU64_bijOn`, `rngState_iff` — the states are the words other than zero,
  and a draw permutes them.
* `KeelTrader.Sim.episode_rng` — what every draw keeps holds in every state of a run.
* `KeelTrader.Sim.rolls_eq`, `fillingRolls_eq` — the rolls of each kind.
* `KeelTrader.Sim.opensPosition_iff` — a step opens what it would open without a gate, when the gate
  lets it through.
* `KeelTrader.Sim.noEntries_iff` — the number of the rolls that fill, and the runs with the
  probability `0` that open nothing.
-/

namespace KeelTrader.Sim

open Checked Xorshift

/-- `keel_seed`: the state of the generator that a seed sets. -/
def keelSeed (s : UInt64) : UInt64 := if s ≠ 0 then s else 0x9E3779B97F4A7C15

/-- A state of the generator: one that `keel_seed` sets, or that a run reaches. -/
inductive RngState : UInt64 → Prop
  | seeded (seed : UInt64) : RngState (keelSeed seed)
  | reached {lm : Libm} {md : MarketData} {p : Params} {env e : EnvState} {actions : List ℤ} :
    RngState env.rng → episode lm md p env actions = .ok e → RngState e.rng

/-- The rolls of the states of the generator. -/
def rolls : Set ℚ := {r | ∃ s, RngState s ∧ (fastRandFloat s).1 = r}

/-- The rolls at which an order fills. -/
def fillingRolls (p : Params) : Set ℚ :=
  {r | ∃ s, RngState s ∧ (fastRandFloat s).1 = r ∧ (fillGate p s).1 = true}

/-- The parameters without a fill gate: every order fills. -/
def Params.ungated (p : Params) : Params := { p with fillProbability := 1 }

/-- The step opens a position: it leaves one that the forced close before the action did not
leave. -/
def opensPosition (md : MarketData) (p : Params) (e : EnvState) (action : ℤ) : Checked Bool := do
  let (forced, _) ← forceClose md p (tradeRow md e.agent) e.agent
  let x ← executeBar md p e.agent e.rng action
  pure (decide (0 ≤ x.agent.positionSym ∧ x.agent.positionSym ≠ forced.positionSym))

/-- No step of the run opens a position. -/
def NoEntries (lm : Libm) (md : MarketData) (p : Params) (env : EnvState)
    (actions : List ℤ) : Prop :=
  EveryStep lm md p env actions fun e a _ => opensPosition md p e a ≠ .ok true

variable {lm : Libm} {md : MarketData} {p : Params} {t : ℤ} {ag : AgentState} {s : UInt64}

/-! ## The generator -/

lemma keelSeed_of_ne (h : s ≠ 0) : keelSeed s = s := if_pos h

lemma keelSeed_ne_zero (s : UInt64) : keelSeed s ≠ 0 := by
  unfold keelSeed
  split_ifs with h
  · exact h
  · decide

lemma toBitVec_eq_zero : s.toBitVec = 0#64 ↔ s = 0 := by
  rw [← UInt64.toBitVec_inj]
  rfl

/-- A draw moves the state on with the three shifts; it takes the state zero for the seed zero. -/
lemma toBitVec_fastRandU64 (s : UInt64) :
    (fastRandU64 s).2.toBitVec = next 12 25 27 (keelSeed s).toBitVec := by
  unfold fastRandU64 keelSeed
  by_cases h : s = 0
  · rw [if_pos h, if_neg (not_not.mpr h)]
    rfl
  · rw [if_neg h, if_pos h]
    rfl

/-- **A draw** permutes the states that are not zero. -/
theorem fastRandU64_bijOn : Set.BijOn (fun s => (fastRandU64 s).2) {s | s ≠ 0} {s | s ≠ 0} := by
  have hbij : Function.Bijective (next 12 25 27 : BitVec 64 → BitVec 64) :=
    next_bijective (by norm_num) (by norm_num) (by norm_num)
  have hzero (x : BitVec 64) : next 12 25 27 x = 0#64 ↔ x = 0#64 :=
    next_eq_zero (by norm_num) (by norm_num) (by norm_num)
  refine ⟨fun s hs => ?_, fun s hs s' hs' h => ?_, fun s hs => ?_⟩
  · change (fastRandU64 s).2 ≠ 0
    rw [Ne, ← toBitVec_eq_zero, toBitVec_fastRandU64, hzero, toBitVec_eq_zero]
    exact keelSeed_ne_zero s
  · have hnext := congrArg UInt64.toBitVec h
    dsimp only at hnext
    rw [toBitVec_fastRandU64, toBitVec_fastRandU64, keelSeed_of_ne hs, keelSeed_of_ne hs'] at hnext
    exact UInt64.toBitVec_inj.mp (hbij.injective hnext)
  · obtain ⟨x, hx⟩ := hbij.surjective s.toBitVec
    have hne : UInt64.ofBitVec x ≠ 0 := by
      intro h
      rw [← toBitVec_eq_zero, UInt64.toBitVec_ofBitVec] at h
      rw [h, next_zero] at hx
      exact hs (toBitVec_eq_zero.mp hx.symm)
    refine ⟨UInt64.ofBitVec x, hne, UInt64.toBitVec_inj.mp ?_⟩
    rw [toBitVec_fastRandU64, keelSeed_of_ne hne, UInt64.toBitVec_ofBitVec, hx]

/-- Every word but zero is drawn in some state. -/
lemma exists_fastRandU64 {u : UInt64} (hu : u ≠ 0) : ∃ s, s ≠ 0 ∧ (fastRandU64 s).1 = u := by
  have hinv : (0x2545F4914F6CDD1D#64) * 0x59071D96D81ECD35#64 = 1#64 := by decide
  obtain ⟨y, hy⟩ := (mul_bijective hinv).surjective u.toBitVec
  have hne : UInt64.ofBitVec y ≠ 0 := by
    intro h
    rw [← toBitVec_eq_zero, UInt64.toBitVec_ofBitVec] at h
    rw [h] at hy
    exact hu (toBitVec_eq_zero.mp (by simpa using hy.symm))
  obtain ⟨s, hs, hnext⟩ := fastRandU64_bijOn.surjOn hne
  refine ⟨s, hs, UInt64.toBitVec_inj.mp ?_⟩
  change ((fastRandU64 s).2 * _).toBitVec = _
  dsimp only at hnext
  rw [hnext, ← hy]
  rfl

/-! ## The states of a run -/

section Run

variable {I : UInt64 → Prop} (hI : ∀ s, I s → I (fastRandU64 s).2)

include hI

lemma fillGate_rng (p : Params) {rng : UInt64} (h : I rng) : I (fillGate p rng).2 := by
  unfold fillGate
  split_ifs
  · exact hI _ h
  · exact h

lemma resetAgentState_rng (md : MarketData) (p : Params) {rng : UInt64} (h : I rng) :
    I (resetAgentState md p rng).2 := by
  unfold resetAgentState startOffset fastRandInt
  dsimp only
  split_ifs
  · exact h
  · exact h
  · exact h
  · exact h
  · exact hI _ h

lemma enterTarget_rng (isShort : Bool) (sym : ℤ) (alloc level : ℚ) {rng : UInt64} (events : ℤ)
    (h : I rng) : Ensures (enterTarget md p t isShort sym alloc level ag rng events) fun r =>
      I r.2.1 := by
  have hgate := fillGate_rng hI p h
  unfold enterTarget
  dsimp only
  refine Ensures.ite (fun _ => ?_) fun _ => Ensures.pure hgate
  exact Ensures.self.bind fun ag' _ => Ensures.pure hgate

lemma goTarget_rng (tradable isShort : Bool) (sym allocIdx levelIdx : ℤ) {rng : UInt64}
    (h : I rng) : Ensures (goTarget md p t tradable isShort sym allocIdx levelIdx ag rng) fun r =>
      I r.2.1 := by
  unfold goTarget
  refine Ensures.self.bind fun alloc _ => Ensures.self.bind fun level _ => ?_
  refine Ensures.self.bind fun targetTradable _ => ?_
  refine Ensures.ite (fun _ => Ensures.pure h) fun _ => ?_
  refine Ensures.ite (fun _ => Ensures.pure h) fun _ => ?_
  refine Ensures.ite (fun _ => Ensures.pure h) fun _ => ?_
  refine Ensures.ite (fun _ => ?_) fun _ => enterTarget_rng hI isShort sym alloc level 0 h
  refine Ensures.self.bind fun r _ => ?_
  exact Ensures.ite (fun _ => enterTarget_rng hI isShort sym alloc level 1 h)
    fun _ => Ensures.pure h

lemma executeBar_rng {rng : UInt64} (action : ℤ) (h : I rng) :
    Ensures (executeBar md p ag rng action) fun x => I x.rng := by
  unfold executeBar
  refine Ensures.self.bind fun r _ => Ensures.self.bind fun tradable _ => ?_
  refine Ensures.self.bind fun anyTradable _ => Ensures.self.bind fun equity _ => ?_
  refine Ensures.bind (P := fun r' => I r'.2.1) ?_ fun r' hr' => Ensures.pure hr'
  unfold applyAction
  refine Ensures.self.bind fun d _ => ?_
  cases d with
  | flat => exact Ensures.self.bind fun r' _ => Ensures.pure h
  | target isShort sym allocIdx levelIdx =>
    exact goTarget_rng hI tradable isShort sym allocIdx levelIdx h
  | invalid => exact Ensures.pure h

/-- A step keeps what every draw keeps. -/
lemma cStep_rng {env : EnvState} (action : ℤ) (h : I env.rng) :
    Ensures (cStep lm md p env action) fun env' => I env'.rng := by
  unfold cStep
  refine (executeBar_rng hI action h).bind fun x hx => Ensures.self.bind fun m _ => ?_
  refine Ensures.self.bind fun reward _ => Ensures.self.bind fun earlyExit _ => ?_
  refine Ensures.ite (fun _ => ?_) fun _ => Ensures.self.bind fun obs _ => Ensures.pure hx
  unfold finishEpisode
  refine Ensures.self.bind fun r _ => Ensures.self.bind fun log _ => ?_
  exact Ensures.self.bind fun obs _ => Ensures.pure (resetAgentState_rng hI md p hx)

/-- **Runs.** What every draw keeps holds of the generator in every state of a run. -/
theorem episode_rng {env : EnvState} (h : I env.rng) (actions : List ℤ) :
    Ensures (episode lm md p env actions) fun env' => I env'.rng := by
  refine episode_ensures (I := fun env' => I env'.rng) ?_ actions fun e a _ => cStep_rng hI a
  exact Ensures.self.bind fun obs _ => Ensures.pure (resetAgentState_rng hI md p h)

end Run

/-- **The states of the generator** are the ones that are not zero. -/
theorem rngState_iff : RngState s ↔ s ≠ 0 := by
  constructor
  · intro h
    induction h with
    | seeded seed => exact keelSeed_ne_zero seed
    | reached _ hrun ih => exact episode_rng (fun s hs => fastRandU64_bijOn.mapsTo hs) ih _ _ hrun
  · intro h
    rw [← keelSeed_of_ne h]
    exact .seeded s

/-! ## Rolls -/

/-- The roll `k / 2²⁴`. -/
def rollOf (k : ℕ) : ℚ := k / 2 ^ 24

lemma rollOf_le {j k : ℕ} : rollOf j ≤ rollOf k ↔ j ≤ k := by
  unfold rollOf
  rw [div_le_div_iff_of_pos_right (by norm_num), Nat.cast_le]

lemma rollOf_injective : Function.Injective rollOf := by
  intro j k h
  exact le_antisymm (rollOf_le.mp h.le) (rollOf_le.mp h.ge)

/-- A roll is the top bits of a draw. -/
lemma fastRandFloat_eq (s : UInt64) :
    (fastRandFloat s).1 = rollOf ((fastRandU64 s).1.toNat / 2 ^ 40) := by
  have htop : ((fastRandU64 s).1 >>> 40).toNat = (fastRandU64 s).1.toNat / 2 ^ 40 := by
    rw [UInt64.toNat_shiftRight, ← Nat.shiftRight_eq_div_pow]
    rfl
  unfold fastRandFloat rollOf
  dsimp only
  rw [htop]
  norm_num [div_eq_mul_inv]

/-- A roll is one of `2²⁴` numbers. -/
lemma exists_rollOf (s : UInt64) : ∃ k < 2 ^ 24, (fastRandFloat s).1 = rollOf k := by
  refine ⟨_, ?_, fastRandFloat_eq s⟩
  have hlt := (fastRandU64 s).1.toNat_lt
  omega

/-- **Rolls** are in `[0, 1)`. -/
theorem fastRandFloat_range (s : UInt64) : 0 ≤ (fastRandFloat s).1 ∧ (fastRandFloat s).1 < 1 := by
  obtain ⟨k, hk, hroll⟩ := exists_rollOf s
  rw [hroll]
  have hlt : (k : ℚ) < 2 ^ 24 := by exact_mod_cast hk
  unfold rollOf
  constructor
  · positivity
  · rwa [div_lt_one (by norm_num)]

/-- Each of the numbers is a roll. -/
lemma exists_rngState {k : ℕ} (hk : k < 2 ^ 24) :
    ∃ s, RngState s ∧ (fastRandFloat s).1 = rollOf k := by
  -- a draw that is not zero, even where its top bits are
  have hdraw : (UInt64.ofNat (k * 2 ^ 40 + 1)).toNat = k * 2 ^ 40 + 1 :=
    UInt64.toNat_ofNat_of_lt (by simp [UInt64.size]; omega)
  have hne : UInt64.ofNat (k * 2 ^ 40 + 1) ≠ 0 := by
    intro h
    rw [h] at hdraw
    exact absurd hdraw (by simp)
  obtain ⟨s, hs, hu⟩ := exists_fastRandU64 hne
  refine ⟨s, rngState_iff.mpr hs, ?_⟩
  rw [fastRandFloat_eq, hu, hdraw]
  congr 1
  omega

/-- **The rolls** are the multiples of `2⁻²⁴` in `[0, 1)`. -/
theorem rolls_eq : rolls = rollOf '' Set.Iio (2 ^ 24) := by
  ext r
  constructor
  · rintro ⟨s, -, rfl⟩
    obtain ⟨k, hk, hroll⟩ := exists_rollOf s
    exact ⟨k, hk, hroll.symm⟩
  · rintro ⟨k, hk, rfl⟩
    exact exists_rngState hk

/-- The gate lets a roll through that is at most the probability. -/
lemma fillGate_fst (p : Params) (s : UInt64) :
    (fillGate p s).1 = true ↔ (fastRandFloat s).1 ≤ p.fillProbability := by
  unfold fillGate
  split_ifs with h
  · exact decide_eq_true_iff
  · have hlt := (fastRandFloat_range s).2
    exact ⟨fun _ => hlt.le.trans (not_lt.mp h), fun _ => rfl⟩

/-- **The gate** of `m / 2²⁴` lets the rolls up to `m / 2²⁴` through, that one included. -/
theorem fillingRolls_eq {m : ℕ} (hm : m < 2 ^ 24) (hp : p.fillProbability = rollOf m) :
    fillingRolls p = rollOf '' Set.Iio (m + 1) := by
  ext r
  constructor
  · rintro ⟨s, -, rfl, hgate⟩
    obtain ⟨k, -, hroll⟩ := exists_rollOf s
    rw [fillGate_fst, hroll, hp, rollOf_le] at hgate
    exact ⟨k, Nat.lt_succ_of_le hgate, hroll.symm⟩
  · rintro ⟨k, hk, rfl⟩
    have hle := Nat.le_of_lt_succ hk
    obtain ⟨s, hs, hroll⟩ := exists_rngState (hle.trans_lt hm)
    refine ⟨s, hs, hroll, ?_⟩
    rw [fillGate_fst, hroll, hp, rollOf_le]
    exact hle

lemma ncard_rollOf (n : ℕ) : (rollOf '' Set.Iio n).ncard = n := by
  rw [Set.ncard_image_of_injective _ rollOf_injective, ← Finset.coe_range, Set.ncard_coe_finset,
    Finset.card_range]

/-! ## Entries -/

/-- Without a gate, every order is let through and no word is drawn. -/
lemma fillGate_ungated (p : Params) (rng : UInt64) : fillGate p.ungated rng = (true, rng) :=
  if_neg (lt_irrefl (1 : ℚ))

/-- An order that the gate lets through is carried out as without a gate. -/
lemma enterTarget_passed {rng : UInt64} (hgate : (fillGate p rng).1 = true) (isShort : Bool)
    (sym : ℤ) (alloc level : ℚ) (events : ℤ) :
    Prod.fst <$> enterTarget md p t isShort sym alloc level ag rng events =
      Prod.fst <$> enterTarget md p.ungated t isShort sym alloc level ag rng events := by
  unfold enterTarget
  rw [fillGate_ungated]
  dsimp only
  rw [if_pos hgate, if_pos rfl, map_bind, map_bind]
  rfl

lemma goTarget_passed {rng : UInt64} (hgate : (fillGate p rng).1 = true) (tradable isShort : Bool)
    (sym allocIdx levelIdx : ℤ) :
    Prod.fst <$> goTarget md p t tradable isShort sym allocIdx levelIdx ag rng =
      Prod.fst <$> goTarget md p.ungated t tradable isShort sym allocIdx levelIdx ag rng := by
  have hclose : closePosition md p.ungated t ag = closePosition md p t ag := rfl
  have halloc : actionAllocationPct p.ungated allocIdx = actionAllocationPct p allocIdx := rfl
  have hlevel : actionLevelOffsetBps p.ungated levelIdx = actionLevelOffsetBps p levelIdx := rfl
  unfold goTarget
  rw [hclose, halloc, hlevel]
  simp only [map_bind]
  congr! 6 with alloc level targetTradable
  -- nothing is ordered when the agent is there already, or one of the two markets is closed
  split_ifs
  · rfl
  · rfl
  · rfl
  · rfl
  · simp only [map_bind]
    congr! 2 with r
    split_ifs
    · exact enterTarget_passed hgate isShort sym alloc level 1
    · rfl
  · exact enterTarget_passed hgate isShort sym alloc level 0

/-- An action whose order the gate lets through is carried out as without a gate. -/
lemma applyAction_passed {rng : UInt64} (hgate : (fillGate p rng).1 = true) (tradable : Bool)
    (action : ℤ) : Prod.fst <$> applyAction md p t tradable action ag rng =
      Prod.fst <$> applyAction md p.ungated t tradable action ag rng := by
  have hdecode : decodeAction p.ungated md.numSymbols action =
      decodeAction p md.numSymbols action := rfl
  unfold applyAction
  rw [hdecode, map_bind, map_bind]
  congr 1
  funext d
  cases d with
  | flat => rfl
  | target isShort sym allocIdx levelIdx =>
    exact goTarget_passed hgate tradable isShort sym allocIdx levelIdx
  | invalid => rfl

/-- A bar whose order the gate lets through is traded as without a gate. -/
lemma executeBar_passed {rng : UInt64} (hgate : (fillGate p rng).1 = true) (action : ℤ) :
    Executed.agent <$> executeBar md p ag rng action =
      Executed.agent <$> executeBar md p.ungated ag rng action := by
  have hforce : forceClose md p.ungated (tradeRow md ag) ag = forceClose md p (tradeRow md ag) ag :=
    rfl
  unfold executeBar
  dsimp only
  rw [hforce]
  simp only [map_bind, map_pure]
  congr! 8 with r tradable equity
  simpa only [bind_pure_comp] using applyAction_passed hgate tradable action

lemma opensPosition_eq (md : MarketData) (p : Params) (e : EnvState) (action : ℤ) :
    opensPosition md p e action = forceClose md p (tradeRow md e.agent) e.agent >>= fun forced =>
      (fun b : AgentState => decide (0 ≤ b.positionSym ∧ b.positionSym ≠ forced.1.positionSym)) <$>
        (Executed.agent <$> executeBar md p e.agent e.rng action) := by
  simp only [opensPosition, Functor.map_map, bind_pure_comp]

/-- A step whose order the gate lets through opens what it opens without a gate. -/
lemma opensPosition_passed {e : EnvState} (hgate : (fillGate p e.rng).1 = true) (action : ℤ) :
    opensPosition md p e action = opensPosition md p.ungated e action := by
  have hforce : forceClose md p.ungated (tradeRow md e.agent) e.agent =
      forceClose md p (tradeRow md e.agent) e.agent := rfl
  rw [opensPosition_eq, opensPosition_eq, hforce, executeBar_passed hgate]

/-- Without entries, an agent keeps its position or loses it. -/
lemma symInvariant (ag : AgentState) : SideInvariant md p (fun _ => False) fun ag' =>
    ag'.positionSym < 0 ∨ ag'.positionSym = ag.positionSym where
  hold _ _ h := h
  closed t ag' ag'' hclose _ := by
    obtain ⟨-, sym, price, -, -, rfl⟩ := closedAt_of_close hclose
    exact .inl (by simp [AgentState.closedAt])
  opened _ _ _ _ _ _ _ hside := hside.elim

lemma enterTarget_refused {rng : UInt64} (hgate : ¬(fillGate p rng).1 = true) (isShort : Bool)
    (sym : ℤ) (alloc level : ℚ) (events : ℤ) :
    Ensures (enterTarget md p t isShort sym alloc level ag rng events) fun r => r.1 = ag := by
  unfold enterTarget
  dsimp only
  rw [if_neg hgate]
  exact Ensures.pure rfl

lemma goTarget_refused {rng : UInt64} (hgate : ¬(fillGate p rng).1 = true)
    (tradable isShort : Bool) (sym allocIdx levelIdx : ℤ) :
    Ensures (goTarget md p t tradable isShort sym allocIdx levelIdx ag rng) fun r =>
      r.1.positionSym < 0 ∨ r.1.positionSym = ag.positionSym := by
  unfold goTarget
  refine Ensures.self.bind fun alloc _ => Ensures.self.bind fun level _ => ?_
  refine Ensures.self.bind fun targetTradable _ => ?_
  refine Ensures.ite (fun _ => Ensures.pure (.inr rfl)) fun _ => ?_
  refine Ensures.ite (fun _ => Ensures.pure (.inr ?_)) fun _ => ?_
  · dsimp only
    split_ifs <;> rfl
  refine Ensures.ite (fun _ => Ensures.pure (.inr rfl)) fun _ => ?_
  refine Ensures.ite (fun _ => ?_) fun _ => ?_
  · refine ((symInvariant ag).closePosition (.inr rfl)).bind fun r hr => ?_
    refine Ensures.ite (fun _ => ?_) fun _ => Ensures.pure hr.1
    refine (enterTarget_refused hgate isShort sym alloc level 1).mono fun r' hr' => ?_
    rw [hr']
    exact hr.1
  · refine (enterTarget_refused hgate isShort sym alloc level 0).mono fun r' hr' => .inr ?_
    rw [hr']

/-- An action whose order the gate refuses opens nothing. -/
lemma applyAction_refused {rng : UInt64} (hgate : ¬(fillGate p rng).1 = true) (tradable : Bool)
    (action : ℤ) : Ensures (applyAction md p t tradable action ag rng) fun r =>
      r.1.positionSym < 0 ∨ r.1.positionSym = ag.positionSym := by
  unfold applyAction
  refine Ensures.self.bind fun d _ => ?_
  cases d with
  | flat =>
    exact ((symInvariant ag).goFlat tradable (.inr rfl)).bind fun r hr => Ensures.pure hr
  | target isShort sym allocIdx levelIdx =>
    exact goTarget_refused hgate tradable isShort sym allocIdx levelIdx
  | invalid => exact Ensures.pure (.inr rfl)

/-- A step whose order the gate refuses opens nothing. -/
lemma opensPosition_refused {e : EnvState} (hgate : ¬(fillGate p e.rng).1 = true) (action : ℤ) :
    Ensures (opensPosition md p e action) fun opened => opened = false := by
  unfold opensPosition executeBar
  refine Ensures.self.bind fun forced hforced => Ensures.bind (P := fun x =>
    x.agent.positionSym < 0 ∨ x.agent.positionSym = forced.1.positionSym) ?_ fun x hx =>
      Ensures.pure ?_
  · dsimp only
    rw [bind_of_eq_ok hforced]
    refine Ensures.self.bind fun tradable _ => Ensures.self.bind fun anyTradable _ => ?_
    refine Ensures.self.bind fun equity _ => ?_
    exact (applyAction_refused hgate tradable action).bind fun r hr => Ensures.pure hr
  · rw [decide_eq_false_iff_not]
    rintro ⟨hpos, hne⟩
    exact hx.elim (not_lt.mpr hpos) hne

/-- **Entries.** A step opens what it would open without a gate, when the gate lets its order
through. -/
theorem opensPosition_iff (md : MarketData) (p : Params) (e : EnvState) (action : ℤ) :
    opensPosition md p e action = .ok true ↔
      (fillGate p e.rng).1 = true ∧ opensPosition md p.ungated e action = .ok true := by
  by_cases hgate : (fillGate p e.rng).1 = true
  · rw [opensPosition_passed hgate]
    exact ⟨fun h => ⟨hgate, h⟩, fun h => h.2⟩
  · refine ⟨fun h => ?_, fun h => absurd h.1 hgate⟩
    cases opensPosition_refused hgate action _ h

/-- **The fill gate.** The rolls are `2²⁴` numbers in `[0, 1)`, and `m + 1` of them fill an order
with the probability `m / 2²⁴`. With the probability `0` a run opens nothing exactly when no step of
it would open a position without the gate, in a state whose roll is `0`. -/
theorem noEntries_iff {m : ℕ} (hm : m < 2 ^ 24) (hp : p.fillProbability = rollOf m) :
    (∀ s, 0 ≤ (fastRandFloat s).1 ∧ (fastRandFloat s).1 < 1) ∧ rolls.ncard = 2 ^ 24 ∧
    (fillingRolls p).ncard = m + 1 ∧
    (m = 0 → ∀ lm md env actions, NoEntries lm md p env actions ↔
      EveryStep lm md p env actions fun e a _ =>
        (fastRandFloat e.rng).1 = 0 → opensPosition md p.ungated e a ≠ .ok true) := by
  refine ⟨fastRandFloat_range, ?_, ?_, ?_⟩
  · rw [rolls_eq, ncard_rollOf]
  · rw [fillingRolls_eq hm hp, ncard_rollOf]
  · rintro rfl lm md env actions
    have hzero (s : UInt64) : (fillGate p s).1 = true ↔ (fastRandFloat s).1 = 0 := by
      rw [fillGate_fst, hp, rollOf, Nat.cast_zero, zero_div]
      exact ⟨fun h => le_antisymm h (fastRandFloat_range s).1, le_of_eq⟩
    have hstep (e : EnvState) (a : ℤ) : opensPosition md p e a ≠ .ok true ↔
        ((fastRandFloat e.rng).1 = 0 → opensPosition md p.ungated e a ≠ .ok true) := by
      rw [Ne, opensPosition_iff, hzero, not_and]
    unfold NoEntries
    simp only [hstep]

/-- A gate of one half fills at `2²³ + 1` of the rolls. With the probability `0`, the first order
after the seed `7` does not fill. -/
theorem noEntries_iff_seven :
    (fillingRolls { keelEnvCreate with fillProbability := 1 / 2 }).ncard = 2 ^ 23 + 1 ∧
    NoEntries .firstOrder (wideMarket 9 fun _ => 100)
      { keelEnvCreate with forcedOffset := 0, fillProbability := 0 } (.zero (keelSeed 7)) [1] := by
  constructor
  · exact (noEntries_iff (by norm_num) (by norm_num [rollOf])).2.2.1
  · refine ((noEntries_iff (by norm_num) (by norm_num [rollOf])).2.2.2 rfl _ _ _ _).mpr ?_
    intro before action after hsplit e e' he _ hroll
    have hfirst : before = [] := by
      cases before with
      | nil => rfl
      | cons b before => simp at hsplit
    subst hfirst
    have hseed : ((fun e => decide ((fastRandFloat e.rng).1 = 0)) <$>
        episode .firstOrder (wideMarket 9 fun _ => 100)
          { keelEnvCreate with forcedOffset := 0, fillProbability := 0 } (.zero (keelSeed 7)) []) =
        .ok false := by decide +kernel
    rw [he] at hseed
    simp [hroll] at hseed

/-- The seed has the roll `0`, and the first order fills with the probability `0`. -/
theorem not_noEntries :
    ¬NoEntries .firstOrder (wideMarket 9 fun _ => 100)
      { keelEnvCreate with forcedOffset := 0, fillProbability := 0 }
      (.zero (keelSeed 0x98D76A164D99A710)) [1] :=
  not_everyStep [] 1 [] (by decide +kernel)

end KeelTrader.Sim
