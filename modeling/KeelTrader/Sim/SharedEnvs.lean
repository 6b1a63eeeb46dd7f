import KeelTrader.Lib.Detached
import KeelTrader.Lib.Lockstep
import KeelTrader.Sim.FillGate
import KeelTrader.Sim.Bindings

set_option relaxedAutoImplicit false
set_option autoImplicit false

/-!
# Environments that share a thread

A process holds any number of `TradingEnv`s, over one data set, and calls them in any order:
`keel_env_set_param`, `keel_env_reset` and `keel_env_step` go to one environment, `keel_seed` to
none. The state of the generator is a variable of the thread, so a start row or a fill that one
environment draws moves it on for all of them.

Two facts make this safe to use. An environment with a forced start row and a fill probability of
at least `1` draws nothing, so its history is what its own calls alone produce, from any seed. And
whatever the calls are, as long as every environment is reset before it is stepped, no call fails
and every environment is consistent.

## Main definitions

* `KeelTrader.Sim.Handle`, `Call`, `Call.run` — an environment and the calls on it.
* `KeelTrader.Sim.sharedThread` — the environments of a thread.
* `KeelTrader.Sim.Fields.Deterministic` — nothing is drawn.

## Main results

* `KeelTrader.Sim.cStep_deterministic` — a step that draws nothing.
* `KeelTrader.Sim.sharedThread_isolated` — an environment that draws nothing does not notice the
  others.
* `KeelTrader.Sim.sharedThread_safe` — no call on environments that were reset fails.
-/

namespace KeelTrader.Sim

open Checked

/-! ## Environments and calls -/

/-- A `TradingEnv`: its parameters and its state. The generator is the thread's, and the field
for it stays `0`. -/
structure Handle where
  fields : Fields
  env : EnvState

/-- The calls on an environment, as `TradingEnv` of `sim/keel_sim.py` makes them. -/
inductive Call where
  /-- `keel_env_set_param`. -/
  | setParam (k : EnvParam) (v : ℚ)
  /-- `keel_env_reset`. -/
  | reset
  /-- `keel_env_set_action` and `keel_env_step`. -/
  | step (action : ℤ)
  deriving DecidableEq, Repr

/-- The environment after a call, and the generator that the call leaves behind. -/
def Handle.split (h : Handle) (e : EnvState) : Handle × UInt64 :=
  ({ h with env := { e with rng := 0 } }, e.rng)

/-- A call, in a thread whose generator is in state `g`: `none` when it fails. -/
def Call.run (lm : Libm) (md : MarketData) (g : UInt64) (h : Handle) :
    Call → Option (Handle × UInt64)
  | .setParam k v => (keelEnvSetParam h.fields k v).map fun f => ({ h with fields := f }, g)
  | .reset => (cReset md h.fields.toParams { h.env with rng := g }).toOption.map h.split
  | .step action =>
    (cStep lm md h.fields.toParams { h.env with rng := g } action).toOption.map h.split

/-- The environments of a thread, by their handles, and the calls of `keel_seed`. -/
def sharedThread (lm : Libm) (md : MarketData) : Actors ℕ Handle UInt64 Call UInt64 where
  act _ g h call := call.run lm md g h
  event seed _ := keelSeed seed

/-- The start row is given and every order fills. -/
structure Fields.Deterministic (f : Fields) : Prop where
  forcedOffset : (0 : ℤ) ≤ f .forcedOffset
  fillProbability : (1 : ℚ) ≤ f .fillProbability

/-- The call leaves the start row given and every order filling. -/
def Call.KeepsDeterministic : Call → Prop
  | .setParam .forcedOffset v => 0 ≤ truncate v
  | .setParam .fillProbability v => 1 ≤ v
  | _ => True

/-! ## Steps that draw nothing -/

section Deterministic

variable {lm : Libm} {md : MarketData} {p : Params}

/-- The second environment is the first one in a thread with another generator. -/
def OtherGenerator (g g' : UInt64) (e e' : EnvState) : Prop :=
  e.rng = g ∧ e' = { e with rng := g' }

/-- Nothing is drawn for an order that fills for sure. -/
lemma fillGate_of_one_le (hfill : 1 ≤ p.fillProbability) (g : UInt64) :
    fillGate p g = (true, g) := if_neg (not_lt.mpr hfill)

/-- Nothing is drawn for a start row that is given. -/
lemma startOffset_of_forced (hforced : 0 ≤ p.forcedOffset) (g g' : UInt64) :
    (startOffset md p g).2 = g ∧ (startOffset md p g').1 = (startOffset md p g).1 := by
  unfold startOffset
  dsimp only
  rw [if_pos hforced, if_pos hforced]
  exact ⟨rfl, rfl⟩

/-- An action in two threads. -/
lemma applyAction_deterministic (hfill : 1 ≤ p.fillProbability) (t : ℤ) (tradable : Bool)
    (action : ℤ) (ag : AgentState) (g g' : UInt64) :
    Lockstep (fun x y => x.2.1 = g ∧ y = (x.1, g', x.2.2))
      (applyAction md p t tradable action ag g) (applyAction md p t tradable action ag g') := by
  have henter : ∀ (isShort : Bool) (sym : ℤ) (alloc level : ℚ) (ag : AgentState) (events : ℤ),
      Lockstep (fun x y => x.2.1 = g ∧ y = (x.1, g', x.2.2))
        (enterTarget md p t isShort sym alloc level ag g events)
        (enterTarget md p t isShort sym alloc level ag g' events) := by
    intro isShort sym alloc level ag events
    unfold enterTarget
    rw [fillGate_of_one_le hfill, fillGate_of_one_le hfill]
    exact Lockstep.bind_same fun ag' _ => Lockstep.pure ⟨rfl, rfl⟩
  unfold applyAction
  refine Lockstep.bind_same fun d _ => ?_
  cases d with
  | flat => exact Lockstep.bind_same fun x _ => Lockstep.pure ⟨rfl, rfl⟩
  | target isShort sym allocIdx levelIdx =>
    unfold goTarget
    refine Lockstep.bind_same fun alloc _ => Lockstep.bind_same fun level _ => ?_
    refine Lockstep.bind_same fun isOpen _ => ?_
    refine Lockstep.ite Iff.rfl (fun _ => Lockstep.pure ⟨rfl, rfl⟩) fun _ => ?_
    refine Lockstep.ite Iff.rfl (fun _ => Lockstep.pure ⟨rfl, rfl⟩) fun _ => ?_
    refine Lockstep.ite Iff.rfl (fun _ => Lockstep.pure ⟨rfl, rfl⟩) fun _ => ?_
    refine Lockstep.ite Iff.rfl (fun _ => ?_) fun _ => henter _ _ _ _ _ _
    refine Lockstep.bind_same fun x _ => ?_
    exact Lockstep.ite Iff.rfl (fun _ => henter _ _ _ _ _ _) fun _ => Lockstep.pure ⟨rfl, rfl⟩
  | invalid => exact Lockstep.pure ⟨rfl, rfl⟩

/-- Trading at a bar in two threads. -/
lemma executeBar_deterministic (hfill : 1 ≤ p.fillProbability) (ag : AgentState) (action : ℤ)
    (g g' : UInt64) :
    Lockstep (fun x y : Executed => x.rng = g ∧ y = { x with rng := g' })
      (executeBar md p ag g action) (executeBar md p ag g' action) := by
  unfold executeBar
  refine Lockstep.bind_same fun x _ => Lockstep.bind_same fun tradable _ => ?_
  refine Lockstep.bind_same fun any _ => Lockstep.bind_same fun equity _ => ?_
  refine (applyAction_deterministic hfill _ _ action _ g g').bind fun y y' hy => ?_
  obtain ⟨hrng, rfl⟩ := hy
  exact Lockstep.pure ⟨hrng, rfl⟩

/-- **Steps.** A step that draws nothing does the same in every thread, and leaves the generator
as it is. -/
theorem cStep_deterministic (hforced : 0 ≤ p.forcedOffset) (hfill : 1 ≤ p.fillProbability)
    (e : EnvState) (action : ℤ) (g g' : UInt64) :
    Lockstep (OtherGenerator g g') (cStep lm md p { e with rng := g } action)
      (cStep lm md p { e with rng := g' } action) := by
  unfold cStep
  refine (executeBar_deterministic hfill e.agent action g g').bind fun x x' hx => ?_
  obtain ⟨hrng, rfl⟩ := hx
  refine Lockstep.bind_same fun m _ => Lockstep.bind_same fun reward _ => ?_
  refine Lockstep.bind_same fun earlyExit _ => ?_
  refine Lockstep.ite Iff.rfl (fun _ => ?_) fun _ => ?_
  · unfold finishEpisode resetAgentState
    dsimp only
    rw [hrng, (startOffset_of_forced hforced g g').2, (startOffset_of_forced hforced g g).1,
      (startOffset_of_forced hforced g' g).1]
    refine Lockstep.bind_same fun closed _ => Lockstep.bind_same fun log _ => ?_
    exact Lockstep.bind_same fun obs _ => Lockstep.pure ⟨rfl, rfl⟩
  · exact Lockstep.bind_same fun obs _ => Lockstep.pure ⟨hrng, rfl⟩

/-- The same of a reset. -/
lemma cReset_deterministic (hforced : 0 ≤ p.forcedOffset) (e : EnvState) (g g' : UInt64) :
    Lockstep (OtherGenerator g g') (cReset md p { e with rng := g })
      (cReset md p { e with rng := g' }) := by
  unfold cReset resetAgentState
  dsimp only
  rw [(startOffset_of_forced hforced g g').2, (startOffset_of_forced hforced g g).1,
    (startOffset_of_forced hforced g' g).1]
  exact Lockstep.bind_same fun obs _ => Lockstep.pure ⟨rfl, rfl⟩

/-- What a call leaves of an environment is the same in every thread. -/
lemma split_of_lockstep {x y : Checked EnvState} {g g' : UInt64} {h h' : Handle} {s : UInt64}
    (hxy : Lockstep (OtherGenerator g g') x y) (hx : x.toOption.map h.split = some (h', s)) :
    s = g ∧ h'.fields = h.fields ∧ y.toOption.map h.split = some (h', g') := by
  obtain ⟨e, he, hsplit⟩ := Option.map_eq_some_iff.mp hx
  cases x with
  | error f => cases he
  | ok e₁ =>
    cases he
    cases y with
    | error f => exact hxy.elim
    | ok e' =>
      obtain ⟨hrng, rfl⟩ := (hxy : OtherGenerator g g' e e')
      cases hsplit
      exact ⟨hrng, rfl, rfl⟩

end Deterministic

/-! ## Isolation -/

section Thread

variable {lm : Libm} {md : MarketData}

/-- Parameters that are set as `KeepsDeterministic` says stay deterministic. -/
lemma Fields.Deterministic.setParam {f f' : Fields} (h : f.Deterministic) {k : EnvParam} {v : ℚ}
    (hkeep : (Call.setParam k v).KeepsDeterministic) (hset : keelEnvSetParam f k v = some f') :
    f'.Deterministic := by
  obtain ⟨x, hx, rfl⟩ := Option.map_eq_some_iff.mp hset
  obtain ⟨-, rfl⟩ := Kind.cast_eq_some.mp hx
  constructor
  · by_cases hk : k = .forcedOffset
    · subst hk
      rw [Function.update_self]
      exact hkeep
    · rw [Function.update_of_ne (Ne.symm hk)]
      exact h.forcedOffset
  · by_cases hk : k = .fillProbability
    · subst hk
      rw [Function.update_self]
      exact hkeep
    · rw [Function.update_of_ne (Ne.symm hk)]
      exact h.fillProbability

/-- An environment that draws nothing is detached from the generator. -/
theorem sharedThread_detached (lm : Libm) (md : MarketData) (i : ℕ) :
    (sharedThread lm md).Detached i (fun h => h.fields.Deterministic)
      Call.KeepsDeterministic := by
  have hcall : ∀ {call : Call} {g : UInt64} (g' : UInt64) {h h' : Handle} {s : UInt64},
      h.fields.Deterministic → call.KeepsDeterministic →
      call.run lm md g h = some (h', s) →
      s = g ∧ h'.fields.Deterministic ∧ call.run lm md g' h = some (h', g') := by
    intro call g g' h h' s hdet hkeep hrun
    cases call with
    | setParam k v =>
      obtain ⟨f, hf, hpair⟩ := Option.map_eq_some_iff.mp hrun
      cases hpair
      exact ⟨rfl, hdet.setParam hkeep hf, Option.map_eq_some_iff.mpr ⟨f, hf, rfl⟩⟩
    | reset =>
      obtain ⟨hs, hfields, hrun'⟩ :=
        split_of_lockstep (cReset_deterministic hdet.forcedOffset h.env g g') hrun
      exact ⟨hs, hfields ▸ hdet, hrun'⟩
    | step action =>
      obtain ⟨hs, hfields, hrun'⟩ := split_of_lockstep
        (cStep_deterministic hdet.forcedOffset hdet.fillProbability h.env action g g') hrun
      exact ⟨hs, hfields ▸ hdet, hrun'⟩
  refine ⟨fun hdet hkeep hrun => ?_, fun hdet hkeep hrun g => ?_⟩
  · obtain ⟨hs, hdet', -⟩ := hcall 0 hdet hkeep hrun
    exact ⟨hs, hdet'⟩
  · exact (hcall g hdet hkeep hrun).2.2

/-- **Isolation.** An environment whose start row is given and whose orders all fill, and whose
own calls keep it so, does not notice the others of its thread: after any sequence of calls and
seeds, it is what its own calls alone make of it, from any state of the generator, and they leave
the generator as it is. -/
theorem sharedThread_isolated (lm : Libm) (md : MarketData) (i : ℕ)
    (moves : List (Actors.Move ℕ Call UInt64)) (c c' : Interleaving.Config ℕ Handle UInt64)
    (hdet : (c.localOf i).fields.Deterministic)
    (hkeep : ∀ call, .ask i call ∈ moves → call.KeepsDeterministic)
    (hrun : (sharedThread lm md).performAll c moves = some c') (g : UInt64) :
    ∃ d, (sharedThread lm md).performAll ⟨g, c.localOf⟩ (Actors.ownMoves i moves) = some d ∧
      d.localOf i = c'.localOf i ∧ d.shared = g := by
  obtain ⟨d, hd, hshared, hlocal⟩ := (sharedThread_detached lm md i).performAll hkeep hrun hdet
    (d := ⟨g, c.localOf⟩) rfl
  exact ⟨d, hd, hlocal, hshared⟩

/-- Two environments: the first starts at row `0`, the second draws its start row. -/
def twoEnvs : Interleaving.Config ℕ Handle UInt64 where
  shared := 7
  localOf i := ⟨Function.update keelEnvCreateFields .forcedOffset (if i = 0 then 0 else -1 : ℤ),
    .zero 0⟩

/-- The calls of the next theorems: the two environments take turns, with a seed in between. -/
def turns : List (Actors.Move ℕ Call UInt64) :=
  [.ask 1 .reset, .ask 0 .reset, .ask 0 (.setParam .maxSteps 4), .ask 1 (.step 1), .event 5,
    .ask 0 (.step 1), .ask 1 (.step 0), .ask 0 (.step 2)]

/-- The second environment moves the generator on, and the first does not notice. -/
theorem sharedThread_isolated_turns :
    ∃ c' d, (sharedThread .firstOrder (rowMarket 9 fun t => 100 + t)).performAll twoEnvs turns =
        some c' ∧
      (sharedThread .firstOrder (rowMarket 9 fun t => 100 + t)).performAll ⟨3, twoEnvs.localOf⟩
        (Actors.ownMoves 0 turns) = some d ∧
      d.localOf 0 = c'.localOf 0 ∧ d.shared = 3 := by
  have hsome : ((sharedThread .firstOrder (rowMarket 9 fun t => 100 + t)).performAll twoEnvs
      turns).isSome = true := by decide +kernel
  obtain ⟨c', hrun⟩ := Option.isSome_iff_exists.mp hsome
  have hkeep : ∀ call, .ask 0 call ∈ turns → call.KeepsDeterministic := by
    intro call hcall
    simp only [turns, List.mem_cons, Actors.Move.ask.injEq, reduceCtorEq, List.not_mem_nil,
      false_or, or_false, zero_ne_one, false_and, true_and] at hcall
    rcases hcall with rfl | rfl | rfl | rfl <;> exact trivial
  obtain ⟨d, hd⟩ := sharedThread_isolated .firstOrder _ 0 turns twoEnvs c'
    ⟨by decide, by decide +kernel⟩ hkeep hrun 3
  exact ⟨c', d, hrun, hd⟩

/-! ## Safety -/

/-- An environment between two calls: with a fee that is not negative and, once it was reset,
consistent and with an observation of the declared size. -/
def Handle.Ok (md : MarketData) (wasReset : Prop) (h : Handle) : Prop :=
  (0 : ℚ) ≤ h.fields .feeRate ∧
    (wasReset → h.env.agent.Ok md ∧ h.env.observations.length = obsSize md)

/-- The environment was reset by one of the moves. -/
def WasReset (moves : List (Actors.Move ℕ Call UInt64)) (i : ℕ) : Prop := .ask i .reset ∈ moves

/-- What a call needs: a value that fits the field, and a fee that is not negative. -/
def Call.Valid : Call → Prop
  | .setParam k v => k.kind.Fits v ∧ (k = .feeRate → 0 ≤ v)
  | _ => True

/-- A step leaves an observation of the declared size. -/
lemma cStep_observation {p : Params} {e : EnvState} {action : ℤ} :
    Ensures (cStep lm md p e action) fun e' => e'.observations.length = obsSize md := by
  unfold cStep
  refine Ensures.self.bind fun x _ => Ensures.self.bind fun m _ => ?_
  refine Ensures.self.bind fun reward _ => Ensures.self.bind fun earlyExit _ => ?_
  refine Ensures.ite (fun _ => ?_) fun _ => ?_
  · refine Ensures.self.bind fun closed _ => Ensures.self.bind fun log _ => ?_
    exact Ensures.self.bind fun obs hobs => Ensures.pure (length_fillObservations hobs)
  · exact Ensures.self.bind fun obs hobs => Ensures.pure (length_fillObservations hobs)

/-- A call that returns an environment returns it to its handle. -/
lemma split_of_returns {x : Checked EnvState} {P : EnvState → Prop} (h : Handle)
    (hx : Returns x P) :
    ∃ e, P e ∧ x.toOption.map h.split = some ({ h with env := { e with rng := 0 } }, e.rng) := by
  obtain ⟨e, rfl, hP⟩ := hx
  exact ⟨e, hP, rfl⟩

instance (κ : Kind) (v : ℚ) : Decidable (κ.Fits v) := by
  cases κ <;> unfold Kind.Fits <;> infer_instance

/-- **Calls.** A valid call on a consistent environment does not fail and leaves it consistent;
a reset makes it so. -/
theorem Call.run_ok (lm : Libm) (hS : 0 < md.numSymbols) (hT : 0 < md.numTimesteps) {call : Call}
    {h : Handle} {wasReset : Prop} (hok : h.Ok md wasReset) (hvalid : call.Valid)
    (hstep : ∀ action, call = .step action → wasReset) (g : UInt64) :
    ∃ h' g', call.run lm md g h = some (h', g') ∧ h'.Ok md (wasReset ∨ call = .reset) := by
  obtain ⟨hfee, hlive⟩ := hok
  cases call with
  | setParam k v =>
    obtain ⟨hfits, hfeev⟩ := hvalid
    have hset : keelEnvSetParam h.fields k v =
        some (Function.update h.fields k (k.kind.value v)) :=
      Option.map_eq_some_iff.mpr ⟨_, Kind.cast_eq_some.mpr ⟨hfits, rfl⟩, rfl⟩
    refine ⟨{ h with fields := Function.update h.fields k (k.kind.value v) }, g,
      by simp only [Call.run, hset, Option.map_some], ?_, fun hreset => ?_⟩
    · by_cases hk : k = .feeRate
      · subst hk
        dsimp only
        rw [Function.update_self]
        exact hfeev rfl
      · dsimp only
        rw [Function.update_of_ne (Ne.symm hk)]
        exact hfee
    · exact hlive (by simpa using hreset)
  | reset =>
    have hreset := (cReset_ok (p := h.fields.toParams) hT { h.env with rng := g }).of_values
      fun e he => (⟨(cReset_ok hT _).ensures e he, by
        obtain ⟨obs, hobs, he⟩ := bind_eq_ok.mp he
        rw [← pure_eq_ok.mp he]
        exact length_fillObservations hobs⟩ :
          e.agent.Ok md ∧ e.observations.length = obsSize md)
    obtain ⟨e, he, hrun⟩ := split_of_returns h hreset
    exact ⟨_, _, hrun, hfee, fun _ => he⟩
  | step action =>
    have hagent := (hlive (hstep action rfl)).1
    have hstep' := cStep_ok (p := h.fields.toParams) lm hS hT hfee { h.env with rng := g } action
      hagent
    obtain ⟨e, he, hrun⟩ := split_of_returns h (hstep'.of_values fun e he =>
      (⟨hstep'.ensures e he, cStep_observation e he⟩ :
        e.agent.Ok md ∧ e.observations.length = obsSize md))
    exact ⟨_, _, hrun, hfee, fun _ => he⟩

/-- **Safety.** Environments over one data set, each with a fee that is not negative, are called
in any order. When every value fits its parameter, no fee is negative, and every environment is
reset before its first step, no call fails: every environment that was reset is consistent, and
its observation has the declared size. -/
theorem sharedThread_safe (lm : Libm) (md : MarketData) (hS : 1 ≤ md.numSymbols)
    (hT : 1 ≤ md.numTimesteps) (moves : List (Actors.Move ℕ Call UInt64))
    (c : Interleaving.Config ℕ Handle UInt64)
    (hfee : ∀ i, (0 : ℚ) ≤ (c.localOf i).fields .feeRate)
    (hvalid : ∀ i call, .ask i call ∈ moves → call.Valid)
    (hfirst : ∀ n i action, moves[n]? = some (.ask i (.step action)) →
      WasReset (moves.take n) i) :
    ∃ c', (sharedThread lm md).performAll c moves = some c' ∧
      ∀ i, (c'.localOf i).Ok md (WasReset moves i) := by
  refine Actors.performAll_returns (J := fun past i h => Handle.Ok md (WasReset past i) h)
    (fun i => ⟨hfee i, by simp [WasReset]⟩) (fun past i call rest heq g h hJ => ?_)
    fun past move i h hmove hJ => ?_
  · have hstep : ∀ action, call = .step action → WasReset past i := by
      intro action hcall
      have hreset := hfirst past.length i action (by rw [heq, hcall]; simp)
      rwa [heq, List.take_left] at hreset
    obtain ⟨h', g', hrun, hok⟩ :=
      Call.run_ok lm hS hT hJ (hvalid i call (by rw [heq]; simp)) hstep g
    refine ⟨h', g', hrun, hok.1, fun hreset => hok.2 ?_⟩
    simpa [WasReset, eq_comm] using hreset
  · refine ⟨hJ.1, fun hreset => hJ.2 ?_⟩
    rcases List.mem_append.mp hreset with hpast | hlast
    · exact hpast
    · rw [List.mem_singleton.mp hlast |>.symm] at hmove
      simp [Actors.Move.isOf] at hmove

/-- Both environments are reset before they are stepped. -/
theorem sharedThread_safe_turns :
    ∃ c', (sharedThread .firstOrder (rowMarket 9 fun t => 100 + t)).performAll twoEnvs turns =
        some c' ∧
      ∀ i, (c'.localOf i).Ok (rowMarket 9 fun t => 100 + t) (WasReset turns i) := by
  refine sharedThread_safe .firstOrder (rowMarket 9 fun t => 100 + t) (by decide) (by decide) turns
    twoEnvs (fun i => ?_) (fun i call hcall => ?_) fun n i action hn => ?_
  · show (0 : ℚ) ≤ 1 / 1000
    norm_num
  · simp only [turns, List.mem_cons, Actors.Move.ask.injEq, reduceCtorEq, List.not_mem_nil,
      false_or, or_false] at hcall
    rcases hcall with ⟨rfl, rfl⟩ | ⟨rfl, rfl⟩ | ⟨rfl, rfl⟩ | ⟨rfl, rfl⟩ | ⟨rfl, rfl⟩ | ⟨rfl, rfl⟩ |
      ⟨rfl, rfl⟩
    all_goals first | exact trivial | exact ⟨by decide +kernel, fun h => by cases h⟩
  · have hlt : n < 8 := (List.getElem?_eq_some_iff.mp hn).1
    interval_cases n <;> simp_all [turns, WasReset]

end Thread

end KeelTrader.Sim
