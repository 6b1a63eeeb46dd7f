import KeelTrader.Lib.Alternating
import KeelTrader.Lib.PyValue
import KeelTrader.Lib.Raising
import KeelTrader.Models.Strategy

set_option relaxedAutoImplicit false
set_option autoImplicit false

/-!
# The paper runner

`core/paper_runner.py`: a decision cycle sells the held names that are no longer wanted and buys
the new ones. A sell is checked by the guard and a buy is recorded before its order is submitted,
and any of the three may raise, which ends the cycle where it is.

## Main definitions

* `KeelTrader.Core.PaperOrder`, `RunnerState` — the orders, and the state of a runner.
* `KeelTrader.Core.Spine` — the guard, the recording of a buy and the injected `submit`.
* `KeelTrader.Core.PaperRunner.step` — one decision cycle.
* `KeelTrader.Core.PaperRunner.runCycles` — cycles one after another, aborted ones included.
* `KeelTrader.Core.RunnerState.Ok` — what is held agrees with the completed orders.

## Main results

* `KeelTrader.Core.RunnerState.Ok.bought`, `RunnerState.Ok.sold` — one completed order keeps the
  invariant.
* `KeelTrader.Core.PaperRunner.step_spec` — a cycle keeps it, whether it returns or raises.
* `KeelTrader.Core.PaperRunner.runCycles_book` — completed orders and `_held` agree after every
  run.

## Implementation notes

The three outside calls are arbitrary computations over an arbitrary state, so that they may
raise, or not, depending on anything that happened before. The runner looks only at whether they
return. The orders whose `submit` returned are kept in the state, also those of a cycle that
raised later on.
-/

namespace KeelTrader.Core

open Models

/-! ## Data -/

/-- `PaperOrder`. -/
structure PaperOrder where
  symbol : String
  side : String
  price : PyFloat
  targetWeight : ℚ
  deriving DecidableEq, Repr

/-- The state of a runner. -/
structure RunnerState (σ : Type) where
  /-- `_held`: symbol to last target weight. -/
  held : Dict String ℚ
  /-- The orders whose `submit` returned, oldest first. -/
  completed : List PaperOrder
  /-- The state of what the runner calls. -/
  outside : σ

/-- What the runner calls: the guard of a sell, the recording of a buy, and `submit`. -/
structure Spine (ε σ : Type) where
  /-- `guard_sell_against_death_spiral(sym, "sell", price)`. -/
  guardSell : String → PyFloat → Raising ε σ Unit
  /-- `record_buy_price(sym, price)`. -/
  recordBuy : String → PyFloat → Raising ε σ Unit
  /-- The injected callable. -/
  submit : PaperOrder → Raising ε σ Unit

/-- The exceptions of a cycle. -/
inductive RunnerError (ε : Type) where
  /-- Something the runner called raised. -/
  | outside (e : ε)
  /-- `ZeroDivisionError`, from the inverse volatilities. -/
  | divByZero

/-- What one call of `step` is given. -/
structure RunnerCycle where
  signals : List SymbolSignal
  prices : Dict String PyFloat

/-- A new runner: nothing held, nothing ordered. -/
def RunnerState.start {σ : Type} (outside : σ) : RunnerState σ := ⟨.empty, [], outside⟩

/-- The order is a buy. -/
def PaperOrder.IsBuy (o : PaperOrder) : Prop := o.side = "buy"

/-- The order is a sell. -/
def PaperOrder.IsSell (o : PaperOrder) : Prop := o.side = "sell"

/-- `{p.symbol: p.weight for p in decide(…)}`, unless sizing divides by zero. -/
def targetWeights (cfg : StrategyConfig) (signals : List SymbolSignal) :
    Option (Dict String ℚ) :=
  (cfg.decide signals).map fun positions =>
    positions.foldl (fun d p => d.set p.symbol p.weight) .empty

/-! ## The cycle -/

namespace PaperRunner

variable {ε σ : Type} (spine : Spine ε σ) (prices : Dict String PyFloat)

/-- Run a computation outside the runner. -/
def onOutside {α : Type} (x : Raising ε σ α) : Raising (RunnerError ε) (RunnerState σ) α :=
  Raising.mapError .outside
    (Raising.on RunnerState.outside (fun st o => { st with outside := o }) x)

/-- `self.submit(order)`, after which the order is completed. -/
def submitOrder (order : PaperOrder) : Raising (RunnerError ε) (RunnerState σ) Unit := do
  onOutside (spine.submit order)
  modify fun st => { st with completed := st.completed ++ [order] }

/-- The guarded sell of a held name that is quoted. -/
def sell (sym : String) (price : PyFloat) :
    Raising (RunnerError ε) (RunnerState σ) (Option PaperOrder) := do
  onOutside (spine.guardSell sym price)
  submitOrder spine ⟨sym, "sell", price, 0⟩
  modify fun st => { st with held := st.held.erase sym }
  pure (some ⟨sym, "sell", price, 0⟩)

/-- The recorded buy of a quoted name that is not held. -/
def buy (sym : String) (weight : ℚ) (price : PyFloat) :
    Raising (RunnerError ε) (RunnerState σ) (Option PaperOrder) := do
  onOutside (spine.recordBuy sym price)
  submitOrder spine ⟨sym, "buy", price, weight⟩
  modify fun st => { st with held := st.held.set sym weight }
  pure (some ⟨sym, "buy", price, weight⟩)

/-- One round of the exit loop. -/
def exitRound (targets : Dict String ℚ) (sym : String) :
    Raising (RunnerError ε) (RunnerState σ) (Option PaperOrder) :=
  if sym ∈ targets.keys then pure none
  else
    match prices.get? sym with
    | none => pure none
    | some price => sell spine sym price

/-- One round of the entry loop. -/
def enterRound (target : String × ℚ) :
    Raising (RunnerError ε) (RunnerState σ) (Option PaperOrder) :=
  match prices.get? target.1 with
  | none => pure none
  | some price => do
    let st ← get
    if target.1 ∈ st.held.keys then
      set { st with held := st.held.set target.1 target.2 }
      pure none
    else buy spine target.1 target.2 price

/-- The two loops of a cycle. -/
def trade (targets : Dict String ℚ) :
    Raising (RunnerError ε) (RunnerState σ) (List PaperOrder) := do
  let exits ← Raising.forEach (exitRound spine prices targets) (← get).held.keys
  let entries ← Raising.forEach (enterRound spine prices) targets.entries
  pure (exits ++ entries)

/-- `PaperRunner.step`. -/
def step (cfg : StrategyConfig) (cycle : RunnerCycle) :
    Raising (RunnerError ε) (RunnerState σ) (List PaperOrder) :=
  match targetWeights cfg cycle.signals with
  | none => throw .divByZero
  | some targets => trade spine cycle.prices targets

/-- Cycles one after another; one that raises leaves what it did until then. -/
def runCycles (cfg : StrategyConfig) (cycles : List RunnerCycle) (st : RunnerState σ) :
    RunnerState σ :=
  cycles.foldl (fun st cycle => (step spine cfg cycle).after st) st

end PaperRunner

/-! ## The invariant -/

/-- The completed orders of one symbol. -/
def ordersOf (sym : String) (completed : List PaperOrder) : List PaperOrder :=
  completed.filter fun o => decide (o.symbol = sym)

/-- The last completed order of a symbol. -/
def lastOrder (sym : String) (completed : List PaperOrder) : Option PaperOrder :=
  lastOf PaperOrder.symbol sym completed

/-- What is held agrees with the completed orders. -/
structure RunnerState.Ok {σ : Type} (st : RunnerState σ) : Prop where
  /-- The orders of each symbol are buy, sell, buy, …. -/
  alternates : ∀ sym, Alternating PaperOrder.IsBuy PaperOrder.IsSell (fun _ _ => True)
    (ordersOf sym st.completed)
  /-- Held is what was bought last. -/
  held_iff : ∀ sym, sym ∈ st.held.keys ↔ ∃ o, lastOrder sym st.completed = some o ∧ o.IsBuy

lemma ordersOf_concat_self {completed : List PaperOrder} (o : PaperOrder) :
    ordersOf o.symbol (completed ++ [o]) = ordersOf o.symbol completed ++ [o] := by
  simp [ordersOf]

lemma ordersOf_concat_ne {completed : List PaperOrder} {o : PaperOrder} {sym : String}
    (h : o.symbol ≠ sym) : ordersOf sym (completed ++ [o]) = ordersOf sym completed := by
  simp [ordersOf, h]

lemma lastOrder_concat (sym : String) (completed : List PaperOrder) (o : PaperOrder) :
    lastOrder sym (completed ++ [o]) =
      if o.symbol = sym then some o else lastOrder sym completed :=
  lastOf_concat _ _ _ _

/-- No order is both a buy and a sell. -/
lemma PaperOrder.IsBuy.not_isSell {o : PaperOrder} (h : o.IsBuy) : ¬o.IsSell := by
  intro hs
  rw [PaperOrder.IsSell, show o.side = "buy" from h] at hs
  exact absurd hs (by decide)

section Ok

variable {σ : Type} {st : RunnerState σ} {o : PaperOrder}

lemma RunnerState.Ok.start (outside : σ) : (RunnerState.start outside).Ok where
  alternates := fun _ => trivial
  held_iff := by simp [RunnerState.start, lastOrder, lastOf, Dict.keys, Dict.empty]

/-- The invariant reads neither the state outside nor the weights. -/
lemma RunnerState.Ok.congr (h : st.Ok) {st' : RunnerState σ}
    (hcompleted : st'.completed = st.completed) (hheld : ∀ sym, sym ∈ st'.held.keys ↔
      sym ∈ st.held.keys) : st'.Ok where
  alternates := by
    rw [hcompleted]
    exact h.alternates
  held_iff := by
    intro sym
    rw [hheld, hcompleted]
    exact h.held_iff sym

/-- **A completed buy** of a symbol that is not held. -/
theorem RunnerState.Ok.bought (h : st.Ok) (hbuy : o.IsBuy) (hnot : o.symbol ∉ st.held.keys)
    (weight : ℚ) (outside : σ) :
    RunnerState.Ok ⟨st.held.set o.symbol weight, st.completed ++ [o], outside⟩ where
  alternates := by
    intro sym
    by_cases hsym : o.symbol = sym
    · subst hsym
      rw [ordersOf_concat_self]
      refine (h.alternates o.symbol).concat_open (fun b hb hbuy' => hnot ?_) hbuy
      rw [ordersOf, getLast?_filter_key] at hb
      exact (h.held_iff o.symbol).mpr ⟨b, hb, hbuy'⟩
    · rw [ordersOf_concat_ne hsym]
      exact h.alternates sym
  held_iff := by
    intro sym
    rw [Dict.mem_keys_set, lastOrder_concat]
    by_cases hsym : o.symbol = sym
    · simp [hsym, hbuy]
    · rw [if_neg hsym, ← h.held_iff sym]
      simp [Ne.symm hsym]

/-- **A completed sell** of a symbol that is held. -/
theorem RunnerState.Ok.sold (h : st.Ok) (hsell : o.IsSell) (hheld : o.symbol ∈ st.held.keys)
    (outside : σ) :
    RunnerState.Ok ⟨st.held.erase o.symbol, st.completed ++ [o], outside⟩ where
  alternates := by
    intro sym
    by_cases hsym : o.symbol = sym
    · subst hsym
      obtain ⟨b, hlast, hbuy⟩ := (h.held_iff o.symbol).mp hheld
      rw [ordersOf_concat_self]
      refine (h.alternates o.symbol).concat_close (fun a ha => ha.not_isSell) (a := b) ?_ hbuy
        hsell trivial
      rw [ordersOf, getLast?_filter_key]
      exact hlast
    · rw [ordersOf_concat_ne hsym]
      exact h.alternates sym
  held_iff := by
    intro sym
    rw [Dict.mem_keys_erase, lastOrder_concat]
    by_cases hsym : o.symbol = sym
    · have hnot : ¬o.IsBuy := fun hbuy => hbuy.not_isSell hsell
      simp [hsym, hnot]
    · rw [if_neg hsym, ← h.held_iff sym]
      simp [Ne.symm hsym]

end Ok

namespace PaperRunner

variable {ε σ : Type} {st st' : RunnerState σ}

/-! ## Legs -/

/-- An outside call that returned changed nothing of the runner. -/
lemma onOutside_eq_ok {α : Type} {x : Raising ε σ α} {a : α} :
    onOutside x st = .ok a st' ↔
      ∃ o, x st.outside = .ok a o ∧ st' = { st with outside := o } := by
  unfold onOutside
  rw [Raising.mapError_eq_ok, Raising.on_eq_ok]

/-- An outside call that raised changed nothing of the runner. -/
lemma onOutside_eq_error {α : Type} {x : Raising ε σ α} {e : RunnerError ε} :
    onOutside x st = .error e st' ↔
      ∃ e' o, x st.outside = .error e' o ∧ e = .outside e' ∧ st' = { st with outside := o } := by
  unfold onOutside
  rw [Raising.mapError_eq_error]
  constructor
  · rintro ⟨e', h, rfl⟩
    obtain ⟨o, ho, rfl⟩ := Raising.on_eq_error.mp h
    exact ⟨e', o, ho, rfl, rfl⟩
  · rintro ⟨e', o, ho, rfl, rfl⟩
    exact ⟨e', Raising.on_eq_error.mpr ⟨o, ho, rfl⟩, rfl⟩

/-- A submission that returned completed its order. -/
lemma submitOrder_eq_ok {spine : Spine ε σ} {order : PaperOrder}
    (h : submitOrder spine order st = .ok () st') :
    ∃ o, spine.submit order st.outside = .ok () o ∧
      st' = ⟨st.held, st.completed ++ [order], o⟩ := by
  obtain ⟨_, t, hsubmit, hrest⟩ := Raising.bind_eq_ok.mp h
  obtain ⟨o, ho, rfl⟩ := onOutside_eq_ok.mp hsubmit
  cases hrest
  exact ⟨o, ho, rfl⟩

/-- A submission that raised changed nothing of the runner. -/
lemma submitOrder_eq_error {spine : Spine ε σ} {order : PaperOrder} {e : RunnerError ε}
    (h : submitOrder spine order st = .error e st') :
    ∃ e' o, spine.submit order st.outside = .error e' o ∧ e = .outside e' ∧
      st' = { st with outside := o } := by
  rcases Raising.bind_eq_error.mp h with hsubmit | ⟨_, t, -, hrest⟩
  · exact onOutside_eq_error.mp hsubmit
  · cases hrest

/-- What a sell that returned did. -/
theorem sell_eq_ok {spine : Spine ε σ} {sym : String} {price : PyFloat} {ev : Option PaperOrder}
    (h : sell spine sym price st = .ok ev st') :
    ∃ o o', spine.guardSell sym price st.outside = .ok () o ∧
      spine.submit ⟨sym, "sell", price, 0⟩ o = .ok () o' ∧ ev = some ⟨sym, "sell", price, 0⟩ ∧
      st' = ⟨st.held.erase sym, st.completed ++ [⟨sym, "sell", price, 0⟩], o'⟩ := by
  obtain ⟨_, t, hguard, hrest⟩ := Raising.bind_eq_ok.mp h
  obtain ⟨o, ho, rfl⟩ := onOutside_eq_ok.mp hguard
  obtain ⟨_, t, hsubmit, hrest⟩ := Raising.bind_eq_ok.mp hrest
  obtain ⟨o', ho', rfl⟩ := submitOrder_eq_ok hsubmit
  cases hrest
  exact ⟨o, o', ho, ho', rfl, rfl⟩

/-- A sell that raised left the runner as it was: its guard or its submission raised. -/
theorem sell_eq_error {spine : Spine ε σ} {sym : String} {price : PyFloat} {e : RunnerError ε}
    (h : sell spine sym price st = .error e st') :
    ∃ e' o, st' = { st with outside := o } ∧
      (spine.guardSell sym price st.outside = .error e' o ∨
        ∃ o₁, spine.guardSell sym price st.outside = .ok () o₁ ∧
          spine.submit ⟨sym, "sell", price, 0⟩ o₁ = .error e' o) := by
  rcases Raising.bind_eq_error.mp h with hguard | ⟨_, t, hguard, hrest⟩
  · obtain ⟨e', o, ho, -, rfl⟩ := onOutside_eq_error.mp hguard
    exact ⟨e', o, rfl, .inl ho⟩
  · obtain ⟨o, ho, rfl⟩ := onOutside_eq_ok.mp hguard
    rcases Raising.bind_eq_error.mp hrest with hsubmit | ⟨_, t, -, hrest⟩
    · obtain ⟨e', o', ho', -, rfl⟩ := submitOrder_eq_error hsubmit
      exact ⟨e', o', rfl, .inr ⟨o, ho, ho'⟩⟩
    · cases hrest

/-- What a buy that returned did. -/
theorem buy_eq_ok {spine : Spine ε σ} {sym : String} {weight : ℚ} {price : PyFloat}
    {ev : Option PaperOrder} (h : buy spine sym weight price st = .ok ev st') :
    ∃ o o', spine.recordBuy sym price st.outside = .ok () o ∧
      spine.submit ⟨sym, "buy", price, weight⟩ o = .ok () o' ∧
      ev = some ⟨sym, "buy", price, weight⟩ ∧
      st' = ⟨st.held.set sym weight, st.completed ++ [⟨sym, "buy", price, weight⟩], o'⟩ := by
  obtain ⟨_, t, hrecord, hrest⟩ := Raising.bind_eq_ok.mp h
  obtain ⟨o, ho, rfl⟩ := onOutside_eq_ok.mp hrecord
  obtain ⟨_, t, hsubmit, hrest⟩ := Raising.bind_eq_ok.mp hrest
  obtain ⟨o', ho', rfl⟩ := submitOrder_eq_ok hsubmit
  cases hrest
  exact ⟨o, o', ho, ho', rfl, rfl⟩

/-- A buy that raised left the runner as it was: its recording or its submission raised. -/
theorem buy_eq_error {spine : Spine ε σ} {sym : String} {weight : ℚ} {price : PyFloat}
    {e : RunnerError ε} (h : buy spine sym weight price st = .error e st') :
    ∃ e' o, st' = { st with outside := o } ∧
      (spine.recordBuy sym price st.outside = .error e' o ∨
        ∃ o₁, spine.recordBuy sym price st.outside = .ok () o₁ ∧
          spine.submit ⟨sym, "buy", price, weight⟩ o₁ = .error e' o) := by
  rcases Raising.bind_eq_error.mp h with hrecord | ⟨_, t, hrecord, hrest⟩
  · obtain ⟨e', o, ho, -, rfl⟩ := onOutside_eq_error.mp hrecord
    exact ⟨e', o, rfl, .inl ho⟩
  · obtain ⟨o, ho, rfl⟩ := onOutside_eq_ok.mp hrecord
    rcases Raising.bind_eq_error.mp hrest with hsubmit | ⟨_, t, -, hrest⟩
    · obtain ⟨e', o', ho', -, rfl⟩ := submitOrder_eq_error hsubmit
      exact ⟨e', o', rfl, .inr ⟨o, ho, ho'⟩⟩
    · cases hrest

/-! ## Loops -/

section Loops

variable {spine : Spine ε σ} {prices : Dict String PyFloat} {targets : Dict String ℚ}
  {J : List PaperOrder → RunnerState σ → Prop} {K : RunnerState σ → Prop}

/-- **The exit loop** keeps what every sell keeps: it sells only what is held, is no target and
is quoted. -/
theorem exitLoop_spec {syms : List String} (hnodup : syms.Nodup)
    (hsell : ∀ sym ∈ syms, sym ∉ targets.keys → ∀ price, prices.get? sym = some price → ∀ out,
      Raising.Spec (fun st => J out st ∧ sym ∈ st.held.keys) (sell spine sym price)
        (fun ev => J (out ++ ev.toList)) (fun _ => K)) :
    Raising.Spec (fun st => J [] st ∧ ∀ sym ∈ syms, sym ∈ st.held.keys)
      (Raising.forEach (exitRound spine prices targets) syms) (fun out => J out) (fun _ => K) := by
  suffices hloop : Raising.Spec (fun st => J [] st ∧ ∀ sym ∈ syms, sym ∉ [] → sym ∈ st.held.keys)
      (Raising.forEach (exitRound spine prices targets) syms)
      (fun out st => J out st ∧ ∀ sym ∈ syms, sym ∉ syms → sym ∈ st.held.keys) (fun _ => K) from
    hloop.conseq (fun st h => ⟨h.1, fun sym hmem _ => h.2 sym hmem⟩) (fun _ _ h => h.1)
      fun _ _ h => h
  refine Raising.Spec.forEach
    (I := fun pre out st => J out st ∧ ∀ sym ∈ syms, sym ∉ pre → sym ∈ st.held.keys)
    fun pre sym post out hsplit => ?_
  have hmem : sym ∈ syms := by simp [hsplit]
  have hnotPre : sym ∉ pre := by
    rw [hsplit] at hnodup
    intro hpre
    exact (List.nodup_append.mp hnodup).2.2 sym hpre sym (by simp) rfl
  -- a round that does nothing
  have hskip : Raising.Spec
      (fun st => J out st ∧ ∀ sym ∈ syms, sym ∉ pre → sym ∈ st.held.keys)
      (pure none : Raising (RunnerError ε) (RunnerState σ) (Option PaperOrder))
      (fun ev st => J (out ++ ev.toList) st ∧
        ∀ sym' ∈ syms, sym' ∉ pre ++ [sym] → sym' ∈ st.held.keys) (fun _ => K) := by
    refine Raising.Spec.pure fun st h => ⟨by simpa using h.1, fun sym' hsym' hnot => ?_⟩
    exact h.2 sym' hsym' fun hpre => hnot (List.mem_append_left _ hpre)
  unfold exitRound
  by_cases htarget : sym ∈ targets.keys
  · rw [if_pos htarget]
    exact hskip
  rw [if_neg htarget]
  cases hprice : prices.get? sym with
  | none => exact hskip
  | some price =>
    have hspec := hsell sym hmem htarget price hprice out
    refine Raising.Spec.intro (fun st ev st' h hrun => ?_) fun st e st' h hrun => ?_
    · refine ⟨hspec.of_ok ⟨h.1, h.2 sym hmem hnotPre⟩ hrun, fun sym' hsym' hnot => ?_⟩
      obtain ⟨-, -, -, -, -, rfl⟩ := sell_eq_ok hrun
      rw [List.mem_append, List.mem_singleton, not_or] at hnot
      exact Dict.mem_keys_erase.mpr ⟨hnot.2, h.2 sym' hsym' hnot.1⟩
    · exact hspec.of_error ⟨h.1, h.2 sym hmem hnotPre⟩ hrun

/-- **The entry loop** keeps what every buy and every change of a weight keeps: it buys only what
is not held, is a target and is quoted. -/
theorem entryLoop_spec
    (hbuy : ∀ target ∈ targets.entries, ∀ price, prices.get? target.1 = some price → ∀ out,
      Raising.Spec (fun st => J out st ∧ target.1 ∉ st.held.keys)
        (buy spine target.1 target.2 price) (fun ev => J (out ++ ev.toList)) (fun _ => K))
    (hadjust : ∀ out st sym weight, J out st → sym ∈ st.held.keys →
      J out { st with held := st.held.set sym weight }) (out : List PaperOrder) :
    Raising.Spec (J out) (Raising.forEach (enterRound spine prices) targets.entries)
      (fun entries => J (out ++ entries)) (fun _ => K) := by
  suffices hloop : Raising.Spec (J (out ++ []))
      (Raising.forEach (enterRound spine prices) targets.entries)
      (fun entries => J (out ++ entries)) (fun _ => K) by
    simpa using hloop
  refine Raising.Spec.forEach (I := fun _ entries => J (out ++ entries))
    fun pre target post entries hsplit => ?_
  have hmem : target ∈ targets.entries := by simp [hsplit]
  intro st h
  unfold enterRound
  cases hprice : prices.get? target.1 with
  | none => simpa using h
  | some price =>
    dsimp only
    rw [Raising.bind_of_eq_ok (Raising.get_run st)]
    by_cases hheld : target.1 ∈ st.held.keys
    · rw [if_pos hheld, Raising.bind_of_eq_ok (Raising.set_run st _)]
      simpa using hadjust _ st target.1 target.2 h hheld
    · rw [if_neg hheld]
      have hspec := hbuy target hmem price hprice (out ++ entries) st ⟨h, hheld⟩
      simpa using hspec

end Loops

/-! ## Cycles and runs -/

/-- The invariant during a cycle: the orders completed since its start are known. -/
def Mid (before out : List PaperOrder) (st : RunnerState σ) : Prop :=
  st.Ok ∧ st.completed = before ++ out

/-- The invariant of an aborted cycle: the orders completed before it are still there. -/
def Aborted (before : List PaperOrder) (st : RunnerState σ) : Prop :=
  st.Ok ∧ before <+: st.completed

/-- An exception that left the runner as it was. -/
lemma Mid.aborted {before out : List PaperOrder} (h : Mid before out st) (o : σ) :
    Aborted before { st with outside := o } :=
  ⟨h.1.congr rfl fun _ => Iff.rfl, out, h.2.symm⟩

/-- A sell of what is held. -/
lemma sell_spec (spine : Spine ε σ) (before out : List PaperOrder) (sym : String)
    (price : PyFloat) :
    Raising.Spec (fun st => Mid before out st ∧ sym ∈ st.held.keys) (sell spine sym price)
      (fun ev => Mid before (out ++ ev.toList)) (fun _ => Aborted before) := by
  refine Raising.Spec.intro (fun st ev st' h hrun => ?_) fun st e st' h hrun => ?_
  · obtain ⟨-, o, -, -, rfl, rfl⟩ := sell_eq_ok hrun
    refine ⟨h.1.1.sold (o := ⟨sym, "sell", price, 0⟩) rfl h.2 o, ?_⟩
    show st.completed ++ _ = _
    rw [h.1.2, List.append_assoc]
    rfl
  · obtain ⟨-, o, rfl, -⟩ := sell_eq_error hrun
    exact h.1.aborted o

/-- A buy of what is not held. -/
lemma buy_spec (spine : Spine ε σ) (before out : List PaperOrder) (sym : String) (weight : ℚ)
    (price : PyFloat) :
    Raising.Spec (fun st => Mid before out st ∧ sym ∉ st.held.keys) (buy spine sym weight price)
      (fun ev => Mid before (out ++ ev.toList)) (fun _ => Aborted before) := by
  refine Raising.Spec.intro (fun st ev st' h hrun => ?_) fun st e st' h hrun => ?_
  · obtain ⟨-, o, -, -, rfl, rfl⟩ := buy_eq_ok hrun
    refine ⟨h.1.1.bought (o := ⟨sym, "buy", price, weight⟩) rfl h.2 weight o, ?_⟩
    show st.completed ++ _ = _
    rw [h.1.2, List.append_assoc]
    rfl
  · obtain ⟨-, o, rfl, -⟩ := buy_eq_error hrun
    exact h.1.aborted o

/-- A new weight for what is held. -/
lemma Mid.adjusted {before out : List PaperOrder} (h : Mid before out st) {sym : String}
    (hheld : sym ∈ st.held.keys) (weight : ℚ) :
    Mid before out { st with held := st.held.set sym weight } := by
  refine ⟨h.1.congr rfl fun sym' => ?_, h.2⟩
  rw [Dict.mem_keys_set, or_iff_right_of_imp]
  rintro rfl
  exact hheld

/-- **Step.** A cycle keeps the invariant. One that returns has completed exactly the orders that
it returns; one that raises may have completed some. -/
theorem step_spec (spine : Spine ε σ) (cfg : StrategyConfig) (cycle : RunnerCycle)
    (before : List PaperOrder) :
    Raising.Spec (fun st => RunnerState.Ok st ∧ st.completed = before) (step spine cfg cycle)
      (fun out => Mid before out) (fun _ => Aborted before) := by
  rintro st ⟨h, rfl⟩
  have hmid : Mid st.completed [] st := ⟨h, by simp⟩
  unfold step
  cases targetWeights cfg cycle.signals with
  | none => exact hmid.aborted st.outside
  | some targets =>
    dsimp only
    unfold trade
    rw [Raising.bind_of_eq_ok (Raising.get_run st)]
    refine Raising.Spec.bind (exitLoop_spec (J := Mid st.completed) st.held.nodup
      fun sym _ _ price _ out => sell_spec spine st.completed out sym price)
      (fun exits => ?_) st ⟨hmid, fun _ hsym => hsym⟩
    refine Raising.Spec.bind (entryLoop_spec (J := Mid st.completed)
      (fun target _ price _ out => buy_spec spine st.completed out target.1 target.2 price)
      (fun out st' sym weight h hheld => h.adjusted hheld weight) exits) fun entries => ?_
    exact Raising.Spec.pure fun _ h => h

/-- A cycle, aborted or not, keeps the invariant. -/
lemma ok_after_step {spine : Spine ε σ} {cfg : StrategyConfig} (cycle : RunnerCycle) (h : st.Ok) :
    ((step spine cfg cycle).after st).Ok :=
  ((step_spec spine cfg cycle st.completed).conseq (fun _ hs => hs) (fun _ _ hm => hm.1)
    fun _ _ ha => ha.1).after ⟨h, rfl⟩

/-- **Run.** Any cycles keep the invariant. -/
theorem runCycles_ok {spine : Spine ε σ} {cfg : StrategyConfig} (cycles : List RunnerCycle)
    (h : st.Ok) : (runCycles spine cfg cycles st).Ok := by
  induction cycles generalizing st with
  | nil => exact h
  | cons cycle cycles ih => exact ih (ok_after_step cycle h)

/-- **The book survives aborted cycles.** Whatever the guard, the recording of buys and `submit`
do, and wherever they raise: after any cycles of a new runner, the completed orders of each symbol
are buy, sell, buy, …, and a symbol is held exactly when its last completed order is a buy.

A run may end with a cycle that is aborted in any outside call, so this is also what every outside
call finds in the middle of a cycle. -/
theorem runCycles_book (spine : Spine ε σ) (cfg : StrategyConfig) (cycles : List RunnerCycle)
    (outside : σ) :
    let st := runCycles spine cfg cycles (.start outside)
    (∀ sym, Alternating PaperOrder.IsBuy PaperOrder.IsSell (fun _ _ => True)
      (ordersOf sym st.completed)) ∧
    ∀ sym, sym ∈ st.held.keys ↔ ∃ o, lastOrder sym st.completed = some o ∧ o.IsBuy := by
  have h : (runCycles spine cfg cycles (.start outside)).Ok :=
    runCycles_ok cycles (RunnerState.Ok.start outside)
  exact ⟨h.alternates, h.held_iff⟩

end PaperRunner

end KeelTrader.Core
