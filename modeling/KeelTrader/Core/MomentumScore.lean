import KeelTrader.Core.KrakenPaper
import KeelTrader.Forecast.Technical

set_option relaxedAutoImplicit false
set_option autoImplicit false

/-!
# The memory of the paper trader

The paper trader keeps the newest bars of each symbol and scores a symbol by the last row of its
technical features. A row looks back over 73 bars, so a trader that keeps as many scores a symbol
as one that keeps its whole history, and as an offline computation over that history does.

## Main definitions

* `KeelTrader.Core.momentumScore` — the default score function.
* `KeelTrader.Core.afterTicks`, `barsSeen` — the state after some cycles, and the bars that they
  brought of a symbol.

## Main results

* `KeelTrader.Core.step_bars`, `afterTicks_bars` — what one cycle, and a run of them, do to the
  bars.
* `KeelTrader.Core.momentumScore_newest` — 73 bars decide the score.
* `KeelTrader.Core.features_live_parity` — the features are causal, look back over 73 bars, and
  are the same live and offline.
-/

namespace KeelTrader.Core

open Forecast

universe u

/-! ## The bars of a trader -/

/-- The state after some cycles, each of which returned or raised. -/
def afterTicks (S : PyStr) (g : Guard) (cfg : TraderConfig) : List Tick → TraderState → TraderState
  | [], st => st
  | tick :: ticks, st => afterTicks S g cfg ticks (Raising.after (step S g cfg tick) st)

/-- The bars of a symbol in the snapshots of some cycles, oldest first. -/
def barsSeen (ticks : List Tick) (sym : String) : List Bar :=
  ticks.filterMap fun tick => tick.snapshot.get? sym

/-- The bars that a trader keeps of a symbol. -/
def barsOf (bars : Dict String (List Bar)) (sym : String) : List Bar := (bars.get? sym).getD []

/-- A bar of the snapshot joins those of its symbol. -/
def pushBar (history : ℕ) (bars : Dict String (List Bar)) (e : String × Bar) :
    Dict String (List Bar) :=
  bars.set e.1 (newest history (barsOf bars e.1 ++ [e.2]))

lemma pushBars_eq (history : ℕ) (snapshot : Dict String Bar) (bars : Dict String (List Bar)) :
    pushBars history snapshot bars = snapshot.entries.foldl (pushBar history) bars := rfl

lemma barsOf_pushBar (history : ℕ) (bars : Dict String (List Bar)) (e : String × Bar)
    (sym : String) :
    barsOf (pushBar history bars e) sym =
      if sym = e.1 then newest history (barsOf bars sym ++ [e.2]) else barsOf bars sym := by
  unfold pushBar
  rw [barsOf, Dict.get?_set]
  by_cases h : sym = e.1
  · rw [if_pos h, if_pos h, h]
    rfl
  · rw [if_neg h, if_neg h]
    rfl

/-- **Push.** The bar of a symbol in the snapshot joins those kept, as the newest; a symbol that
is not in the snapshot keeps its bars. -/
theorem barsOf_pushBars (history : ℕ) (snapshot : Dict String Bar)
    (bars : Dict String (List Bar)) (sym : String) :
    barsOf (pushBars history snapshot bars) sym =
      match snapshot.get? sym with
      | none => barsOf bars sym
      | some bar => newest history (barsOf bars sym ++ [bar]) := by
  obtain ⟨es, hnodup⟩ := snapshot
  rw [pushBars_eq]
  unfold Dict.get?
  dsimp only
  induction es generalizing bars with
  | nil => rfl
  | cons e es ih =>
    obtain ⟨hnotMem, hrest⟩ := List.nodup_cons.mp hnodup
    rw [List.foldl_cons, ih _ hrest, List.lookup_cons, barsOf_pushBar]
    by_cases h : sym = e.1
    · -- no later entry has the symbol
      have hnone : es.lookup e.1 = none := by
        rw [List.lookup_eq_none_iff]
        intro e' he'
        have hne : e.1 ≠ e'.1 := fun heq => hnotMem (heq ▸ List.mem_map_of_mem he')
        simpa using hne
      subst h
      rw [hnone, if_pos rfl, beq_self_eq_true]
    · rw [if_neg h, beq_eq_false_iff_ne.mpr h]

section Bars

variable {S : PyStr} {g : Guard} {cfg : TraderConfig} {tick : Tick} {targets : Dict String ℚ}
  {kept : Dict String (List Bar)}

/-- A booked exit changes no bars. -/
lemma bookExit_bars (sym : String) (price sellFill : ℚ) :
    Raising.Spec (fun st => st.bars = kept) (bookExit S g cfg tick sym price sellFill)
      (fun _ st => st.bars = kept) (fun _ st => st.bars = kept) := by
  refine Raising.Spec.intro (fun st ev st' h hrun => ?_) (fun st e st' h hrun => ?_)
  · obtain ⟨held, b, fill, -, -, -, -, rfl⟩ := bookExit_eq_ok hrun
    exact h
  · rcases bookExit_eq_error hrun with ⟨-, rfl⟩ | ⟨held, e', b, -, -, -, rfl⟩
    · exact h
    · exact h

/-- A booked entry changes no bars. -/
lemma bookEntry_bars (sym : String) (qty price entryFill : ℚ) :
    Raising.Spec (fun st => st.bars = kept) (bookEntry S g tick sym qty price entryFill)
      (fun _ st => st.bars = kept) (fun _ st => st.bars = kept) := by
  refine Raising.Spec.intro (fun st ev st' h hrun => ?_) (fun st e st' h hrun => ?_)
  · obtain ⟨b, fill, -, -, -, rfl⟩ := bookEntry_eq_ok hrun
    exact h
  · obtain ⟨e', b, -, -, rfl⟩ := bookEntry_eq_error hrun
    exact h

lemma exitRound_bars (sym : String) :
    Raising.Spec (fun st => st.bars = kept) (exitRound S g cfg tick targets sym)
      (fun _ st => st.bars = kept) (fun _ st => st.bars = kept) := by
  rw [exitRound_eq]
  cases exitAttempt cfg tick targets sym with
  | none => exact Raising.Spec.pure fun st h => h
  | some bar => exact bookExit_bars sym _ _

lemma enterRound_bars (target : String × ℚ) :
    Raising.Spec (fun st => st.bars = kept) (enterRound S g cfg tick target)
      (fun _ st => st.bars = kept) (fun _ st => st.bars = kept) := by
  intro st h
  rcases enterRound_eq S g cfg tick target st with hrun | hrun | ⟨-, qty, price, fill, hrun⟩
  · rw [hrun]
    exact h
  · rw [hrun]
    exact h
  · rw [hrun]
    exact bookEntry_bars _ qty price fill st h

/-- Exits and entries change no bars. -/
lemma trade_bars :
    Raising.Spec (fun st => st.bars = kept) (trade S g cfg tick targets)
      (fun _ st => st.bars = kept) (fun _ st => st.bars = kept) := by
  intro st h
  unfold trade
  rw [Raising.bind_of_eq_ok (Raising.get_run st)]
  have hexits : Raising.Spec (fun st => st.bars = kept)
      (Raising.forEach (exitRound S g cfg tick targets) st.held.keys)
      (fun _ st => st.bars = kept) (fun _ st => st.bars = kept) :=
    Raising.Spec.forEach (I := fun _ _ (st : TraderState) => st.bars = kept) fun _ sym _ _ _ =>
      exitRound_bars sym
  have hentries : Raising.Spec (fun st => st.bars = kept)
      (Raising.forEach (enterRound S g cfg tick) targets.entries)
      (fun _ st => st.bars = kept) (fun _ st => st.bars = kept) :=
    Raising.Spec.forEach (I := fun _ _ (st : TraderState) => st.bars = kept) fun _ target _ _ _ =>
      enterRound_bars target
  exact Raising.Spec.bind hexits
    (fun _ => Raising.Spec.bind hentries fun _ (s : TraderState) (hs : s.bars = kept) => hs) st h

/-- **Step.** A cycle pushes the bars of its snapshot, whether it returns or raises. -/
theorem step_bars (S : PyStr) (g : Guard) (cfg : TraderConfig) (tick : Tick) (st : TraderState) :
    (Raising.after (step S g cfg tick) st).bars =
      pushBars cfg.history tick.snapshot st.bars := by
  have hstep : Raising.Spec (fun s => s = st) (step S g cfg tick)
      (fun _ s => s.bars = pushBars cfg.history tick.snapshot st.bars)
      (fun _ s => s.bars = pushBars cfg.history tick.snapshot st.bars) := by
    rintro s rfl
    rw [step_run]
    cases targetsAt cfg tick s with
    | none => rfl
    | some targets => exact trade_bars _ rfl
  exact hstep.after rfl

end Bars

/-- **Run.** A trader keeps of each symbol the newest of the bars that its cycles brought. -/
theorem afterTicks_bars (S : PyStr) (g : Guard) (cfg : TraderConfig) (ticks : List Tick)
    (st : TraderState) (before : String → List Bar)
    (h : ∀ sym, barsOf st.bars sym = newest cfg.history (before sym)) (sym : String) :
    barsOf (afterTicks S g cfg ticks st).bars sym =
      newest cfg.history (before sym ++ barsSeen ticks sym) := by
  induction ticks generalizing st before with
  | nil =>
    rw [barsSeen, List.filterMap_nil, List.append_nil]
    exact h sym
  | cons tick ticks ih =>
    have hstep : ∀ sym, barsOf (Raising.after (step S g cfg tick) st).bars sym =
        newest cfg.history (before sym ++ (tick.snapshot.get? sym).toList) := by
      intro sym
      rw [step_bars, barsOf_pushBars, h sym]
      cases tick.snapshot.get? sym with
      | none => rw [Option.toList_none, List.append_nil]
      | some bar =>
        show newest cfg.history (newest cfg.history (before sym) ++ [bar]) = _
        rw [newest_append_newest]
        rfl
    have hseen : barsSeen (tick :: ticks) sym =
        (tick.snapshot.get? sym).toList ++ barsSeen ticks sym := by
      unfold barsSeen
      cases hbar : tick.snapshot.get? sym with
      | none => exact List.filterMap_cons_none hbar
      | some bar => exact List.filterMap_cons_some hbar
    rw [afterTicks, ih _ _ hstep, hseen, List.append_assoc]

/-! ## The score -/

section Score

variable {K : Type u} [Field K] [LinearOrder K]

/-- The prices of a bar. -/
def Bar.ohlc (K : Type u) [Field K] (bar : Bar) : Ohlc K :=
  ⟨bar.openPrice, bar.high, bar.low, bar.close⟩

/-- `momentum_score`, or the text of the exception it raises. -/
def momentumScore (sqrt : K → K) (_symbol : String) (bars : List Bar) : Except String (K × K) :=
  if bars.length < 2 then .ok (0, 1e-4)
  else
    let o := bars.map fun b => (b.openPrice : K)
    let h := bars.map fun b => (b.high : K)
    let low := bars.map fun b => (b.low : K)
    let c := bars.map fun b => (b.close : K)
    match technicalFeatures sqrt o h low c with
    | .error e => .error e
    | .ok rows =>
      match rows.getLast? with
      | none => .error "list index out of range"
      | some feats => .ok (feats.getD 1 0, max (feats.getD 5 0) 1e-4)

/-- The score reads the last row of features. -/
lemma momentumScore_eq (sqrt : K → K) (sym : String) (bars : List Bar) :
    momentumScore sqrt sym bars =
      if bars.length < 2 then .ok (0, 1e-4)
      else
        match (barFeatures sqrt (bars.map (Bar.ohlc K))).getLast? with
        | none => .error "list index out of range"
        | some feats => .ok (feats.getD 1 0, max (feats.getD 5 0) 1e-4) := by
  have hrows := technicalFeatures_eq_ok sqrt (bars.map (Bar.ohlc K))
  rw [List.map_map, List.map_map, List.map_map, List.map_map] at hrows
  unfold momentumScore
  by_cases hlen : bars.length < 2
  · rw [if_pos hlen, if_pos hlen]
  · rw [if_neg hlen, if_neg hlen]
    show (match technicalFeatures sqrt (bars.map (Ohlc.openPrice ∘ Bar.ohlc K))
      (bars.map (Ohlc.high ∘ Bar.ohlc K)) (bars.map (Ohlc.low ∘ Bar.ohlc K))
      (bars.map (Ohlc.close ∘ Bar.ohlc K)) with
      | .error e => _
      | .ok rows => _) = _
    rw [hrows]

/-- **73 bars decide the score.** -/
theorem momentumScore_newest (sqrt : K → K) (sym : String) {H : ℕ} (hH : 73 ≤ H)
    (bars : List Bar) :
    momentumScore sqrt sym (newest H bars) = momentumScore sqrt sym bars := by
  have hlength := length_newest H bars
  rw [momentumScore_eq, momentumScore_eq, ← newest_map,
    (barFeatures_hasMemory sqrt).forget hH (by omega)]
  by_cases hlen : bars.length < 2
  · rw [if_pos hlen, if_pos (by omega)]
  · rw [if_neg hlen, if_neg (by omega)]

end Score

/-! ## Live and offline -/

/-- **Technical features are causal and look back over 73 bars.** Over any series of bars there
is a row of features for each bar. Further bars change no row; bars that the same 73 bars end at
have the same row; and the last row is that of the newest bars, if these are at least 73. A
trader that keeps at least 73 bars of a symbol has, after any cycles, the last row and the score
that the whole history of the symbol gives. -/
theorem features_live_parity {K : Type u} [Field K] [LinearOrder K] (sqrt : K → K) :
    (∀ bars : List (Ohlc K),
      technicalFeatures sqrt (bars.map Ohlc.openPrice) (bars.map Ohlc.high)
        (bars.map Ohlc.low) (bars.map Ohlc.close) = .ok (barFeatures sqrt bars) ∧
      (barFeatures sqrt bars).length = bars.length) ∧
    (∀ (bars more : List (Ohlc K)) (i : ℕ), i < bars.length →
      (barFeatures sqrt (bars ++ more))[i]? = (barFeatures sqrt bars)[i]?) ∧
    (∀ (bars bars' : List (Ohlc K)) (i j : ℕ), i < bars.length → j < bars'.length →
      window 73 bars i = window 73 bars' j →
      (barFeatures sqrt bars)[i]? = (barFeatures sqrt bars')[j]?) ∧
    (∀ (bars : List (Ohlc K)) (H : ℕ), 73 ≤ H →
      (barFeatures sqrt (newest H bars)).getLast? = (barFeatures sqrt bars).getLast?) ∧
    ∀ (S : PyStr) (g : Guard) (cfg : TraderConfig) (ticks : List Tick) (disk : Disk)
      (sym : String), 73 ≤ cfg.history →
      let kept := barsOf (afterTicks S g cfg ticks (TraderState.start disk)).bars sym
      (barFeatures sqrt (kept.map (Bar.ohlc K))).getLast? =
        (barFeatures sqrt ((barsSeen ticks sym).map (Bar.ohlc K))).getLast? ∧
      momentumScore sqrt sym kept = momentumScore sqrt sym (barsSeen ticks sym) := by
  have hmemory := barFeatures_hasMemory sqrt
  refine ⟨fun bars => ⟨technicalFeatures_eq_ok sqrt bars, hmemory.length_eq bars⟩,
    fun bars more i hi => hmemory.append hi more,
    fun bars bars' i j hi hj hwin => hmemory.row_eq hi hj hwin,
    fun bars H hH => hmemory.forget hH (by omega) bars, ?_⟩
  intro S g cfg ticks disk sym hhistory kept
  have hkept : kept = newest cfg.history (barsSeen ticks sym) := by
    have hrun := afterTicks_bars S g cfg ticks (TraderState.start disk) (fun _ => [])
      (fun _ => List.drop_nil.symm) sym
    rwa [List.nil_append] at hrun
  rw [hkept, ← newest_map]
  exact ⟨hmemory.forget hhistory (by omega) _, momentumScore_newest sqrt sym hhistory _⟩

/-- Two series that end in the same 73 bars at different positions, and the default trader after
200 cycles. -/
theorem features_live_parity_default :
    let bar : Ohlc ℚ := ⟨100, 101, 99, 100⟩
    let tick := Tick.at 0 ⟨[("BTC/USD", ⟨100, 101, 99, 100⟩)], by decide⟩ fun _ _ => (1, 1 / 50)
    let ticks := List.replicate 200 tick
    let st := afterTicks .ascii ⟨false, none⟩ {} ticks (TraderState.start ⟨none, []⟩)
    (barFeatures id (List.replicate 80 bar))[75]? = (barFeatures id (List.replicate 90 bar))[85]? ∧
      momentumScore (id : ℚ → ℚ) "BTC/USD" (barsOf st.bars "BTC/USD") =
        momentumScore id "BTC/USD" (barsSeen ticks "BTC/USD") := by
  intro bar tick ticks st
  have hparity := features_live_parity (id : ℚ → ℚ)
  refine ⟨hparity.2.2.1 _ _ 75 85 ?_ ?_ rfl, (hparity.2.2.2.2 _ _ _ _ _ _ ?_).2⟩
  · rw [List.length_replicate]
    norm_num
  · rw [List.length_replicate]
    norm_num
  · norm_num

end KeelTrader.Core
