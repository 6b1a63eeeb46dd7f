import KeelTrader.Sim.FirstEntry

set_option relaxedAutoImplicit false
set_option autoImplicit false

/-!
# Runs that tell parameters apart

When a clamp changes the fills or the early exit of parameters under which an order can fill,
some run shows it. The runs are on markets that quote the same bar in every row. One bar is
enough to show a fill: it is the whole episode, and the log counts the trade. For the early exit
the agent waits until the last but one step of the episode, enters a position, and loses.

## Main definitions

* `KeelTrader.Sim.barMarket` — the market that quotes one bar.
* `KeelTrader.Sim.Params.entryAction` — the action that asks for the smallest position at the
  highest level.

## Main results

* `KeelTrader.Sim.executeBar_filled`, `executeBar_unfilled` — what the entry action does.
* `KeelTrader.Sim.not_sameRuns_of_fills` — a negative fill parameter shows.
* `KeelTrader.Sim.not_sameRuns_of_exit` — a changed early exit shows.
* `KeelTrader.Sim.sameRuns_clamped_iff` — exactly when the clamps change nothing.
-/

namespace KeelTrader.Sim

open Checked

variable {lm : Libm} {p : Params} {enable o n : ℤ} {isShort : Bool}

/-! ## The market and the action -/

/-- The market of one symbol without features that opens every row at `1`. -/
def barMarket (numTimesteps : ℕ) (low high close : ℚ) : MarketData where
  numSymbols := 1
  numTimesteps := numTimesteps
  featuresPerSym := 0
  features _ _ _ := 0
  prices _ _
    | .pOpen => 1
    | .pHigh => high
    | .pLow => low
    | .pClose => close
    | .pVol => 0
  tradable := none
  anyTradable := none

/-- The number of allocation bins that `c_step` decodes with. -/
def Params.allocBins (p : Params) : ℤ :=
  if p.actionAllocationBins < 1 then 1 else p.actionAllocationBins

/-- The number of level bins that `c_step` decodes with. -/
def Params.levelBins (p : Params) : ℤ := if p.actionLevelBins < 1 then 1 else p.actionLevelBins

/-- The action for the first allocation bin and the last level bin of the first symbol, in a
market of one symbol. -/
def Params.entryAction (p : Params) (isShort : Bool) : ℤ :=
  if isShort then p.allocBins * p.levelBins + p.levelBins else p.levelBins

lemma one_le_allocBins : 1 ≤ p.allocBins := by
  unfold Params.allocBins
  split_ifs <;> omega

lemma one_le_levelBins : 1 ≤ p.levelBins := by
  unfold Params.levelBins
  split_ifs <;> omega

/-- The entry action is decoded as what it stands for. -/
lemma decodeAction_entry : decodeAction p 1 (p.entryAction isShort) =
    .ok (.target isShort 0 0 (p.levelBins - 1)) := by
  have hA := one_le_allocBins (p := p)
  have hL := one_le_levelBins (p := p)
  have hAL : p.levelBins ≤ p.allocBins * p.levelBins := le_mul_of_one_le_left (by omega) hA
  have hside : decide (p.entryAction isShort - 1 ≥ p.allocBins * p.levelBins) = isShort := by
    cases isShort <;> simp [Params.entryAction] <;> omega
  have hidx : (if isShort = true then p.entryAction isShort - 1 - p.allocBins * p.levelBins
      else p.entryAction isShort - 1) = p.levelBins - 1 := by
    cases isShort <;> simp [Params.entryAction]
    omega
  have hrange : p.entryAction isShort ≥ 1 ∧
      p.entryAction isShort ≤ 2 * (p.allocBins * p.levelBins) := by
    cases isShort <;> simp [Params.entryAction] <;> omega
  have halloc : (if p.actionAllocationBins < 1 then 1 else p.actionAllocationBins) =
      p.allocBins := rfl
  have hlevel : (if p.actionLevelBins < 1 then 1 else p.actionLevelBins) = p.levelBins := rfl
  unfold decodeAction
  dsimp only
  rw [halloc, hlevel, Nat.cast_one, one_mul, hside, hidx, if_neg (by omega), if_pos hrange,
    cdiv_of_ne (by omega), cmod_of_ne (by omega),
    Int.tdiv_eq_zero_of_lt (by omega) (by omega), Int.tmod_eq_of_lt (by omega) (by omega)]
  change (do
    let allocIdx ← cdiv (p.levelBins - 1) p.levelBins
    let levelIdx ← cmod (p.levelBins - 1) p.levelBins
    pure (Decoded.target isShort 0 allocIdx levelIdx)) = _
  rw [cdiv_of_ne (by omega), cmod_of_ne (by omega),
    Int.tdiv_eq_zero_of_lt (by omega) (by omega), Int.tmod_eq_of_lt (by omega) (by omega)]
  rfl

/-- The offset of the last level bin. -/
def Params.topOffsetBps (p : Params) : ℚ :=
  if p.actionLevelBins ≤ 1 ∨ p.actionMaxOffsetBps ≤ 0 then 0 else p.actionMaxOffsetBps

/-- The limit price of the entry action, in a market that opens at `1`. -/
def Params.entryTarget (p : Params) : ℚ := 1 * (1 + p.topOffsetBps / 10000)

lemma entryTarget_pos : 0 < p.entryTarget := by
  unfold Params.entryTarget Params.topOffsetBps
  split_ifs with hlevels
  · norm_num
  · rw [not_or, not_le, not_le] at hlevels
    have hoffset := div_pos hlevels.2 (by norm_num : (0 : ℚ) < 10000)
    linarith

lemma actionLevelOffsetBps_top :
    actionLevelOffsetBps p (p.levelBins - 1) = .ok p.topOffsetBps := by
  unfold actionLevelOffsetBps Params.topOffsetBps
  by_cases hlevels : p.actionLevelBins ≤ 1 ∨ p.actionMaxOffsetBps ≤ 0
  · rw [if_pos hlevels, if_pos hlevels]
    rfl
  rw [if_neg hlevels, if_neg hlevels]
  dsimp only
  rw [not_or, not_le, not_le] at hlevels
  have hbins : p.levelBins = p.actionLevelBins := if_neg (by omega)
  have hne : ((p.actionLevelBins - 1 : ℤ) : ℚ) ≠ 0 := by
    exact_mod_cast (by omega : p.actionLevelBins - 1 ≠ 0)
  rw [hbins, if_neg (by omega : ¬p.actionLevelBins - 1 < 0),
    if_neg (by omega : ¬p.actionLevelBins - 1 ≥ p.actionLevelBins),
    bind_of_eq_ok (fdiv_of_ne hne), div_self hne, pure_eq_ok]
  ring

/-! ## What the entry action does -/

/-- The price that the entry action fills at. -/
def Params.entryPrice (p : Params) (isShort : Bool) : ℚ :=
  p.entryTarget * if isShort then 1 - p.slippage else 1 + p.slippage

/-- The quantity that the entry action fills. -/
def Params.entryQty (p : Params) (isShort : Bool) : ℚ :=
  initialCash * p.maxLeverage * p.leastAllocation / (p.entryPrice isShort * (1 + p.feeRate))

/-- The fill rule accepts the entry action on a bar. -/
def Params.FillsOn (p : Params) (isShort : Bool) (low high : ℚ) : Prop :=
  (limitFillPrice p.fillBufferBps p.fillSlippageBps low high p.entryTarget (!isShort)).isSome

section Bar

variable {numTimesteps : ℕ} {low high close : ℚ}

/-- An accepted entry fills at the entry price. -/
lemma limitFillPrice_entry (h : p.FillsOn isShort low high) :
    limitFillPrice p.fillBufferBps p.fillSlippageBps low high p.entryTarget (!isShort) =
      some (p.entryPrice isShort) := by
  obtain ⟨f, hf⟩ := Option.isSome_iff_exists.mp h
  rw [hf, limitFillPrice_eq hf]
  cases isShort <;> rfl

lemma entryPrice_fee_pos (h : p.Fills isShort) : 0 < p.entryPrice isShort * (1 + p.feeRate) := by
  unfold Params.entryPrice
  rw [mul_assoc]
  exact mul_pos entryTarget_pos h

lemma entryQty_pos (hlev : 0 < p.maxLeverage) (h : p.Fills isShort) : 0 < p.entryQty isShort :=
  div_pos (mul_pos (mul_pos (by norm_num [initialCash]) hlev) leastAllocation_pos)
    (entryPrice_fee_pos h)

lemma getPrice_bar {t : ℤ} (ht : 0 ≤ t ∧ t < numTimesteps) (k : PriceFeat) :
    getPrice (barMarket numTimesteps low high close) t 0 k =
      .ok ((barMarket numTimesteps low high close).prices t.toNat 0 k) :=
  getPrice_of_lt ht ⟨le_rfl, zero_lt_one⟩ k

/-- The order of the entry action asks the fill rule about the bar. -/
lemma sizedFill_bar {t : ℤ} (ht : 0 ≤ t ∧ t < numTimesteps) {r : Option (ℚ × ℚ)}
    (h : (match limitFillPrice p.fillBufferBps p.fillSlippageBps low high p.entryTarget
        (!isShort) with
      | none => pure none
      | some fillPrice =>
        if p.leastAllocation ≤ 0 then pure none
        else
          let budget := initialCash * p.maxLeverage * clampAllocation p.leastAllocation
          if budget ≤ 0 then pure none
          else
            let denom := fillPrice * (1 + p.feeRate)
            if denom ≤ 0 then pure none
            else do
              let qty ← fdiv budget denom
              if qty ≤ 0 then pure none else pure (some (fillPrice, qty)) :
        Checked (Option (ℚ × ℚ))) = .ok r) :
    sizedFill (barMarket numTimesteps low high close) p t 0 p.leastAllocation p.topOffsetBps
      (!isShort) initialCash = .ok r := by
  have hcash : 0 < initialCash := by norm_num [initialCash]
  have hfill : resolveLimitFillPrice (barMarket numTimesteps low high close) p t 0 p.entryTarget
      (!isShort) = .ok (limitFillPrice p.fillBufferBps p.fillSlippageBps low high p.entryTarget
        (!isShort)) := by
    rw [resolveLimitFillPrice, bind_of_eq_ok (getPrice_bar ht .pLow),
      bind_of_eq_ok (getPrice_bar ht .pHigh)]
    rfl
  unfold sizedFill
  rw [bind_of_eq_ok (getPrice_bar ht .pOpen)]
  change (if (1 : ℚ) ≤ 0 ∨ initialCash ≤ 0 then _ else _) = _
  rw [if_neg (not_or.mpr ⟨by norm_num, not_le.mpr hcash⟩)]
  change (if p.entryTarget ≤ 0 then _ else resolveLimitFillPrice _ p t 0 p.entryTarget _ >>= _) = _
  rw [if_neg (not_le.mpr entryTarget_pos), bind_of_eq_ok hfill]
  exact h

/-- The entry action is sized when it fills. -/
lemma sizedFill_entry (hlev : 0 < p.maxLeverage) (hfills : p.Fills isShort) {t : ℤ}
    (ht : 0 ≤ t ∧ t < numTimesteps) (h : p.FillsOn isShort low high) :
    sizedFill (barMarket numTimesteps low high close) p t 0 p.leastAllocation p.topOffsetBps
      (!isShort) initialCash = .ok (some (p.entryPrice isShort, p.entryQty isShort)) := by
  have hclamp : clampAllocation p.leastAllocation = p.leastAllocation :=
    if_neg (not_lt.mpr leastAllocation_le_one)
  have hbudget : 0 < initialCash * p.maxLeverage * p.leastAllocation :=
    mul_pos (mul_pos (by norm_num [initialCash]) hlev) leastAllocation_pos
  have hdenom := entryPrice_fee_pos hfills
  refine sizedFill_bar ht ?_
  rw [limitFillPrice_entry h]
  dsimp only
  rw [if_neg (not_le.mpr leastAllocation_pos), hclamp, if_neg (not_le.mpr hbudget),
    if_neg (not_le.mpr hdenom), bind_of_eq_ok (fdiv_of_ne hdenom.ne')]
  exact if_neg (not_le.mpr (entryQty_pos hlev hfills))

/-- The entry action is not sized when it does not fill. -/
lemma sizedFill_no_entry {t : ℤ} (ht : 0 ≤ t ∧ t < numTimesteps)
    (h : ¬p.FillsOn isShort low high) :
    sizedFill (barMarket numTimesteps low high close) p t 0 p.leastAllocation p.topOffsetBps
      (!isShort) initialCash = .ok none := by
  refine sizedFill_bar ht ?_
  rw [Option.not_isSome_iff_eq_none.mp h]
  rfl

variable (hT : 0 < numTimesteps) (ho : 0 ≤ o) (hn : 0 ≤ n)

/-- The bar of the entry action: the order passes the fill gate, and is then entered. -/
lemma executeBar_entry (rng : UInt64) :
    executeBar (barMarket numTimesteps low high close) p (.waited o n) rng
      (p.entryAction isShort) = (do
        let r ← enterTarget (barMarket numTimesteps low high close) p
          (tradeRow (barMarket numTimesteps low high close) (.waited o n)) isShort 0
          p.leastAllocation p.topOffsetBps (.waited o n) rng 0
        pure ⟨r.1, r.2.1, 0 + r.2.2, true, initialCash⟩) := by
  have hdecode : decodeAction p (barMarket numTimesteps low high close).numSymbols
      (p.entryAction isShort) = .ok (.target isShort 0 0 (p.levelBins - 1)) := decodeAction_entry
  rw [executeBar_waited, applyAction, bind_of_eq_ok hdecode]
  dsimp only
  rw [goTarget_waited le_rfl, bind_of_eq_ok actionAllocationPct_zero,
    bind_of_eq_ok actionLevelOffsetBps_top]
  rfl

include hT ho hn in
/-- **A fill** of the entry action is an entry at the entry price. -/
theorem executeBar_filled (hlev : 0 < p.maxLeverage) (hfills : p.Fills isShort)
    (h : p.FillsOn isShort low high) (close : ℚ) {rng : UInt64}
    (hgate : (fillGate p rng).1 = true) :
    Returns (executeBar (barMarket numTimesteps low high close) p (.waited o n) rng
      (p.entryAction isShort)) fun x => x.equityBefore = initialCash ∧
        x.agent = (AgentState.waited o n).entered (barMarket numTimesteps low high close) p isShort
          0 (p.entryPrice isShort) (p.entryQty isShort) := by
  have ht : 0 ≤ tradeRow (barMarket numTimesteps low high close) (.waited o n) ∧
      tradeRow (barMarket numTimesteps low high close) (.waited o n) < numTimesteps :=
    tradeRow_waited hT ho hn
  rw [executeBar_entry, enterTarget]
  dsimp only
  rw [hgate, if_pos rfl, bind_of_eq_ok (openTarget_of_some (sizedFill_entry hlev hfills ht h))]
  exact ⟨_, rfl, rfl, rfl⟩

include hT ho hn in
/-- An entry action that the fill gate or the fill rule refuses leaves the agent waiting. -/
theorem executeBar_unfilled (close : ℚ) {rng : UInt64}
    (h : (fillGate p rng).1 = false ∨ ¬p.FillsOn isShort low high) :
    Returns (executeBar (barMarket numTimesteps low high close) p (.waited o n) rng
      (p.entryAction isShort)) fun x => x.equityBefore = initialCash ∧
        x.agent = .waited o n := by
  have ht : 0 ≤ tradeRow (barMarket numTimesteps low high close) (.waited o n) ∧
      tradeRow (barMarket numTimesteps low high close) (.waited o n) < numTimesteps :=
    tradeRow_waited hT ho hn
  rw [executeBar_entry, enterTarget]
  dsimp only
  by_cases hgate : (fillGate p rng).1 = true
  · have hfill := h.resolve_left (by rw [hgate]; decide)
    rw [hgate, if_pos rfl, bind_of_eq_ok (openTarget_of_none (sizedFill_no_entry ht hfill))]
    exact ⟨_, rfl, rfl, rfl⟩
  · rw [if_neg hgate]
    exact ⟨_, rfl, rfl, rfl⟩

end Bar

/-! ## Bars that fill -/

lemma topOffsetBps_clamped : (p.clamped enable).topOffsetBps = p.topOffsetBps := by
  have hclamped := actionLevelOffsetBps_top (p := p.clamped enable)
  rw [actionLevelOffsetBps_clamped] at hclamped
  exact (Except.ok.inj (actionLevelOffsetBps_top.symm.trans hclamped)).symm

lemma entryTarget_clamped : (p.clamped enable).entryTarget = p.entryTarget := by
  unfold Params.entryTarget
  rw [topOffsetBps_clamped]

/-- A bar fills the entry of a long when its low undercuts the trigger, and its high covers the
slippage. -/
lemma fillsOn_long {low high : ℚ} (h : low ≤ high) : p.FillsOn false low high ↔
    low ≤ buyTrigger p.fillBufferBps p.entryTarget ∧ p.entryPrice false ≤ high := by
  have hprice : p.entryTarget * (1 + p.fillSlippageBps / 10000) = p.entryPrice false := rfl
  unfold Params.FillsOn limitFillPrice
  rw [Bool.not_false, if_pos rfl, barRange, if_neg (not_lt.mpr h), hprice]
  split_ifs <;> simp_all

/-- A bar fills the entry of a short when its high overshoots the trigger, and its low covers the
slippage. -/
lemma fillsOn_short {low high : ℚ} (h : low ≤ high) : p.FillsOn true low high ↔
    p.entryTarget * (1 + p.fillBufferBps / 10000) ≤ high ∧ low ≤ p.entryPrice true := by
  have hprice : p.entryTarget * (1 - p.fillSlippageBps / 10000) = p.entryPrice true := rfl
  unfold Params.FillsOn limitFillPrice
  rw [Bool.not_true, if_neg Bool.false_ne_true, barRange, if_neg (not_lt.mpr h)]
  dsimp only
  rw [hprice]
  split_ifs <;> simp_all

/-- Some bar fills the entry. -/
lemma exists_fillsOn (p : Params) (isShort : Bool) : ∃ low high, p.FillsOn isShort low high := by
  cases isShort with
  | false =>
    have htrigger : 0 ≤ buyTrigger p.fillBufferBps p.entryTarget := by
      unfold buyTrigger
      dsimp only
      split_ifs with h
      · exact le_rfl
      · exact not_lt.mp h
    refine ⟨0, max 0 (p.entryPrice false), (fillsOn_long (le_max_left _ _)).mpr ?_⟩
    exact ⟨htrigger, le_max_right _ _⟩
  | true =>
    refine ⟨p.entryPrice true, max (p.entryPrice true)
      (p.entryTarget * (1 + p.fillBufferBps / 10000)), (fillsOn_short (le_max_left _ _)).mpr ?_⟩
    exact ⟨le_max_right _ _, le_rfl⟩

/-- A negative `fill_buffer_bps` fills the entry on a bar that does not reach its target. -/
lemma exists_fillsOn_not_clamped (enable : ℤ) (hb : p.fillBufferBps < 0) (isShort : Bool) :
    ∃ low high, p.FillsOn isShort low high ∧ ¬(p.clamped enable).FillsOn isShort low high := by
  have hzero : (p.clamped enable).fillBufferBps = 0 := atLeast_of_lt hb
  have hbuffer : p.fillBufferBps / 10000 < 0 := div_neg_of_neg_of_pos hb (by norm_num)
  have hpos := entryTarget_pos (p := p)
  have hmove : p.entryTarget * (p.fillBufferBps / 10000) < 0 := mul_neg_of_pos_of_neg hpos hbuffer
  cases isShort with
  | false =>
    have htrigger : buyTrigger p.fillBufferBps p.entryTarget =
        p.entryTarget * (1 - p.fillBufferBps / 10000) := if_neg (by linarith)
    have hclamped : buyTrigger 0 p.entryTarget = p.entryTarget := by
      unfold buyTrigger
      dsimp only
      rw [if_neg (by linarith)]
      ring
    set low := p.entryTarget * (1 - p.fillBufferBps / 10000) with hlow
    have hle : low ≤ max low (p.entryPrice false) := le_max_left _ _
    refine ⟨low, max low (p.entryPrice false),
      (fillsOn_long hle).mpr ⟨htrigger.ge, le_max_right _ _⟩, ?_⟩
    rw [fillsOn_long hle, hzero, entryTarget_clamped, hclamped]
    exact fun h => absurd h.1 (by rw [hlow]; linarith)
  | true =>
    set high := p.entryTarget * (1 + p.fillBufferBps / 10000) with hhigh
    have hle : min high (p.entryPrice true) ≤ high := min_le_left _ _
    refine ⟨min high (p.entryPrice true), high,
      (fillsOn_short hle).mpr ⟨le_rfl, min_le_right _ _⟩, ?_⟩
    rw [fillsOn_short hle, hzero, entryTarget_clamped]
    exact fun h => absurd h.1 (by rw [hhigh]; linarith)

/-! ## The roll of the gate -/

/-- A state of the generator whose next roll is `0`. -/
def zeroRoll : UInt64 := 0x98D76A164D99A710

/-- The state of the generator before `zeroRoll`. -/
def beforeZeroRoll : UInt64 := 0x0C914ADE8E9C0E7A

/-- The roll of `0` passes every gate with a probability. -/
lemma fillGate_zeroRoll : (fillGate p zeroRoll).1 = decide (0 ≤ p.fillProbability) := by
  have hroll : (fastRandFloat zeroRoll).1 = 0 := by decide +kernel
  unfold fillGate
  split_ifs with h
  · simp only [hroll]
  · exact (decide_eq_true (by linarith)).symm

/-- Every reset can leave the generator at the roll of `0`. -/
lemma exists_reset_zeroRoll (md : MarketData) (p : Params) :
    ∃ rng, (resetAgentState md p rng).2 = zeroRoll := by
  have hnext : (fastRandU64 beforeZeroRoll).2 = zeroRoll := by decide +kernel
  unfold resetAgentState startOffset
  dsimp only
  by_cases hforced : p.forcedOffset ≥ 0
  · exact ⟨zeroRoll, by rw [if_pos hforced]⟩
  by_cases hroom : (md.numTimesteps : ℤ) - p.maxSteps - 1 ≤ 0
  · exact ⟨zeroRoll, by rw [if_neg hforced, if_pos hroom]⟩
  · refine ⟨beforeZeroRoll, ?_⟩
    rw [if_neg hforced, if_neg hroom, fastRandInt, if_neg (by omega)]
    exact hnext

/-! ## Episodes of one bar -/

/-- The trades and the return that the log of an environment counts. -/
def Log.trades (log : Log) : ℚ × ℚ := (log.numTrades, log.totalReturn)

section OneBar

variable {low high : ℚ} {env : EnvState} {action : ℤ} {x : Executed}

/-- The only row is the last one. -/
lemma ends_one_row (hclock : 0 ≤ x.agent.tick.dataOffset + x.agent.tick.step) {m : Marked}
    (hm : markToMarket (barMarket 1 low high 0) p x = .ok m) :
    m.tNew = 0 ∧ ends (barMarket 1 low high 0) p m = .ok true := by
  obtain ⟨-, -, -, -, hrow, -⟩ := markToMarket_eq_ok hm
  have hrange := clampRow_range (barMarket 1 low high 0) one_pos hclock
  have hzero : m.tNew = 0 := by
    rw [hrow]
    change 0 ≤ tradeRow _ _ ∧ tradeRow _ _ < ((1 : ℕ) : ℤ) at hrange
    omega
  refine ⟨hzero, ends_of_done fun earlyExit => ?_⟩
  have hlast : m.tNew ≥ ((barMarket 1 low high 0).numTimesteps : ℤ) - 1 := by
    rw [hzero]
    exact le_of_eq (by norm_num [barMarket])
  rw [isDone, decide_eq_true hlast, Bool.or_true, Bool.true_or, Bool.true_or]

/-- Waiting out the only bar adds nothing to the log. -/
lemma cStep_one_wait (ho : 0 ≤ o)
    (hx : executeBar (barMarket 1 low high 0) p env.agent env.rng action = .ok x)
    (heq : x.equityBefore = initialCash) (hag : x.agent = .waited o 0) :
    Returns (cStep lm (barMarket 1 low high 0) p env action) fun env' =>
      env'.log.trades = env.log.trades := by
  have hm : markToMarket (barMarket 1 low high 0) p x = _ := markToMarket_waited hag heq
  obtain ⟨hrow, hends⟩ := ends_one_row (by rw [hag]; exact Int.add_nonneg ho zero_le_one) hm
  have hreturns : Returns (cStep lm (barMarket 1 low high 0) p env action) fun _ => True := by
    rw [cStep_eq, bind_of_eq_ok hx, bind_of_eq_ok hm]
    refine (shapedReward_returns _ _).bind fun reward _ => ?_
    rw [bind_of_eq_ok hends]
    have hpriced : (AgentState.waited o 1).Priced (barMarket 1 low high 0) :=
      AgentState.priced_of_pos one_pos
    exact (finishEpisode_returns one_pos (by rw [hrow]; exact ⟨le_rfl, one_pos⟩) hpriced
      (by norm_num [AgentState.waited, AgentState.initial, initialCash]) _ _ _).mono
        fun _ _ => trivial
  refine hreturns.of_values fun env' henv' => ?_
  obtain ⟨-, r, hr, hlog⟩ := cStep_done hx hm hends henv'
  rw [finalClose, if_neg waited_flat] at hr
  cases hr
  obtain ⟨htrades, hreturn, -, -⟩ := logEpisode_eq_ok hlog
  refine Prod.ext (htrades.trans (add_zero _)) (hreturn.trans ?_)
  change env.log.totalReturn + (initialCash - initialCash) / initialCash = _
  rw [sub_self, zero_div, add_zero]
  rfl

/-- The guard never refuses to buy a short back. -/
lemma not_deathSpiralRefused_short (sellPrice entryPrice : ℚ) (holdHours : ℤ) :
    deathSpiralRefused p sellPrice entryPrice holdHours true = false := by
  simp [deathSpiralRefused]

/-- The final close of a position trades it, unless the guard refuses: then it leaves a long at its
mark. -/
lemma finalClose_held {md : MarketData} {t sym : ℤ} {ag : AgentState}
    (hsym : 0 ≤ sym ∧ sym < md.numSymbols)
    (hpos : ag.positionSym = targetPosId md.numSymbols isShort sym) {r : AgentState × ℚ}
    (h : finalClose md p t ag = .ok r) : r.1.numTrades = ag.numTrades + 1 ∨
      isShort = false ∧ r.1.initialEquity = ag.initialEquity ∧ r.2 = ag.markedAt md t := by
  have hheld := positionSym_nonneg hsym hpos
  unfold finalClose at h
  rw [if_pos hheld] at h
  obtain ⟨r', hclose, h⟩ := bind_eq_ok.mp h
  rcases closePosition_cases hclose with
    ⟨hflat, -⟩ | ⟨-, held, price, -, -, ⟨hrefused, rfl⟩ | ⟨-, rfl⟩⟩
  · exact absurd hflat (not_lt.mpr hheld)
  · dsimp only at h
    rw [if_neg Bool.false_ne_true] at h
    obtain ⟨equity, hequity, h⟩ := bind_eq_ok.mp h
    cases h
    refine .inr ⟨?_, rfl, ?_⟩
    · by_contra hside
      rw [Bool.not_eq_false] at hside
      rw [decide_eq_true ((side_held hsym hpos).mpr hside),
        not_deathSpiralRefused_short] at hrefused
      cases hrefused
    · rw [computeEquity_eq_ok hequity]
      exact SameHoldings.markedAt ⟨rfl, rfl, rfl, rfl⟩ _
  · dsimp only at h
    rw [if_pos rfl] at h
    cases h
    exact .inl rfl

/-- A position that is entered on the only bar is logged: as a trade, or as a loss if the guard
refuses the exit. -/
lemma cStep_one_entry (ho : 0 ≤ o) {price qty : ℚ} (hqty : 0 < qty)
    (hcost : 0 < qty * (price * (1 + p.feeRate)))
    (hx : executeBar (barMarket 1 low high 0) p env.agent env.rng action = .ok x)
    (hag : x.agent =
      (AgentState.waited o 0).entered (barMarket 1 low high 0) p isShort 0 price qty) :
    Ensures (cStep lm (barMarket 1 low high 0) p env action) fun env' =>
      env'.log.trades ≠ env.log.trades := by
  intro env' henv' hsamelog
  obtain ⟨x', m, hx', hm, -⟩ := cStep_cases henv'
  rw [hx] at hx'
  cases hx'
  have hsym : (0 : ℤ) ≤ 0 ∧ (0 : ℤ) < ((barMarket 1 low high 0).numSymbols : ℕ) :=
    ⟨le_rfl, zero_lt_one⟩
  have hclock : 0 ≤ x.agent.tick.dataOffset + x.agent.tick.step := by
    rw [hag]
    exact Int.add_nonneg ho zero_le_one
  have hpos : x.agent.positionSym =
      targetPosId (barMarket 1 low high 0).numSymbols isShort 0 := by rw [hag]; rfl
  obtain ⟨-, hends⟩ := ends_one_row hclock hm
  obtain ⟨-, r, hr, hlog⟩ := cStep_done hx hm hends henv'
  obtain ⟨htrades, hreturn, -, -⟩ := logEpisode_eq_ok hlog
  obtain ⟨-, fee, -, -, -, -, -, hsame⟩ := markToMarket_eq_ok hm
  have hmarked : ({ m.agent with prevRet := m.ret } : AgentState).positionSym =
      targetPosId (barMarket 1 low high 0).numSymbols isShort 0 := hsame.sym.trans hpos
  rcases finalClose_held hsym hmarked hr with hclosed | ⟨rfl, hinit, hmark⟩
  · have hcount : m.agent.numTrades = 0 := hsame.trades.trans (by rw [hag]; rfl)
    have hsum : env'.log.numTrades = env.log.numTrades := congrArg Prod.fst hsamelog
    rw [htrades, hclosed] at hsum
    change env.log.numTrades + ((m.agent.numTrades + 1 : ℤ) : ℚ) = env.log.numTrades at hsum
    rw [hcount] at hsum
    norm_num at hsum
  · have hvalue := equityAfter_held hsym hm hpos (by rw [hag]; exact hqty)
      (clampRow_range (barMarket 1 low high 0) one_pos hclock)
    have hspent : m.equityAfter = initialCash - qty * (price * (1 + p.feeRate)) := by
      rw [hvalue, hag]
      change initialCash - qty * (price * (1 + p.feeRate)) + qty * 0 -
        (if (0 : ℚ) ≤ 0 then 0 else qty * 0 * p.borrowRate false) = _
      rw [if_pos le_rfl, mul_zero, add_zero, sub_zero]
    have hfinal : r.2 = m.equityAfter := hmark.trans (markToMarket_marked hm).1.symm
    have hstart : r.1.initialEquity = initialCash :=
      (hinit.trans (markToMarket_clock x m hm).2).trans (by rw [hag]; rfl)
    have hcash : 0 < initialCash := by norm_num [initialCash]
    have hloss : (r.2 - r.1.initialEquity) / r.1.initialEquity < 0 := by
      rw [hstart, hfinal, hspent]
      exact div_neg_of_neg_of_pos (by linarith) hcash
    have hsum : env'.log.totalReturn = env.log.totalReturn := congrArg Prod.snd hsamelog
    rw [hreturn] at hsum
    linarith

end OneBar

/-! ## Fills that show -/

/-- A reset of a new environment: the waiting agent, the drawn generator, and the empty log. -/
lemma cReset_zero {md : MarketData} (hS : 0 < md.numSymbols) (hT : 0 < md.numTimesteps)
    (rng : UInt64) : Returns (cReset md p (.zero rng)) fun env =>
      env.agent = .waited (startOffset md p rng).1 0 ∧
        env.rng = (resetAgentState md p rng).2 ∧ env.log = (EnvState.zero rng).log :=
  (fillObservations_returns (AgentState.priced_of_pos hS) hT).bind fun _ _ =>
    Returns.pure ⟨rfl, rfl, rfl⟩

/-- A run that shows what another run shows returns when the other does. -/
lemma view_eq_ok {x y : Checked EnvState} {env : EnvState}
    (h : EnvState.view <$> x = EnvState.view <$> y) (hy : y = .ok env) :
    ∃ env', x = .ok env' ∧ env'.view = env.view := by
  subst hy
  cases x with
  | error e => cases h
  | ok env' => exact ⟨env', rfl, Except.ok.inj h⟩

/-- A first action that fills under one parameter set, and not under another, shows in an episode
of one bar. -/
lemma view_ne_of_fill {p q : Params} {low high : ℚ} {rng : UInt64} (hlev : 0 < p.maxLeverage)
    (hfills : p.Fills isShort) (hon : p.FillsOn isShort low high)
    (hgate : (fillGate p (resetAgentState (barMarket 1 low high 0) p rng).2).1 = true)
    (hnot : (fillGate q (resetAgentState (barMarket 1 low high 0) q rng).2).1 = false ∨
      ¬q.FillsOn isShort low high) (hact : q.entryAction isShort = p.entryAction isShort) :
    EnvState.view <$> episode lm (barMarket 1 low high 0) p (.zero rng) [p.entryAction isShort] ≠
      EnvState.view <$>
        episode lm (barMarket 1 low high 0) q (.zero rng) [p.entryAction isShort] := by
  have hrun : ∀ {r : Params} {env : EnvState},
      cReset (barMarket 1 low high 0) r (.zero rng) = .ok env →
        episode lm (barMarket 1 low high 0) r (.zero rng) [p.entryAction isShort] =
          cStep lm (barMarket 1 low high 0) r env (p.entryAction isShort) := by
    intro r env henv
    rw [episode, bind_of_eq_ok henv]
    exact bind_pure _
  obtain ⟨env, henv, hag, hrng, hlog⟩ :=
    cReset_zero (p := p) (show 0 < (barMarket 1 low high 0).numSymbols from one_pos) one_pos rng
  obtain ⟨env', henv', hag', hrng', hlog'⟩ :=
    cReset_zero (p := q) (show 0 < (barMarket 1 low high 0).numSymbols from one_pos) one_pos rng
  have ho := startOffset_nonneg (barMarket 1 low high 0) p rng
  have ho' := startOffset_nonneg (barMarket 1 low high 0) q rng
  obtain ⟨x, hx, -, hxag⟩ := executeBar_filled one_pos ho le_rfl hlev hfills hon
    0 hgate
  obtain ⟨y, hy, hyeq, hyag⟩ := executeBar_unfilled one_pos ho' le_rfl 0 hnot
  rw [← hag, ← hrng] at hx
  rw [← hag', ← hrng', hact] at hy
  intro hsame
  rw [hrun henv, hrun henv'] at hsame
  obtain ⟨after', hafter', hwait⟩ := cStep_one_wait ho' hy hyeq hyag
  obtain ⟨after, hafter, hview⟩ := view_eq_ok hsame hafter'
  refine cStep_one_entry ho (entryQty_pos hlev hfills)
    (mul_pos (entryQty_pos hlev hfills) (entryPrice_fee_pos hfills)) hx hxag after hafter ?_
  have hlogs : after.log = after'.log := congrArg (fun v => v.2.2.2) hview
  rw [hlogs, hwait, hlog, hlog']

/-- **Fills.** Where an order can fill, a negative buffer or probability shows in some run. -/
theorem not_sameRuns_of_fills (htrade : p.CanTrade)
    (h : ¬(0 ≤ p.fillBufferBps ∧ 0 ≤ p.fillProbability)) : ¬SameRuns p (p.clamped enable) := by
  intro hsame
  obtain ⟨hlev, isShort, hfills⟩ := htrade
  by_cases hprob : 0 ≤ p.fillProbability
  · have hb : p.fillBufferBps < 0 := lt_of_not_ge fun hb => h ⟨hb, hprob⟩
    obtain ⟨low, high, hon, hnot⟩ := exists_fillsOn_not_clamped enable hb isShort
    obtain ⟨rng, hrng⟩ := exists_reset_zeroRoll (barMarket 1 low high 0) p
    refine view_ne_of_fill (p := p) (q := p.clamped enable) hlev hfills hon ?_
      (.inr hnot) rfl (hsame .firstOrder _ rng _)
    rw [hrng, fillGate_zeroRoll, decide_eq_true hprob]
  · obtain ⟨low, high, hon⟩ := exists_fillsOn (p.clamped enable) isShort
    obtain ⟨rng, hrng⟩ := exists_reset_zeroRoll (barMarket 1 low high 0) p
    refine view_ne_of_fill (p := p.clamped enable) (q := p) hlev hfills hon ?_
      (.inl ?_) rfl (hsame .firstOrder _ rng _).symm
    · rw [resetAgentState_clamped, hrng, fillGate_zeroRoll,
        decide_eq_true fillProbability_clamped_nonneg]
    · rw [hrng, fillGate_zeroRoll, decide_eq_false hprob]

/-! ## A loss to end on -/

/-- The equity that the entry action is marked at, at the end of its bar. -/
def Params.entryEquity (p : Params) (isShort : Bool) (close : ℚ) : ℚ :=
  (if isShort then
    initialCash + p.entryQty true * p.entryPrice true * (1 - p.feeRate) - p.entryQty true * close
  else
    initialCash - p.entryQty false * (p.entryPrice false * (1 + p.feeRate)) +
      p.entryQty false * close) -
    if close ≤ 0 then 0 else p.entryQty isShort * close * p.borrowRate isShort

/-- A short can be marked at any equity. -/
lemma exists_entryEquity_short (hlev : 0 < p.maxLeverage) (hfills : p.Fills true) (equity : ℚ) :
    ∃ close, p.entryEquity true close = equity := by
  have hqty := entryQty_pos hlev hfills
  have hrate := borrowRate_nonneg (p := p) true
  unfold Params.entryEquity
  simp only [if_true]
  set cash := initialCash + p.entryQty true * p.entryPrice true * (1 - p.feeRate) with hcash
  rcases le_or_gt cash equity with hle | hgt
  · have hclose : (cash - equity) / p.entryQty true ≤ 0 :=
      div_nonpos_of_nonpos_of_nonneg (by linarith) hqty.le
    refine ⟨(cash - equity) / p.entryQty true, ?_⟩
    rw [if_pos hclose]
    field_simp
    ring
  · have hdenom : 0 < p.entryQty true * (1 + p.borrowRate true) := mul_pos hqty (by linarith)
    have hclose : 0 < (cash - equity) / (p.entryQty true * (1 + p.borrowRate true)) :=
      div_pos (by linarith) hdenom
    refine ⟨(cash - equity) / (p.entryQty true * (1 + p.borrowRate true)), ?_⟩
    rw [if_neg (not_le.mpr hclose)]
    have hne : 1 + p.borrowRate true ≠ 0 := by linarith
    field_simp
    ring

/-- A long can be marked at a hundredth of the cash at least, at less than the cash, if it can
lose. -/
lemma exists_entryEquity_long (hlev : 0 < p.maxLeverage) (hfills : p.Fills false)
    (hlose : p.borrowRate false < 1 ∨ p.maxLeverage * p.leastAllocation ≤ 99 / 100) :
    ∃ close, initialCash * (1 / 100) ≤ p.entryEquity false close ∧
      p.entryEquity false close < initialCash := by
  have hqty := entryQty_pos hlev hfills
  have hfee := entryPrice_fee_pos hfills
  have hspent : p.entryQty false * (p.entryPrice false * (1 + p.feeRate)) =
      initialCash * (p.maxLeverage * p.leastAllocation) := by
    rw [Params.entryQty, div_mul_cancel₀ _ hfee.ne', mul_assoc]
  have hcash : 0 < initialCash := by norm_num [initialCash]
  have hpart := mul_pos hlev (leastAllocation_pos (p := p))
  unfold Params.entryEquity
  simp only [Bool.false_eq_true, if_false, hspent]
  rcases le_or_gt (p.maxLeverage * p.leastAllocation) (99 / 100) with hsmall | hlarge
  · refine ⟨0, ?_⟩
    rw [if_pos le_rfl, mul_zero, add_zero, sub_zero]
    constructor
    · nlinarith
    · nlinarith
  · have hrate : p.borrowRate false < 1 := hlose.resolve_right (not_le.mpr hlarge)
    set cash := initialCash - initialCash * (p.maxLeverage * p.leastAllocation) with hcash'
    have hlow : cash < initialCash * (1 / 100) := by nlinarith
    have hdenom : 0 < p.entryQty false * (1 - p.borrowRate false) := mul_pos hqty (by linarith)
    have hclose : 0 < (initialCash * (1 / 100) - cash) /
        (p.entryQty false * (1 - p.borrowRate false)) := div_pos (by linarith) hdenom
    refine ⟨(initialCash * (1 / 100) - cash) / (p.entryQty false * (1 - p.borrowRate false)), ?_⟩
    rw [if_neg (not_le.mpr hclose)]
    have hne : 1 - p.borrowRate false ≠ 0 := by linarith
    have hvalue : cash + p.entryQty false * ((initialCash * (1 / 100) - cash) /
        (p.entryQty false * (1 - p.borrowRate false))) - p.entryQty false *
        ((initialCash * (1 / 100) - cash) / (p.entryQty false * (1 - p.borrowRate false))) *
          p.borrowRate false = initialCash * (1 / 100) := by
      field_simp
      ring
    rw [hvalue]
    exact ⟨le_rfl, by linarith⟩

/-- Parameters under which a position can lose have an entry that does. -/
lemma Params.CanLose.exists_entry (h : p.CanLose) : ∃ isShort close, p.Fills isShort ∧
    initialCash * (1 / 100) ≤ p.entryEquity isShort close ∧
      p.entryEquity isShort close < initialCash := by
  obtain ⟨hlev, hshort | ⟨hlong, hlose⟩⟩ := h
  · obtain ⟨close, hclose⟩ := exists_entryEquity_short hlev hshort (initialCash * (1 / 100))
    refine ⟨true, close, hshort, hclose.ge, ?_⟩
    rw [hclose]
    norm_num [initialCash]
  · obtain ⟨close, hclose⟩ := exists_entryEquity_long hlev hlong hlose
    exact ⟨false, close, hlong, hclose⟩

/-! ## The episode that ends early -/

/-- Marking a held position does not fault. -/
lemma markToMarket_held {md : MarketData} {sym : ℤ} (hsym : 0 ≤ sym ∧ sym < md.numSymbols)
    {x : Executed} (hpos : x.agent.positionSym = targetPosId md.numSymbols isShort sym)
    (hqty : 0 < x.agent.positionQty)
    (ht : 0 ≤ tradeRow md x.agent.tick ∧ tradeRow md x.agent.tick < md.numTimesteps) :
    Returns (markToMarket md p x) fun _ => True := by
  have hpriced : x.agent.Priced md := fun _ => by omega
  exact markToMarket_returns ht hpriced ⟨_, borrowFee_held hsym hpos ht hqty, trivial⟩

section LongMarket

variable {numTimesteps : ℕ} {low high close : ℚ}
  (hT : (numTimesteps : ℤ) = p.maxSteps + 1) {env : EnvState}

include hT in
/-- On a market with one row more than the episode has steps, the episode starts at the first
row. -/
lemma startOffset_bar (rng : UInt64) :
    (startOffset (barMarket numTimesteps low high close) p rng).1 = 0 := by
  have hroom : ((barMarket numTimesteps low high close).numTimesteps : ℤ) - p.maxSteps - 1 = 0 := by
    change (numTimesteps : ℤ) - p.maxSteps - 1 = 0
    omega
  unfold startOffset
  dsimp only
  rw [hroom]
  by_cases hforced : p.forcedOffset ≥ 0
  · rw [if_pos hforced]
    dsimp only
    split_ifs with hfar
    · rfl
    · omega
  · rw [if_neg hforced, if_pos le_rfl]

include hT in
/-- The row of a waiting agent is its step. -/
lemma tradeRow_bar (hn : n ≤ p.maxSteps) :
    tradeRow (barMarket numTimesteps low high close) (.waited 0 n) = n := by
  have hstep : (AgentState.waited 0 n).dataOffset + (AgentState.waited 0 n).step = n := zero_add n
  have hlt : ¬n ≥ ((barMarket numTimesteps low high close).numTimesteps : ℤ) := by
    change ¬n ≥ (numTimesteps : ℤ)
    omega
  rw [tradeRow, hstep, clampRow, if_neg hlt]

include hT in
/-- Before its last step, an episode ends only early or ruined. -/
lemma isDone_bar {m : Marked} (hstep : m.agent.step = n) (hrow : m.tNew = n)
    (hn : n < p.maxSteps) (hequity : initialCash * (1 / 100) ≤ m.equityAfter) (earlyExit : Bool) :
    isDone (barMarket numTimesteps low high close) p m earlyExit = earlyExit := by
  have hlast : ¬m.tNew ≥ ((barMarket numTimesteps low high close).numTimesteps : ℤ) - 1 := by
    change ¬m.tNew ≥ (numTimesteps : ℤ) - 1
    omega
  rw [isDone, decide_eq_false (by omega), decide_eq_false hlast,
    decide_eq_false (not_lt.mpr hequity), Bool.or_false, Bool.false_or, Bool.false_or]

include hT in
/-- A step of waiting. -/
lemma cStep_wait (hn : 0 ≤ n ∧ n + 1 < p.maxSteps) (hag : env.agent = .waited 0 n) :
    Returns (cStep lm (barMarket numTimesteps low high close) p env 0) fun env' =>
      env'.agent = .waited 0 (n + 1) ∧ env'.rng = env.rng := by
  have hdecode : decodeAction p (barMarket numTimesteps low high close).numSymbols 0 =
      .ok .flat := rfl
  have hx : executeBar (barMarket numTimesteps low high close) p env.agent env.rng 0 =
      .ok ⟨.waited 0 n, env.rng, 0, true, initialCash⟩ := by
    rw [hag, executeBar_waited, applyAction, bind_of_eq_ok hdecode, goFlat, if_neg waited_flat]
    rfl
  have hrow : tradeRow (barMarket numTimesteps low high close) (.waited 0 (n + 1)) = n + 1 :=
    tradeRow_bar hT (by omega)
  have hm : markToMarket (barMarket numTimesteps low high close) p
      ⟨.waited 0 n, env.rng, 0, true, initialCash⟩ =
        .ok ⟨.waited 0 (n + 1), n + 1, initialCash, 0, 0⟩ := by
    rw [markToMarket_waited rfl rfl, hrow]
  have hends : ends (barMarket numTimesteps low high close) p
      ⟨.waited 0 (n + 1), n + 1, initialCash, 0, 0⟩ = .ok false := by
    rw [ends_waited rfl rfl, isDone_bar hT rfl rfl hn.2 (by norm_num [initialCash])]
  have hrows : 0 < (barMarket numTimesteps low high close).numTimesteps := by
    change 0 < numTimesteps
    omega
  exact (cStep_live one_pos hrows hx hm hends).mono fun env' h => ⟨h.2.1, h.2.2⟩

include hT in
/-- **Waiting.** An episode can be waited out until its last step but one. -/
lemma runFrom_wait (k : ℕ) : ∀ {n : ℤ} {env : EnvState}, 0 ≤ n → n + k < p.maxSteps →
    env.agent = .waited 0 n →
    Returns (runFrom lm (barMarket numTimesteps low high close) p env (List.replicate k 0))
      fun env' => env'.agent = .waited 0 (n + k) ∧ env'.rng = env.rng := by
  induction k with
  | zero =>
    intro n env _ _ hag
    exact Returns.pure ⟨by rw [hag, Nat.cast_zero, add_zero], rfl⟩
  | succ k ih =>
    intro n env hn hlt hag
    rw [List.replicate_succ]
    refine (cStep_wait hT ⟨hn, by push_cast at hlt; omega⟩ hag).bind fun env' h => ?_
    refine (ih (by omega) (by push_cast at hlt; omega) h.1).mono fun env'' h' => ?_
    refine ⟨h'.1.trans ?_, h'.2.trans h.2⟩
    push_cast
    rw [add_right_comm, add_assoc]

include hT in
/-- An episode that is waited out until its last step but one. -/
lemma episode_wait (hsteps : 2 ≤ p.maxSteps) (lm : Libm) (low high close : ℚ) (rng : UInt64) :
    Returns (episode lm (barMarket numTimesteps low high close) p (.zero rng)
      (List.replicate (p.maxSteps - 2).toNat 0)) fun env =>
        env.agent = .waited 0 (p.maxSteps - 2) ∧
          env.rng = (resetAgentState (barMarket numTimesteps low high close) p rng).2 := by
  have hrows : 0 < (barMarket numTimesteps low high close).numTimesteps := by
    change 0 < numTimesteps
    omega
  have hsymbols : 0 < (barMarket numTimesteps low high close).numSymbols := one_pos
  refine (cReset_zero hsymbols hrows rng).bind fun env henv => ?_
  have hag : env.agent = .waited 0 0 := by rw [henv.1, startOffset_bar hT]
  refine (runFrom_wait hT (p.maxSteps - 2).toNat le_rfl (by omega) hag).mono fun env' h => ?_
  rw [Int.toNat_of_nonneg (by omega), zero_add] at h
  exact ⟨h.1, h.2.trans henv.2.1⟩

/-- The entry on the last step but one, and its loss: what both sides see. -/
structure LosingEntry (md : MarketData) (p : Params) (x : Executed) (m : Marked) : Prop where
  step : m.agent.step = p.maxSteps - 1
  row : m.tNew = p.maxSteps - 1
  marked : markToMarket md p x = .ok m
  initial : m.agent.initialEquity = initialCash
  drawdown : 0 ≤ m.agent.maxDrawdown
  above : initialCash * (1 / 100) ≤ m.equityAfter
  below : m.equityAfter < initialCash

include hT in
/-- An entry at the close of a loss. -/
lemma losingEntry (hsteps : 2 ≤ p.maxSteps) (hlev : 0 < p.maxLeverage) (hfills : p.Fills isShort)
    (habove : initialCash * (1 / 100) ≤ p.entryEquity isShort close)
    (hbelow : p.entryEquity isShort close < initialCash) {x : Executed}
    (hx : x.agent = (AgentState.waited 0 (p.maxSteps - 2)).entered
      (barMarket numTimesteps low high close) p isShort 0 (p.entryPrice isShort)
        (p.entryQty isShort)) :
    ∃ m, LosingEntry (barMarket numTimesteps low high close) p x m := by
  have hsym : (0 : ℤ) ≤ 0 ∧ (0 : ℤ) < ((barMarket numTimesteps low high close).numSymbols : ℕ) :=
    ⟨le_rfl, zero_lt_one⟩
  have hpos : x.agent.positionSym =
      targetPosId (barMarket numTimesteps low high close).numSymbols isShort 0 := by rw [hx]; rfl
  have hqty : 0 < x.agent.positionQty := by
    rw [hx]
    exact entryQty_pos hlev hfills
  have hrow : tradeRow (barMarket numTimesteps low high close) x.agent.tick = p.maxSteps - 1 := by
    have hclock : tradeRow (barMarket numTimesteps low high close) x.agent.tick =
        tradeRow (barMarket numTimesteps low high close) (.waited 0 (p.maxSteps - 2 + 1)) := by
      rw [hx]
      rfl
    rw [hclock, tradeRow_bar hT (by omega)]
    omega
  have ht : 0 ≤ tradeRow (barMarket numTimesteps low high close) x.agent.tick ∧
      tradeRow (barMarket numTimesteps low high close) x.agent.tick <
        (barMarket numTimesteps low high close).numTimesteps := by
    rw [hrow]
    change 0 ≤ p.maxSteps - 1 ∧ p.maxSteps - 1 < (numTimesteps : ℤ)
    omega
  obtain ⟨m, hm, -⟩ := markToMarket_held (p := p) hsym hpos hqty ht
  obtain ⟨-, -, -, -, hnew, -, hdrawdown, -⟩ := markToMarket_eq_ok hm
  obtain ⟨hstep, hinit⟩ := markToMarket_clock x m hm
  have hequity : m.equityAfter = p.entryEquity isShort close := by
    have hcash : x.agent.cash = if isShort then
        initialCash + p.entryQty isShort * p.entryPrice isShort * (1 - p.feeRate)
        else initialCash - p.entryQty isShort * (p.entryPrice isShort * (1 + p.feeRate)) := by
      rw [hx]
      rfl
    have hheld : x.agent.positionQty = p.entryQty isShort := by
      rw [hx]
      rfl
    have hclose : (barMarket numTimesteps low high close).prices
        (tradeRow (barMarket numTimesteps low high close) x.agent.tick).toNat (0 : ℤ).toNat
          .pClose = close := rfl
    rw [equityAfter_held hsym hm hpos hqty ht, hcash, hheld, hclose]
    unfold Params.entryEquity
    cases isShort with
    | false => simp only [Bool.false_eq_true, if_false]
    | true => simp only [if_true]
  refine ⟨m, ?_, hnew.trans hrow, hm, hinit.trans (by rw [hx]; rfl), ?_, ?_, ?_⟩
  · rw [hstep, hx]
    change p.maxSteps - 2 + 1 = p.maxSteps - 1
    omega
  · refine le_trans (le_of_eq ?_) hdrawdown
    rw [hx]
    rfl
  · rw [hequity]
    exact habove
  · rw [hequity]
    exact hbelow

end LongMarket

/-- The progress after the last step but one is the whole episode. -/
lemma progress_last {ag : AgentState} (hsteps : 2 ≤ p.maxSteps)
    (hstep : ag.step = p.maxSteps - 1) : progress p ag = 1 := by
  have hne : (p.maxSteps : ℚ) ≠ 0 := by exact_mod_cast (by omega : p.maxSteps ≠ 0)
  rw [progress, hstep, sub_add_cancel, div_self hne, atMost_of_le le_rfl]

lemma progress_le_one (ag : AgentState) : progress p ag ≤ 1 := atMost_le _ _

section Exit

variable {md : MarketData} {x : Executed} {m : Marked}

/-- An early exit that is off, or asks for more than the whole episode, lets the losing entry go
on. -/
lemma LosingEntry.stays (h : LosingEntry md p x m) (harmed : p.Armed)
    (hdone : ∀ earlyExit, isDone md p m earlyExit = earlyExit)
    (hoff : p.enableDrawdownProfitEarlyExit = 0 ∨
      1 < p.drawdownProfitEarlyExitProgressFraction) : ends md p m = .ok false := by
  have hinit : 0 < m.agent.initialEquity := by
    rw [h.initial]
    norm_num [initialCash]
  have hexit : shouldDrawdownProfitEarlyExit p m.agent m.equityAfter = .ok false := by
    by_cases hon : p.enableDrawdownProfitEarlyExit = 0
    · exact if_pos hon
    · have hfraction := hoff.resolve_left hon
      rw [earlyExit_of_armed harmed hon hinit, decide_eq_false, Bool.false_and]
      · rfl
      · exact not_le.mpr ((progress_le_one _).trans_lt hfraction)
  rw [ends, bind_of_eq_ok hexit, hdone]
  rfl

/-- An early exit that is on, for a fraction of the episode, ends it with the losing entry. -/
lemma LosingEntry.leaves (h : LosingEntry md p x m) (harmed : p.Armed)
    (hdone : ∀ earlyExit, isDone md p m earlyExit = earlyExit)
    (hon : p.enableDrawdownProfitEarlyExit ≠ 0)
    (hfraction : p.drawdownProfitEarlyExitProgressFraction ≤ 1) : ends md p m = .ok true := by
  have hinit : 0 < m.agent.initialEquity := by
    rw [h.initial]
    norm_num [initialCash]
  have hloss : m.agent.maxDrawdown >
      (m.equityAfter - m.agent.initialEquity) / m.agent.initialEquity := by
    refine lt_of_lt_of_le (div_neg_of_neg_of_pos ?_ hinit) h.drawdown
    rw [h.initial]
    linarith [h.below]
  have hexit : shouldDrawdownProfitEarlyExit p m.agent m.equityAfter = .ok true := by
    rw [earlyExit_of_armed harmed hon hinit, progress_last harmed.1 h.step,
      decide_eq_true hfraction, decide_eq_true hloss]
    rfl
  rw [ends, bind_of_eq_ok hexit, hdone]
  rfl

/-- A step that ends the episode of one side only shows. -/
lemma view_ne_of_ends {q : Params} (hS : 0 < md.numSymbols) (hT : 0 < md.numTimesteps)
    {env env' : EnvState} {action : ℤ}
    (hx : executeBar md p env.agent env.rng action = .ok x)
    (hx' : executeBar md q env'.agent env'.rng action = .ok x)
    (hm : markToMarket md p x = .ok m) (hm' : markToMarket md q x = .ok m)
    (hstay : ends md p m = .ok false) (hleave : ends md q m = .ok true) :
    EnvState.view <$> cStep lm md p env action ≠ EnvState.view <$> cStep lm md q env' action := by
  intro hview
  obtain ⟨after, hafter, hlive, -⟩ : Returns (cStep lm md p env action) _ :=
    cStep_live hS hT hx hm hstay
  obtain ⟨after', hafter', hsame⟩ := view_eq_ok hview.symm hafter
  have hterminal : after'.terminal = after.terminal := congrArg (fun v => v.2.2.1) hsame
  rw [(cStep_done hx' hm' hleave hafter').1, hlive] at hterminal
  cases hterminal

end Exit

/-- **The early exit.** Where a position can lose, a changed early exit shows in some run. -/
theorem not_sameRuns_of_exit (henable : enable = 0 → p.enableDrawdownProfitEarlyExit = 0)
    (hlose : p.CanLose) (hb : 0 ≤ p.fillBufferBps) (hprob : 0 ≤ p.fillProbability)
    (hkeeps : ¬p.KeepsExit enable) : ¬SameRuns p (p.clamped enable) := by
  have harmed : p.Armed := by
    by_contra hnot
    exact hkeeps (.inl hnot)
  have hon : enable ≠ 0 := fun hzero => hkeeps (.inr (.inl ⟨hzero, henable hzero⟩))
  have hsteps := harmed.1
  obtain ⟨isShort, close, hfills, habove, hbelow⟩ := hlose.exists_entry
  obtain ⟨low, high, hbar⟩ := exists_fillsOn p isShort
  have hT : ((p.maxSteps + 1).toNat : ℤ) = p.maxSteps + 1 := Int.toNat_of_nonneg (by omega)
  have hrows : 0 < (p.maxSteps + 1).toNat := by omega
  obtain ⟨rng, hrng⟩ := exists_reset_zeroRoll
    (barMarket (p.maxSteps + 1).toNat low high close) p
  have hgate : (fillGate p zeroRoll).1 = true := by
    rw [fillGate_zeroRoll, decide_eq_true hprob]
  -- both sides wait until the last step but one, and enter the same position there
  obtain ⟨env, henv, hag, hdrawn⟩ := episode_wait hT hsteps .firstOrder low high close rng
  have hT' : ((p.maxSteps + 1).toNat : ℤ) = (p.clamped enable).maxSteps + 1 := hT
  obtain ⟨env', henv', hag', hdrawn'⟩ :=
    episode_wait hT' hsteps .firstOrder low high close rng
  have hmax : (p.clamped enable).maxSteps = p.maxSteps := rfl
  rw [hmax] at henv' hag'
  obtain ⟨x, hx, -, hentered⟩ := executeBar_filled hrows le_rfl
    (by omega : 0 ≤ p.maxSteps - 2) hlose.1 hfills hbar close hgate
  obtain ⟨m, hm⟩ := losingEntry hT hsteps hlose.1 hfills habove hbelow hentered
  have hdone : ∀ earlyExit, isDone (barMarket (p.maxSteps + 1).toNat low high close) p m
      earlyExit = earlyExit := isDone_bar hT hm.step hm.row (by omega) hm.above
  intro hsame
  have hview := hsame .firstOrder (barMarket (p.maxSteps + 1).toNat low high close) rng
    (List.replicate (p.maxSteps - 2).toNat 0 ++ [p.entryAction isShort])
  rw [episode_concat, episode_concat, bind_of_eq_ok henv, bind_of_eq_ok henv'] at hview
  have hoff : p.enableDrawdownProfitEarlyExit = 0 ∨
      1 < p.drawdownProfitEarlyExitProgressFraction := by
    by_contra hkept
    rw [not_or, not_lt] at hkept
    exact hkeeps (.inr (.inr ⟨hon, hkept.1, hkept.2⟩))
  refine view_ne_of_ends (q := p.clamped enable) one_pos hrows ?_ ?_ hm.marked hm.marked
    (hm.stays harmed hdone hoff) ?_ hview
  · rw [hag, hdrawn, hrng]
    exact hx
  · rw [executeBar_clamped hb hprob, hag', hdrawn', resetAgentState_clamped, hrng]
    exact hx
  · have hm' : LosingEntry (barMarket (p.maxSteps + 1).toNat low high close)
        (p.clamped enable) x m := { hm with }
    exact hm'.leaves (armed_clamped.mpr harmed) hdone hon progressFraction_clamped_le

/-- **Clamped parameters.** The clamps of `my_init` change no run exactly when the parameters of
the fills are not negative, unless no order can fill; and the early exit is kept, unless no
position can lose. -/
theorem sameRuns_clamped_iff (henable : enable = 0 → p.enableDrawdownProfitEarlyExit = 0) :
    SameRuns p (p.clamped enable) ↔
      (p.CanTrade → 0 ≤ p.fillBufferBps ∧ 0 ≤ p.fillProbability) ∧
        (p.CanLose → p.KeepsExit enable) := by
  constructor
  · intro hsame
    have hfills : p.CanTrade → 0 ≤ p.fillBufferBps ∧ 0 ≤ p.fillProbability := fun htrade => by
      by_contra hnot
      exact not_sameRuns_of_fills htrade hnot hsame
    refine ⟨hfills, fun hlose => ?_⟩
    by_contra hnot
    obtain ⟨hb, hprob⟩ := hfills hlose.canTrade
    exact not_sameRuns_of_exit henable hlose hb hprob hnot hsame
  · rintro ⟨hfills, hexit⟩
    by_cases hlose : p.CanLose
    · obtain ⟨hb, hprob⟩ := hfills hlose.canTrade
      exact sameRuns_clamped hb hprob (hexit hlose)
    · exact sameRuns_of_not_canLose hlose hfills

end KeelTrader.Sim
