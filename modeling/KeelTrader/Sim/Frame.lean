import KeelTrader.Sim.Rules

set_option relaxedAutoImplicit false
set_option autoImplicit false

/-!
# What trading leaves alone

The trading of a bar changes the cash, the position and the two trade counters of an agent. The
record of its episode (the clock, the peak, the drawdown and the sums of the returns) is the same
before and after: only marking writes to it.

## Main definitions

* `KeelTrader.Sim.SameRecord` — two agents have the same record of their episode.
* `KeelTrader.Sim.Recorded`, `Logged` — what marking and the end of the episode write.

## Main results

* `KeelTrader.Sim.executeBar_record` — the trading of a bar leaves the record alone.
* `KeelTrader.Sim.finalClose_record` — so does the final close.
* `KeelTrader.Sim.markToMarket_record` — what marking writes to the record.
* `KeelTrader.Sim.logEpisode_eq_ok` — what the end of an episode adds to the log.
-/

namespace KeelTrader.Sim

open Checked

/-- The agents have the same record of the same episode. -/
structure SameRecord (a b : AgentState) : Prop where
  peak : b.peakEquity = a.peakEquity
  initial : b.initialEquity = a.initialEquity
  sumNegSq : b.sumNegSq = a.sumNegSq
  sumRet : b.sumRet = a.sumRet
  retCount : b.retCount = a.retCount
  prevRet : b.prevRet = a.prevRet
  drawdown : b.maxDrawdown = a.maxDrawdown
  offset : b.dataOffset = a.dataOffset
  step : b.step = a.step

variable {md : MarketData} {p : Params} {t : ℤ} {ag ag' ag'' : AgentState}

lemma SameRecord.refl : SameRecord ag ag := ⟨rfl, rfl, rfl, rfl, rfl, rfl, rfl, rfl, rfl⟩

lemma SameRecord.hold : SameRecord ag ag.hold := ⟨rfl, rfl, rfl, rfl, rfl, rfl, rfl, rfl, rfl⟩

lemma SameRecord.trans (h : SameRecord ag ag') (h' : SameRecord ag' ag'') :
    SameRecord ag ag'' where
  peak := h'.peak.trans h.peak
  initial := h'.initial.trans h.initial
  sumNegSq := h'.sumNegSq.trans h.sumNegSq
  sumRet := h'.sumRet.trans h.sumRet
  retCount := h'.retCount.trans h.retCount
  prevRet := h'.prevRet.trans h.prevRet
  drawdown := h'.drawdown.trans h.drawdown
  offset := h'.offset.trans h.offset
  step := h'.step.trans h.step

/-! ## Trading -/

/-- **Trading invariant.** No operation on a position writes to the record. -/
theorem recordInvariant (ag : AgentState) : TradeInvariant md p (SameRecord ag) where
  hold _ _ h := h.trans .hold
  closed t ag' ag'' hclose h := by
    obtain ⟨-, sym, price, -, -, rfl⟩ := closedAt_of_close hclose
    exact h.trans ⟨rfl, rfl, rfl, rfl, rfl, rfl, rfl, rfl, rfl⟩
  opened t isShort sym alloc level ag' ag'' _ _ hopen h := by
    rcases openTarget_cases hopen with rfl | ⟨f, q, -, rfl⟩
    · exact h
    · exact h.trans ⟨rfl, rfl, rfl, rfl, rfl, rfl, rfl, rfl, rfl⟩

/-- **Trading** leaves the record of the episode alone. -/
theorem executeBar_record (rng : UInt64) (action : ℤ) :
    Ensures (executeBar md p ag rng action) fun x => SameRecord ag x.agent :=
  (recordInvariant ag).executeBar rng action .refl

/-- **The final close** leaves the record of the episode alone. -/
theorem finalClose_record : Ensures (finalClose md p t ag) fun r => SameRecord ag r.1 :=
  (recordInvariant ag).finalClose .refl

/-! ## Marking -/

/-- What marking writes to the record of an episode. -/
structure Recorded (a : AgentState) (m : Marked) : Prop where
  step : m.agent.step = a.step + 1
  offset : m.agent.dataOffset = a.dataOffset
  initial : m.agent.initialEquity = a.initialEquity
  peak : m.agent.peakEquity = max a.peakEquity m.equityAfter
  drawdown : m.agent.maxDrawdown = if 0 < m.agent.peakEquity
    then max a.maxDrawdown ((m.agent.peakEquity - m.equityAfter) / m.agent.peakEquity)
    else a.maxDrawdown

/-- A conditional update with the larger value. -/
lemma ite_gt_eq_max (old new : ℚ) : (if new > old then new else old) = max old new := by
  rcases lt_or_ge old new with h | h
  · rw [if_pos h, max_eq_right h.le]
  · rw [if_neg (not_lt.mpr h), max_eq_left h]

/-- The drawdown update keeps the larger of the drawdowns. -/
lemma trackDrawdown_max {e : ℚ} {r : AgentState × ℚ} (h : trackDrawdown e ag = .ok r) :
    r.1 = { ag with
      maxDrawdown := if 0 < ag.peakEquity
        then max ag.maxDrawdown ((ag.peakEquity - e) / ag.peakEquity)
        else ag.maxDrawdown } := by
  unfold trackDrawdown at h
  split at h
  · next hpos =>
    obtain ⟨dd, hdd, h⟩ := bind_eq_ok.mp h
    obtain ⟨-, rfl⟩ := fdiv_eq_ok hdd
    rw [← pure_eq_ok.mp h, if_pos hpos]
    simp only [ite_gt_eq_max]
  · next hnot =>
    rw [← pure_eq_ok.mp h, if_neg hnot]

/-- **Marking** moves the clock on by one step, the peak up to the equity, and the running maximum
up to the drawdown from there. -/
theorem markToMarket_record (x : Executed) :
    Ensures (markToMarket md p x) fun m => Recorded x.agent m := by
  unfold markToMarket
  refine Ensures.self.bind fun equity _ => Ensures.self.bind fun bfee _ => ?_
  refine Ensures.self.bind fun ret _ => Ensures.self.bind fun r hr => Ensures.pure ?_
  have hagent := trackDrawdown_max hr
  rw [hagent]
  exact ⟨rfl, rfl, rfl, ite_gt_eq_max _ _, rfl⟩

/-- Marking keeps the position, and values it at the row of the next step. -/
lemma markToMarket_position (x : Executed) : Ensures (markToMarket md p x) fun m =>
    m.agent.positionSym = x.agent.positionSym ∧ m.tNew = tradeRow md x.agent.tick := by
  unfold markToMarket
  refine Ensures.self.bind fun equity _ => Ensures.self.bind fun bfee _ => ?_
  refine Ensures.self.bind fun ret _ => Ensures.self.bind fun r hr => Ensures.pure ?_
  obtain ⟨dd, hagent, -⟩ := trackDrawdown_eq_ok hr
  rw [hagent]
  exact ⟨rfl, rfl⟩

/-! ## The log -/

/-- What the end of the episode of `ag` adds to the log, at its final equity. -/
structure Logged (ag : AgentState) (finalEquity : ℚ) (log log' : Log) : Prop where
  numTrades : log'.numTrades = log.numTrades + ag.numTrades
  totalReturn : log'.totalReturn =
    log.totalReturn + (finalEquity - ag.initialEquity) / ag.initialEquity
  maxDrawdown : log'.maxDrawdown = log.maxDrawdown + ag.maxDrawdown
  n : log'.n = log.n + 1

lemma logEpisode_eq_ok {lm : Libm} {finalEquity : ℚ} {log log' : Log}
    (h : logEpisode lm p ag finalEquity log = .ok log') : Logged ag finalEquity log log' := by
  obtain ⟨totalReturn, htotal, h⟩ := bind_eq_ok.mp h
  obtain ⟨sortino, -, h⟩ := bind_eq_ok.mp h
  obtain ⟨winRate, -, h⟩ := bind_eq_ok.mp h
  obtain ⟨avgHoldHours, -, h⟩ := bind_eq_ok.mp h
  obtain ⟨-, rfl⟩ := fdiv_eq_ok htotal
  rw [← pure_eq_ok.mp h]
  exact ⟨rfl, rfl, rfl, rfl⟩

end KeelTrader.Sim
