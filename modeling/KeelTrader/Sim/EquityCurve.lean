import KeelTrader.Sim.CashLedger

set_option relaxedAutoImplicit false
set_option autoImplicit false

/-!
# The equity curve of an episode

Each step of an episode values the agent twice, and its return is the change between the two
valuations. The first one is taken after a position held for too long was closed by force, and
before the action; the last position of an episode is closed after the second one. What those two
closes cost is in no return, unless they realise exactly what the position was marked at.

## Main definitions

* `KeelTrader.Sim.StepRecord`, `episodeSteps` — the valuations of the steps of one episode.
* `KeelTrader.Sim.Accounted` — the returns account for the whole equity curve.
* `KeelTrader.Sim.ExitAtMark` — an exit that goes through realises the mark.
* `KeelTrader.Sim.StepRecord.AtMark` — so do the forced close and the final close of a step.

## Main results

* `KeelTrader.Sim.forceClose_cases` — what a forced close does.
* `KeelTrader.Sim.forceClose_marked`, `finalClose_marked` — when a close keeps the valuation.
* `KeelTrader.Sim.markToMarket_marked` — the agent after a step is worth what it was marked at.
* `KeelTrader.Sim.accounted_iff` — the returns account for the curve exactly when the forced
  closes and the final close are at the mark.
-/

namespace KeelTrader.Sim

open Checked

/-! ## Valuation -/

/-- The price of the held symbol at row `t`. -/
def MarketData.priceOf (md : MarketData) (t : ℤ) (k : PriceFeat) (ag : AgentState) : ℚ :=
  md.prices t.toNat (ag.positionSym % md.numSymbols).toNat k

/-- The equity of the agent marked at the close of row `t`. -/
def AgentState.markedAt (md : MarketData) (t : ℤ) (ag : AgentState) : ℚ :=
  ag.equityAt md (md.priceOf t .pClose ag)

variable {lm : Libm} {md : MarketData} {p : Params} {t : ℤ} {ag ag' : AgentState}
  {events : List CashEvent}

/-- The remainder that selects the held symbol. -/
lemma cmod_positionSym {sym : ℤ} (hpos : 0 ≤ ag.positionSym)
    (h : cmod ag.positionSym md.numSymbols = .ok sym) :
    sym = ag.positionSym % md.numSymbols := by
  unfold cmod at h
  split at h
  · cases h
  · cases h
    exact Int.tmod_eq_emod_of_nonneg hpos

/-- `compute_equity` marks at the close. -/
lemma computeEquity_eq_ok {e : ℚ} (h : computeEquity md t ag = .ok e) : e = ag.markedAt md t := by
  unfold computeEquity at h
  unfold AgentState.markedAt AgentState.equityAt
  by_cases hpos : ag.positionSym ≥ 0
  · rw [if_pos hpos] at h
    obtain ⟨sym, hsym, h⟩ := bind_eq_ok.mp h
    obtain ⟨price, hprice, h⟩ := bind_eq_ok.mp h
    obtain ⟨-, -, rfl⟩ := getPrice_eq_ok hprice
    rw [cmod_positionSym hpos hsym] at h
    rw [if_neg (not_lt.mpr hpos)]
    split at h
    · next hshort =>
      rw [if_pos hshort]
      exact (pure_eq_ok.mp h).symm
    · next hlong =>
      rw [if_neg hlong]
      exact (pure_eq_ok.mp h).symm
  · rw [if_neg hpos] at h
    rw [if_pos (not_le.mp hpos)]
    exact (pure_eq_ok.mp h).symm

/-- Nothing is held, or a positive quantity of a symbol of the data. -/
def AgentState.Sized (ag : AgentState) : Prop :=
  ag.positionSym < 0 ∨ 0 < ag.positionQty

/-- Operations keep quantities positive. -/
lemma Posts.sized (h : ag.Sized) (hpost : Posts md p ag events ag') : ag'.Sized := by
  cases hpost with
  | @opened t sym alloc level isShort _ _ hflat hsym hrun hheld =>
    exact .inr (openTarget_filled hflat hsym hrun hheld).1
  | closed hrun hsym hprice =>
    obtain ⟨-, rfl⟩ := closePosition_closed hrun hprice hsym
    exact .inl (by simp [AgentState.closedAt])
  | charged _ _ => exact h
  | kept hsame => simpa only [AgentState.Sized, hsame.sym, hsame.qty] using h

lemma Traced.sized (h : ag.Sized) (htraced : Traced md p ag ag') : ag'.Sized := by
  obtain ⟨events, htrace⟩ := htraced
  induction htrace with
  | refl => exact h
  | tail _ hpost ih => exact hpost.sized ih

/-! ## Exits at the mark -/

/-- Closing the position at row `t` realises what it is marked at there. -/
def ClosesAtMark (md : MarketData) (p : Params) (t : ℤ) (ag : AgentState) : Prop :=
  if ag.positionSym ≥ md.numSymbols then
    md.priceOf t .pOpen ag * (1 + (p.feeRate + p.slippage)) = md.priceOf t .pClose ag
  else md.priceOf t .pOpen ag * (1 - (p.feeRate + p.slippage)) = md.priceOf t .pClose ag

/-- An exit at row `t`, if there is a position and the guard lets it go, realises the mark. -/
def ExitAtMark (md : MarketData) (p : Params) (t : ℤ) (ag : AgentState) : Prop :=
  0 ≤ ag.positionSym →
    deathSpiralRefused p (md.priceOf t .pOpen ag) ag.entryPrice ag.holdHours
      (decide (ag.positionSym ≥ md.numSymbols)) = false →
    ClosesAtMark md p t ag

/-- The position has been held for `max_hold_hours` and its market is open at row `t`. -/
def HeldTooLong (md : MarketData) (p : Params) (t : ℤ) (ag : AgentState) : Prop :=
  p.maxHoldHours > 0 ∧ ag.positionSym ≥ 0 ∧ ag.holdHours ≥ p.maxHoldHours ∧
    md.maskAt t.toNat (ag.positionSym % md.numSymbols).toNat = true

/-- What a closed position is worth. -/
lemma markedAt_closedAt (isShort : Bool) (price : ℚ) :
    (ag.closedAt p isShort price).markedAt md t = (ag.closedAt p isShort price).cash := by
  unfold AgentState.markedAt AgentState.equityAt
  exact if_pos (by simp [AgentState.closedAt])

/-- **Exits.** An exit keeps the valuation exactly when it is at the mark. -/
theorem closePosition_marked (hsized : ag.Sized) {r : AgentState × Bool}
    (h : closePosition md p t ag = .ok r) :
    r.1.markedAt md t = ag.markedAt md t ↔ ExitAtMark md p t ag := by
  rcases closePosition_cases h with ⟨hflat, rfl⟩ | ⟨hpos, sym, price, hsym, hprice, hr⟩
  · exact iff_of_true rfl fun hpos => absurd hpos (not_le.mpr hflat)
  · obtain ⟨-, -, rfl⟩ := getPrice_eq_ok hprice
    rw [cmod_positionSym hpos hsym] at hr
    have hqty : ag.positionQty ≠ 0 := (hsized.resolve_left (not_lt.mpr hpos)).ne'
    rcases hr with ⟨href, rfl⟩ | ⟨hgo, rfl⟩
    · refine iff_of_true rfl fun _ hgo => ?_
      unfold MarketData.priceOf at hgo
      rw [href] at hgo
      cases hgo
    · rw [markedAt_closedAt]
      have hexit : ExitAtMark md p t ag ↔ ClosesAtMark md p t ag :=
        ⟨fun h => h hpos hgo, fun h _ _ => h⟩
      rw [hexit]
      unfold AgentState.markedAt AgentState.equityAt ClosesAtMark
      rw [if_neg (not_lt.mpr hpos)]
      by_cases hside : ag.positionSym ≥ md.numSymbols
      · simp only [AgentState.closedAt, hside, decide_true, if_true, Params.slippage,
          MarketData.priceOf]
        rw [sub_right_inj, mul_assoc, mul_right_inj' hqty]
      · simp only [AgentState.closedAt, hside, decide_false, if_false, Params.slippage,
          MarketData.priceOf, Bool.false_eq_true]
        rw [add_right_inj, mul_assoc, mul_right_inj' hqty]

/-- **Forced closes.** An exit is tried when the position was held for too long and its market is
open; otherwise nothing happens. -/
theorem forceClose_cases {r : AgentState × ℤ} (h : forceClose md p t ag = .ok r) :
    (HeldTooLong md p t ag ∧ ∃ r', closePosition md p t ag = .ok r' ∧
      r = (r'.1, if r'.2 then 1 else 0)) ∨ (¬HeldTooLong md p t ag ∧ r = (ag, 0)) := by
  unfold forceClose at h
  split at h
  · next hheld =>
    obtain ⟨sym, hsym, h⟩ := bind_eq_ok.mp h
    obtain ⟨isOpen, hopen, h⟩ := bind_eq_ok.mp h
    have hmask := isTradable_eq_ok hopen
    rw [cmod_positionSym hheld.2.1 hsym] at hmask
    split at h
    · next hyes =>
      rw [hyes] at hmask
      obtain ⟨r', hclose, h⟩ := bind_eq_ok.mp h
      exact .inl ⟨⟨hheld.1, hheld.2.1, hheld.2.2, hmask.symm⟩, r', hclose, (pure_eq_ok.mp h).symm⟩
    · next hno =>
      exact .inr ⟨fun hlong => hno (hmask.trans hlong.2.2.2), (pure_eq_ok.mp h).symm⟩
  · next hnot =>
    exact .inr ⟨fun hlong => hnot ⟨hlong.1, hlong.2.1, hlong.2.2.1⟩, (pure_eq_ok.mp h).symm⟩

/-- A forced close keeps the valuation exactly when it does not happen or is at the mark. -/
theorem forceClose_marked (hsized : ag.Sized) {r : AgentState × ℤ}
    (h : forceClose md p t ag = .ok r) :
    r.1.markedAt md t = ag.markedAt md t ↔ (HeldTooLong md p t ag → ExitAtMark md p t ag) := by
  rcases forceClose_cases h with ⟨hlong, r', hclose, rfl⟩ | ⟨hshort, rfl⟩
  · rw [closePosition_marked hsized hclose]
    exact ⟨fun hexit _ => hexit, fun hexit => hexit hlong⟩
  · exact iff_of_true rfl fun hlong => absurd hlong hshort

/-- **The final close** settles at the mark exactly when the exit is at the mark. -/
theorem finalClose_marked (hsized : ag.Sized) {r : AgentState × ℚ}
    (h : finalClose md p t ag = .ok r) : r.2 = ag.markedAt md t ↔ ExitAtMark md p t ag := by
  unfold finalClose at h
  split at h
  · next hpos =>
    obtain ⟨r', hclose, h⟩ := bind_eq_ok.mp h
    rw [← closePosition_marked hsized hclose]
    dsimp only at h
    split at h
    · next hclosed =>
      cases pure_eq_ok.mp h
      have hflat := (closePosition_traced r' hclose).2 hclosed
      have hcash : r'.1.markedAt md t = r'.1.cash := if_pos hflat
      rw [hcash]
    · obtain ⟨e, he, h⟩ := bind_eq_ok.mp h
      cases pure_eq_ok.mp h
      rw [computeEquity_eq_ok he]
  · next hflat =>
    cases pure_eq_ok.mp h
    exact iff_of_true (if_pos (not_le.mp hflat)).symm fun hpos => absurd hpos hflat

/-! ## The valuations of a step -/

/-- The valuation before the action is that of the agent after the forced close. -/
theorem executeBar_marked (hsized : ag.Sized) {rng : UInt64}
    {action : ℤ} {x : Executed} (h : executeBar md p ag rng action = .ok x) :
    x.equityBefore = ag.markedAt md (tradeRow md ag) ↔
      (HeldTooLong md p (tradeRow md ag) ag → ExitAtMark md p (tradeRow md ag) ag) := by
  obtain ⟨r, hforce, h⟩ := bind_eq_ok.mp h
  obtain ⟨tradable, -, h⟩ := bind_eq_ok.mp h
  obtain ⟨anyTradable, -, h⟩ := bind_eq_ok.mp h
  obtain ⟨equity, hequity, h⟩ := bind_eq_ok.mp h
  obtain ⟨r', -, h⟩ := bind_eq_ok.mp h
  rw [← pure_eq_ok.mp h, ← forceClose_marked hsized hforce, ← computeEquity_eq_ok hequity]

/-- The valuation reads the holdings only. -/
lemma SameHoldings.markedAt (h : SameHoldings ag ag') (t : ℤ) :
    ag'.markedAt md t = ag.markedAt md t := by
  unfold AgentState.markedAt AgentState.equityAt MarketData.priceOf
  rw [h.cash, h.sym, h.qty]

/-- A borrow fee comes off the valuation. -/
lemma markedAt_charge (fee : ℚ) :
    (ag.charge fee).markedAt md t =
      if fee > 0 then ag.markedAt md t - fee else ag.markedAt md t := by
  by_cases hfee : fee > 0
  · rw [if_pos hfee]
    simp only [AgentState.markedAt, AgentState.equityAt, MarketData.priceOf, AgentState.charge,
      hfee, if_true]
    split_ifs <;> ring
  · rw [if_neg hfee]
    simp only [AgentState.markedAt, AgentState.equityAt, MarketData.priceOf, AgentState.charge,
      hfee, if_false]

/-- What a step returns, as a factor. -/
lemma stepReturn_factor {before after ret : ℚ} (h : stepReturn before after = .ok ret)
    (hpos : 1 / 1000000 < before) : before * (1 + ret) = after := by
  unfold stepReturn at h
  rw [if_pos hpos] at h
  obtain ⟨hne, rfl⟩ := fdiv_eq_ok h
  field_simp
  ring

/-- **Marking.** The agent after a step is worth what it was marked at, at the row the next step
trades at. -/
theorem markToMarket_marked {x : Executed} {m : Marked} (h : markToMarket md p x = .ok m) :
    m.equityAfter = m.agent.markedAt md m.tNew ∧ m.tNew = tradeRow md m.agent ∧
      stepReturn x.equityBefore m.equityAfter = .ok m.ret := by
  obtain ⟨equity, hequity, h⟩ := bind_eq_ok.mp h
  obtain ⟨fee, -, h⟩ := bind_eq_ok.mp h
  obtain ⟨ret, hret, h⟩ := bind_eq_ok.mp h
  obtain ⟨r, hr, h⟩ := bind_eq_ok.mp h
  obtain ⟨hsame, hoffset, hstep⟩ := trackDrawdown_same _ r hr
  rw [← pure_eq_ok.mp h]
  refine ⟨?_, ?_, hret⟩
  · have hcharged : r.1.markedAt md (tradeRow md x.agent.tick) =
        (x.agent.tick.charge fee).markedAt md (tradeRow md x.agent.tick) :=
      SameHoldings.markedAt ⟨hsame.cash, hsame.sym, hsame.qty, hsame.trades⟩ _
    rw [hcharged, markedAt_charge, ← computeEquity_eq_ok hequity]
  · simp only [tradeRow, hoffset, hstep, AgentState.trackPeak, AgentState.trackReturn,
      AgentState.charge]

/-! ## The steps of an episode -/

/-- One step of an episode: the agent it found, its two valuations and its return, the agent it
marked and the row it marked it at, and the equity it settled at if it ended the episode. -/
structure StepRecord where
  found : AgentState
  equityBefore : ℚ
  equityAfter : ℚ
  ret : ℚ
  marked : AgentState
  tNew : ℤ
  settled : Option ℚ

/-- The steps that the actions take before the episode of `env` ends. -/
def episodeSteps (lm : Libm) (md : MarketData) (p : Params) :
    EnvState → List ℤ → Checked (List StepRecord)
  | _, [] => pure []
  | env, a :: as => do
    let x ← executeBar md p env.agent env.rng a
    let m ← markToMarket md p x
    let env' ← cStep lm md p env a
    if env'.terminal then
      let (_, finalEquity) ← finalClose md p m.tNew { m.agent with prevRet := m.ret }
      pure [⟨env.agent, x.equityBefore, m.equityAfter, m.ret, m.agent, m.tNew, some finalEquity⟩]
    else
      let rest ← episodeSteps lm md p env' as
      pure (⟨env.agent, x.equityBefore, m.equityAfter, m.ret, m.agent, m.tNew, none⟩ :: rest)

/-- An episode starts in `env`: it was reset, or a step has just ended the episode before. -/
def StartsEpisode (lm : Libm) (md : MarketData) (p : Params) (env : EnvState) : Prop :=
  (∃ env₀, cReset md p env₀ = .ok env) ∨
    ∃ env₀ a, cStep lm md p env₀ a = .ok env ∧ env.terminal = true

/-- Each step starts from the equity that the step before it ended at, the first one from `e`. -/
def Linked : ℚ → List StepRecord → Prop
  | _, [] => True
  | e, s :: rest => s.equityBefore = e ∧ Linked s.equityAfter rest

instance decidableLinked : ∀ (e : ℚ) (steps : List StepRecord), Decidable (Linked e steps)
  | _, [] => inferInstanceAs (Decidable True)
  | _, s :: rest =>
    have := decidableLinked s.equityAfter rest
    inferInstanceAs (Decidable (_ ∧ _))

/-- The returns of the steps account for the whole equity curve. -/
structure Accounted (steps : List StepRecord) : Prop where
  /-- The valuations follow on from each other, beginning with the initial cash. -/
  linked : Linked initialCash steps
  /-- The returns compound to the change in equity, while it stays above `1e-6`. -/
  product : (∀ s ∈ steps, 1 / 1000000 < s.equityBefore) →
    ∀ s, steps.getLast? = some s →
      (steps.map fun s => 1 + s.ret).prod = s.equityAfter / initialCash
  /-- Nothing is left for the settlement of the episode. -/
  settled : ∀ s ∈ steps, ∀ final, s.settled = some final → final = s.equityAfter

/-- The forced close that the step begins with, if it happens, and the final close that it ends
with, if it ends the episode, are at the mark. -/
structure StepRecord.AtMark (md : MarketData) (p : Params) (s : StepRecord) : Prop where
  forced : HeldTooLong md p (tradeRow md s.found) s.found →
    ExitAtMark md p (tradeRow md s.found) s.found
  final : s.settled.isSome = true → ExitAtMark md p s.tNew s.marked

/-- Linked valuations compound. -/
lemma Linked.product {steps : List StepRecord} {e : ℚ} (h : Linked e steps)
    (hret : ∀ s ∈ steps, s.equityBefore * (1 + s.ret) = s.equityAfter) :
    ∀ s, steps.getLast? = some s → e * (steps.map fun s => 1 + s.ret).prod = s.equityAfter := by
  induction steps generalizing e with
  | nil => simp
  | cons s rest ih =>
    obtain ⟨hbefore, hrest⟩ := h
    intro last hlast
    have hs := hret s List.mem_cons_self
    rw [List.map_cons, List.prod_cons, ← mul_assoc, ← hbefore, hs]
    cases rest with
    | nil =>
      cases hlast
      simp
    | cons s' rest =>
      exact ih hrest (fun u hu => hret u (List.mem_cons_of_mem _ hu)) last hlast

/-- An episode starts with a fresh agent. -/
lemma StartsEpisode.agent {env : EnvState} (h : StartsEpisode lm md p env) :
    ∃ dataOffset, env.agent = .initial dataOffset := by
  rcases h with ⟨env₀, hreset⟩ | ⟨env₀, a, hstep, hdone⟩
  · obtain ⟨obs, -, hreset⟩ := bind_eq_ok.mp hreset
    rw [← pure_eq_ok.mp hreset]
    exact ⟨_, rfl⟩
  · obtain ⟨x, m, -, -, ⟨-, hag, -⟩ | ⟨hlive, -⟩⟩ := cStep_cases hstep
    · exact ⟨_, hag⟩
    · rw [hdone] at hlive
      cases hlive

/-! ## The curve -/

/-- The final close, seen from the agent that was marked. -/
lemma settled_marked {m : Marked} {r : AgentState × ℚ} (hsized : m.agent.Sized)
    (hmarked : m.equityAfter = m.agent.markedAt md m.tNew)
    (h : finalClose md p m.tNew { m.agent with prevRet := m.ret } = .ok r) :
    r.2 = m.equityAfter ↔ ExitAtMark md p m.tNew m.agent := by
  have hagent : ({ m.agent with prevRet := m.ret } : AgentState).Sized := hsized
  rw [hmarked]
  exact finalClose_marked hagent h

/-- Trading and marking leave the agent sized. -/
lemma sized_marked {env : EnvState} {a : ℤ} {x : Executed} {m : Marked}
    (hsized : env.agent.Sized) (hx : executeBar md p env.agent env.rng a = .ok x)
    (hm : markToMarket md p x = .ok m) : m.agent.Sized :=
  ((executeBar_trace _ _ _ hx).trans (markToMarket_trace _ _ hm)).sized hsized

/-- While the episode lasts, the next step starts from what the last one was marked at. -/
lemma next_marked {env env' : EnvState} {a : ℤ} {x : Executed} {m : Marked}
    (hsized : env.agent.Sized) (hx : executeBar md p env.agent env.rng a = .ok x)
    (hm : markToMarket md p x = .ok m) (hstep : cStep lm md p env a = .ok env')
    (hlive : ¬env'.terminal = true) :
    env'.agent.Sized ∧ env'.agent.markedAt md (tradeRow md env'.agent) = m.equityAfter := by
  obtain ⟨hmarked, hrow, -⟩ := markToMarket_marked hm
  obtain ⟨x', m', hx', hm', ⟨hdone, -⟩ | ⟨-, hag, -⟩⟩ := cStep_cases hstep
  · exact absurd hdone hlive
  · rw [hx] at hx'
    cases hx'
    rw [hm] at hm'
    cases hm'
    have hsame : SameHoldings m.agent env'.agent := by
      rw [hag]
      exact ⟨rfl, rfl, rfl, rfl⟩
    refine ⟨?_, ?_⟩
    · rw [hag]
      exact sized_marked hsized hx hm
    · rw [hsame.markedAt, hmarked, hrow, hag]
      rfl

/-- **The steps of an episode.** Their valuations follow on from the equity of the agent they
start with exactly when the forced closes are at the mark, their returns are those of their
valuations, and the settlement is at the last valuation exactly when the final close is at the
mark.

**Proof sketch.** Induction on the actions. The equity that a step ends at is what its agent is
worth at the row the next step trades at (`markToMarket_marked`), and the next step starts from
there unless its forced close moves the valuation (`executeBar_marked`). -/
theorem episodeSteps_marked (actions : List ℤ) {env : EnvState} {steps : List StepRecord}
    (hsized : env.agent.Sized) (h : episodeSteps lm md p env actions = .ok steps) :
    (Linked (env.agent.markedAt md (tradeRow md env.agent)) steps ↔
      ∀ s ∈ steps, HeldTooLong md p (tradeRow md s.found) s.found →
        ExitAtMark md p (tradeRow md s.found) s.found) ∧
    ∀ s ∈ steps, stepReturn s.equityBefore s.equityAfter = .ok s.ret ∧
      ∀ final, s.settled = some final →
        (final = s.equityAfter ↔ ExitAtMark md p s.tNew s.marked) := by
  induction actions generalizing env steps with
  | nil =>
    cases pure_eq_ok.mp h
    simp [Linked]
  | cons a actions ih =>
    obtain ⟨x, hx, h⟩ := bind_eq_ok.mp h
    obtain ⟨m, hm, h⟩ := bind_eq_ok.mp h
    obtain ⟨env', hstep, h⟩ := bind_eq_ok.mp h
    obtain ⟨hmarked, -, hret⟩ := markToMarket_marked hm
    have hforced := executeBar_marked hsized hx
    have hsized' := sized_marked hsized hx hm
    dsimp only at h
    split at h
    · -- the step ends the episode
      obtain ⟨r, hr, h⟩ := bind_eq_ok.mp h
      cases pure_eq_ok.mp h
      refine ⟨?_, ?_⟩
      · simp only [Linked, and_true, List.mem_singleton, forall_eq]
        exact hforced
      · intro s hs
        cases List.mem_singleton.mp hs
        refine ⟨hret, fun final hfinal => ?_⟩
        cases hfinal
        exact settled_marked hsized' hmarked hr
    · next hlive =>
      obtain ⟨rest, hrest, h⟩ := bind_eq_ok.mp h
      cases pure_eq_ok.mp h
      obtain ⟨hsized'', hnext⟩ := next_marked hsized hx hm hstep hlive
      obtain ⟨hlinked, hrecords⟩ := ih hsized'' hrest
      rw [hnext] at hlinked
      refine ⟨?_, ?_⟩
      · simp only [Linked, List.mem_cons, forall_eq_or_imp, hforced, hlinked]
      · intro s hs
        rcases List.mem_cons.mp hs with rfl | hs
        · exact ⟨hret, fun final hfinal => nomatch hfinal⟩
        · exact hrecords s hs

/-- **The returns account for the whole equity curve** of an episode exactly when every forced
close and the final close realise what the position was marked at: then the valuations follow on
from each other beginning with the initial cash, the returns compound to the change in equity, and
nothing is left for the settlement. -/
theorem accounted_iff (lm : Libm) (md : MarketData) (p : Params) (env : EnvState)
    (actions : List ℤ) (steps : List StepRecord) (hstart : StartsEpisode lm md p env)
    (hrun : episodeSteps lm md p env actions = .ok steps) :
    Accounted steps ↔ ∀ s ∈ steps, s.AtMark md p := by
  obtain ⟨dataOffset, hagent⟩ := hstart.agent
  have hsized : env.agent.Sized := by
    rw [hagent]
    exact .inl (by simp [AgentState.initial])
  have hcash : env.agent.markedAt md (tradeRow md env.agent) = initialCash := by
    rw [hagent]
    rfl
  obtain ⟨hlinked, hrecords⟩ := episodeSteps_marked actions hsized hrun
  rw [hcash] at hlinked
  constructor
  · intro h s hs
    refine ⟨hlinked.mp h.linked s hs, fun hsome => ?_⟩
    obtain ⟨final, hfinal⟩ := Option.isSome_iff_exists.mp hsome
    exact ((hrecords s hs).2 final hfinal).mp (h.settled s hs final hfinal)
  · intro h
    have hchain := hlinked.mpr fun s hs => (h s hs).forced
    refine ⟨hchain, fun hpos s hlast => ?_, fun s hs final hfinal => ?_⟩
    · have hfactor : ∀ s ∈ steps, s.equityBefore * (1 + s.ret) = s.equityAfter :=
        fun s hs => stepReturn_factor (hrecords s hs).1 (hpos s hs)
      rw [eq_div_iff (by norm_num [initialCash]), mul_comm]
      exact hchain.product hfactor s hlast
    · refine ((hrecords s hs).2 final hfinal).mpr ((h s hs).final ?_)
      rw [hfinal]
      rfl

/-- A long that is opened, held and sold by the agent, up to the end of the episode. -/
theorem accounted_round_trip :
    let md := wideMarket 9 fun _ => 100
    let p := { keelEnvCreate with forcedOffset := 0 }
    let actions := [1, 1, 0, 0, 0, 0, 0, 0]
    ∃ env steps, StartsEpisode .firstOrder md p env ∧
      episodeSteps .firstOrder md p env actions = .ok steps ∧ steps.length = 8 ∧
      (Accounted steps ↔ ∀ s ∈ steps, s.AtMark md p) := by
  intro md p actions
  obtain ⟨env, hreset, hsteps⟩ := exists_of_toOption (x := cReset md p (.zero 7))
    (P := fun env => ((episodeSteps .firstOrder md p env actions).toOption.map
      fun steps => decide (steps.length = 8)) = some true)
    (by decide +kernel)
  obtain ⟨steps, hrun, hlength⟩ := exists_of_toOption (of_decide_eq_true hsteps)
  have hstart : StartsEpisode .firstOrder md p env := .inl ⟨_, hreset⟩
  exact ⟨env, steps, hstart, hrun, of_decide_eq_true hlength,
    accounted_iff .firstOrder md p env actions steps hstart hrun⟩

/-- With the default of the gate, a long that is never sold by the agent: the fee of its forced
close after six hours is in no return, at a constant price. -/
theorem accounted_forced_close :
    let md := wideMarket 9 fun _ => 100
    let p := { keelEnvCreate with maxHoldHours := 6, forcedOffset := 0 }
    ∃ env steps, StartsEpisode .firstOrder md p env ∧
      episodeSteps .firstOrder md p env (List.replicate 8 1) = .ok steps ∧
      ¬ Linked initialCash steps ∧ (∀ s ∈ steps, 1 / 1000000 < s.equityBefore) ∧
      ∃ s, steps.getLast? = some s ∧
        (steps.map fun s => 1 + s.ret).prod ≠ s.equityAfter / initialCash := by
  intro md p
  obtain ⟨env, hreset, hsteps⟩ := exists_of_toOption (x := cReset md p (.zero 7))
    (P := fun env => ((episodeSteps .firstOrder md p env (List.replicate 8 1)).toOption.map
      fun steps => decide (¬ Linked initialCash steps ∧
        (∀ s ∈ steps, 1 / 1000000 < s.equityBefore) ∧
        ∃ s ∈ steps.getLast?, (steps.map fun s => 1 + s.ret).prod ≠
          s.equityAfter / initialCash)) = some true)
    (by decide +kernel)
  obtain ⟨steps, hrun, h⟩ := exists_of_toOption (of_decide_eq_true hsteps)
  obtain ⟨hlinked, hpos, s, hlast, hprod⟩ := of_decide_eq_true h
  exact ⟨env, steps, .inl ⟨_, hreset⟩, hrun, hlinked, hpos, s, hlast, hprod⟩

end KeelTrader.Sim
