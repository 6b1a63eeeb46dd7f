import KeelTrader.Sim.Clamped
import KeelTrader.Sim.EquityCurve

set_option relaxedAutoImplicit false
set_option autoImplicit false

/-!
# The hold clock

How far one step moves `hold_hours`. The counter is incremented by hand: in `close_position` when
the guard refuses the exit, and in the branches of the action that leave a position alone. A step
that carries a position over its bar therefore ticks once for a valid action, and once more when
the forced close before it was refused. An invalid action reaches none of the branches.

## Main definitions

* `KeelTrader.Sim.ValidAction` — the action is in the action space.
* `KeelTrader.Sim.ForcedRefused` — the step begins with a forced close that the guard refuses.
* `KeelTrader.Sim.Closed`, `Ticked` — what trading a bar can do with a held position.
* `KeelTrader.Sim.EveryStep` — a property of every step of a run.
* `KeelTrader.Sim.Carried` — a step keeps a position and does not end the episode.
* `KeelTrader.Sim.TicksOnce` — such a step moves the hold clock by one.

## Main results

* `KeelTrader.Sim.applyAction_held`, `executeBar_held` — a position is closed, or its clock ticks
  this often.
* `KeelTrader.Sim.cStep_held` — the same for a step that does not end the episode.
* `KeelTrader.Sim.ticksOnce_iff` — the steps of a run at which the clock ticks once.
-/

namespace KeelTrader.Sim

open Checked

/-! ## Actions and refused closes -/

/-- The number of actions on each side, `side_block`. -/
def Params.sideBlock (p : Params) (numSymbols : ℕ) : ℤ :=
  let allocBins := if p.actionAllocationBins < 1 then 1 else p.actionAllocationBins
  let levelBins := if p.actionLevelBins < 1 then 1 else p.actionLevelBins
  numSymbols * (allocBins * levelBins)

/-- The action is in the action space: `0`, a long or a short. -/
def ValidAction (p : Params) (numSymbols : ℕ) (action : ℤ) : Prop :=
  0 ≤ action ∧ action ≤ 2 * p.sideBlock numSymbols

instance (p : Params) (numSymbols : ℕ) (action : ℤ) :
    Decidable (ValidAction p numSymbols action) := inferInstanceAs (Decidable (_ ∧ _))

instance (md : MarketData) (p : Params) (t : ℤ) (ag : AgentState) :
    Decidable (HeldTooLong md p t ag) := inferInstanceAs (Decidable (_ ∧ _ ∧ _ ∧ _))

/-- The guard refuses to sell the position at the open of row `t`. -/
def RefusedAt (md : MarketData) (p : Params) (t : ℤ) (ag : AgentState) : Prop :=
  deathSpiralRefused p (md.priceOf t .pOpen ag) ag.entryPrice ag.holdHours
    (decide (ag.positionSym ≥ md.numSymbols)) = true

instance (md : MarketData) (p : Params) (t : ℤ) (ag : AgentState) :
    Decidable (RefusedAt md p t ag) := inferInstanceAs (Decidable (_ = true))

/-- The step at row `t` begins with a forced close, which the guard refuses. -/
def ForcedRefused (md : MarketData) (p : Params) (t : ℤ) (ag : AgentState) : Prop :=
  HeldTooLong md p t ag ∧ RefusedAt md p t ag

instance (md : MarketData) (p : Params) (t : ℤ) (ag : AgentState) :
    Decidable (ForcedRefused md p t ag) := inferInstanceAs (Decidable (_ ∧ _))

/-- A guard that is switched off refuses nothing. -/
lemma not_refusedAt {md : MarketData} {p : Params} (hguard : p.deathSpiralToleranceBps ≤ 0)
    (t : ℤ) (ag : AgentState) : ¬RefusedAt md p t ag := by
  intro h
  unfold RefusedAt deathSpiralRefused at h
  rw [if_pos hguard] at h
  cases h

/-- The position was closed, and whatever was opened instead has a new clock. -/
structure Closed (ag ag' : AgentState) : Prop where
  trades : ag.numTrades < ag'.numTrades
  fresh : 0 ≤ ag'.positionSym → ag'.holdHours = 0

/-- The same position, `n` ticks later. -/
structure Ticked (n : ℤ) (ag ag' : AgentState) : Prop where
  sym : ag'.positionSym = ag.positionSym
  trades : ag'.numTrades = ag.numTrades
  hours : ag'.holdHours = ag.holdHours + n

variable {lm : Libm} {md : MarketData} {p : Params} {t : ℤ} {ag ag' ag'' : AgentState}

lemma Ticked.refl : Ticked 0 ag ag := ⟨rfl, rfl, (add_zero _).symm⟩

lemma Ticked.hold : Ticked 1 ag ag.hold := ⟨rfl, rfl, rfl⟩

lemma Ticked.trans {m n : ℤ} (h : Ticked m ag ag') (h' : Ticked n ag' ag'') :
    Ticked (m + n) ag ag'' := by
  refine ⟨h'.sym.trans h.sym, h'.trades.trans h.trades, ?_⟩
  rw [h'.hours, h.hours, add_assoc]

lemma Closed.ticked (h : Closed ag ag') (h' : Ticked 0 ag' ag'') : Closed ag ag'' := by
  refine ⟨?_, fun hpos => ?_⟩
  · rw [h'.trades]
    exact h.trades
  · rw [h'.hours, add_zero]
    exact h.fresh (h'.sym ▸ hpos)

/-! ## The parts of a step -/

/-- Decoding turns the invalid actions away. -/
lemma decodeAction_valid {action : ℤ} {d : Decoded}
    (h : decodeAction p md.numSymbols action = .ok d) :
    d = .invalid ↔ ¬ValidAction p md.numSymbols action := by
  unfold decodeAction at h
  change (if action = 0 then _ else if action ≥ 1 ∧ action ≤ 2 * p.sideBlock md.numSymbols
    then _ else _) = _ at h
  have hblock : 0 ≤ p.sideBlock md.numSymbols := by
    unfold Params.sideBlock
    dsimp only
    refine mul_nonneg (Int.natCast_nonneg _) (mul_nonneg ?_ ?_) <;> split <;> omega
  unfold ValidAction
  split at h
  · next hzero =>
    cases pure_eq_ok.mp h
    simp only [reduceCtorEq, false_iff, not_not]
    omega
  · next hzero =>
    split at h
    · next hside =>
      obtain ⟨sym, -, h⟩ := bind_eq_ok.mp h
      obtain ⟨rem, -, h⟩ := bind_eq_ok.mp h
      obtain ⟨allocIdx, -, h⟩ := bind_eq_ok.mp h
      obtain ⟨levelIdx, -, h⟩ := bind_eq_ok.mp h
      cases pure_eq_ok.mp h
      simp only [reduceCtorEq, false_iff, not_not]
      omega
    · next hside =>
      cases pure_eq_ok.mp h
      simp only [true_iff]
      omega

/-- An exit of a held position closes it at the open of the row, unless the guard refuses. -/
lemma closePosition_exits (hpos : 0 ≤ ag.positionSym) :
    Ensures (closePosition md p t ag) fun r =>
      (RefusedAt md p t ag ∧ r = (ag.hold, false)) ∨
        (¬RefusedAt md p t ag ∧ r = (ag.closedAt p (decide (ag.positionSym ≥ md.numSymbols))
          (md.priceOf t .pOpen ag), true)) := by
  intro r hr
  rcases closePosition_cases hr with ⟨hflat, -⟩ | ⟨-, sym, price, hsym, hprice, hcases⟩
  · exact absurd hpos (not_le.mpr hflat)
  · obtain ⟨-, -, rfl⟩ := getPrice_eq_ok hprice
    rw [cmod_positionSym hpos hsym] at hcases
    rcases hcases with ⟨href, rfl⟩ | ⟨hgo, rfl⟩
    · exact .inl ⟨href, rfl⟩
    · refine .inr ⟨fun href => ?_, rfl⟩
      unfold RefusedAt MarketData.priceOf at href
      rw [hgo] at href
      cases href

/-- An exit closes the position exactly when the guard lets it go, and ticks otherwise. -/
lemma closePosition_held (hpos : 0 ≤ ag.positionSym) :
    Ensures (closePosition md p t ag) fun r =>
      (RefusedAt md p t ag ∧ r = (ag.hold, false)) ∨
      (¬RefusedAt md p t ag ∧ r.2 = true ∧ r.1.positionSym = -1 ∧
        r.1.numTrades = ag.numTrades + 1) := by
  refine (closePosition_exits hpos).mono fun r hr => ?_
  rcases hr with hrefused | ⟨hgo, rfl⟩
  · exact .inl hrefused
  · exact .inr ⟨hgo, rfl, rfl, rfl⟩

/-- A forced close closes the position, or ticks when it is refused, or does nothing. -/
lemma forceClose_held (hpos : 0 ≤ ag.positionSym) : Ensures (forceClose md p t ag) fun r =>
    (HeldTooLong md p t ag ∧ ¬RefusedAt md p t ag ∧ r.1.positionSym = -1 ∧
      r.1.numTrades = ag.numTrades + 1) ∨
    ((HeldTooLong md p t ag → RefusedAt md p t ag) ∧
      Ticked (if ForcedRefused md p t ag then 1 else 0) ag r.1) := by
  intro r h
  rcases forceClose_cases h with ⟨hlong, r', hclose, rfl⟩ | ⟨hshort, rfl⟩
  · rcases closePosition_held hpos r' hclose with ⟨href, rfl⟩ | ⟨hgo, -, hsym, htrades⟩
    · refine .inr ⟨fun _ => href, ?_⟩
      rw [if_pos ⟨hlong, href⟩]
      exact .hold
    · exact .inl ⟨hlong, hgo, hsym, htrades⟩
  · refine .inr ⟨fun hlong => absurd hlong hshort, ?_⟩
    rw [if_neg fun hforced => hshort hforced.1]
    exact .refl

/-- A forced close leaves an agent without a position alone. -/
lemma forceClose_flat (hflat : ag.positionSym < 0) :
    Ensures (forceClose md p t ag) fun r => r.1 = ag := by
  unfold forceClose
  rw [if_neg fun hheld => absurd hheld.2.1 (not_le.mpr hflat)]
  exact Ensures.pure rfl

/-- An entry of a flat agent starts a new clock, and closes nothing. -/
lemma enterTarget_flat (hflat : ag.positionSym < 0) (isShort : Bool) (sym : ℤ) (alloc level : ℚ)
    (rng : UInt64) (events : ℤ) :
    Ensures (enterTarget md p t isShort sym alloc level ag rng events) fun r =>
      r.1.numTrades = ag.numTrades ∧ (0 ≤ r.1.positionSym → r.1.holdHours = 0) := by
  have hkept : ag.numTrades = ag.numTrades ∧ (0 ≤ ag.positionSym → ag.holdHours = 0) :=
    ⟨rfl, fun hpos => absurd hpos (not_le.mpr hflat)⟩
  unfold enterTarget
  dsimp only
  refine Ensures.ite (fun _ => ?_) fun _ => Ensures.pure hkept
  refine Ensures.bind (P := fun ag' => ag'.numTrades = ag.numTrades ∧
    (0 ≤ ag'.positionSym → ag'.holdHours = 0)) ?_ fun ag' h => Ensures.pure h
  intro ag' hag'
  rcases openTarget_cases hag' with rfl | ⟨f, q, -, rfl⟩
  · exact hkept
  · exact ⟨rfl, fun _ => rfl⟩

/-- Going flat closes the position or ticks once. -/
lemma goFlat_held (hpos : 0 ≤ ag.positionSym) (tradable : Bool) :
    Ensures (goFlat md p t tradable ag) fun r => Closed ag r.1 ∨ Ticked 1 ag r.1 := by
  unfold goFlat
  rw [if_pos hpos]
  refine Ensures.ite (fun _ => ?_) fun _ => Ensures.pure (.inr .hold)
  refine (closePosition_held hpos).bind fun r hr => Ensures.pure ?_
  rcases hr with ⟨-, rfl⟩ | ⟨-, -, hsym, htrades⟩
  · exact .inr .hold
  · have hlt : ag.numTrades < r.1.numTrades := by omega
    refine .inl ⟨hlt, fun hpos' => ?_⟩
    rw [hsym] at hpos'
    omega

/-- A target closes the position or ticks once. -/
lemma goTarget_held (hpos : 0 ≤ ag.positionSym) (tradable isShort : Bool)
    (sym allocIdx levelIdx : ℤ) (rng : UInt64) :
    Ensures (goTarget md p t tradable isShort sym allocIdx levelIdx ag rng) fun r =>
      Closed ag r.1 ∨ Ticked 1 ag r.1 := by
  unfold goTarget
  refine Ensures.self.bind fun alloc _ => Ensures.self.bind fun level _ => ?_
  refine Ensures.self.bind fun targetTradable _ => ?_
  refine Ensures.ite (fun _ => Ensures.pure (.inr .hold)) fun _ => ?_
  refine Ensures.ite (fun _ => Ensures.pure ?_) fun _ => ?_
  · dsimp only
    rw [if_pos hpos]
    exact .inr .hold
  refine Ensures.ite (fun _ => Ensures.pure (.inr .hold)) fun _ => ?_
  rw [if_pos hpos]
  refine (closePosition_held hpos).bind fun r hr => ?_
  rcases hr with ⟨-, rfl⟩ | ⟨-, hclosed, hsym, htrades⟩
  · -- refused: `close_position` has ticked, and nothing is opened
    exact Ensures.pure (.inr .hold)
  · dsimp only
    rw [if_pos hclosed]
    have hflat : r.1.positionSym < 0 := by omega
    refine (enterTarget_flat hflat isShort sym alloc level rng 1).mono fun r' hr' => .inl ?_
    exact ⟨by omega, hr'.2⟩

/-- **Actions.** A valid action closes the position or ticks once; an invalid one does nothing. -/
theorem applyAction_held (hpos : 0 ≤ ag.positionSym) (tradable : Bool) (action : ℤ)
    (rng : UInt64) : Ensures (applyAction md p t tradable action ag rng) fun r =>
      Closed ag r.1 ∨ Ticked (if ValidAction p md.numSymbols action then 1 else 0) ag r.1 := by
  unfold applyAction
  refine Ensures.self.bind fun d hd => ?_
  have hvalid := decodeAction_valid hd
  cases d with
  | flat =>
    rw [if_pos (not_not.mp fun h => nomatch hvalid.mpr h)]
    exact (goFlat_held hpos tradable).bind fun r hr => Ensures.pure hr
  | target isShort sym allocIdx levelIdx =>
    rw [if_pos (not_not.mp fun h => nomatch hvalid.mpr h)]
    exact goTarget_held hpos tradable isShort sym allocIdx levelIdx rng
  | invalid =>
    rw [if_neg (hvalid.mp rfl)]
    exact Ensures.pure (.inr .refl)

/-- An action of a flat agent closes nothing, and what it opens has a new clock. -/
lemma applyAction_flat (hflat : ag.positionSym < 0) (tradable : Bool) (action : ℤ)
    (rng : UInt64) : Ensures (applyAction md p t tradable action ag rng) fun r =>
      r.1.numTrades = ag.numTrades ∧ (0 ≤ r.1.positionSym → r.1.holdHours = 0) := by
  have hkept : ag.numTrades = ag.numTrades ∧ (0 ≤ ag.positionSym → ag.holdHours = 0) :=
    ⟨rfl, fun hpos => absurd hpos (not_le.mpr hflat)⟩
  have hnot : ¬ag.positionSym ≥ 0 := not_le.mpr hflat
  unfold applyAction
  refine (decodeAction_returns p md.numSymbols action).ensures.bind fun d hd => ?_
  cases d with
  | flat =>
    dsimp only [goFlat]
    rw [if_neg hnot]
    exact Ensures.pure hkept
  | target isShort sym allocIdx levelIdx =>
    dsimp only [goTarget]
    refine Ensures.self.bind fun alloc _ => Ensures.self.bind fun level _ => ?_
    refine Ensures.self.bind fun targetTradable _ => ?_
    have hne : ag.positionSym ≠ targetPosId md.numSymbols isShort sym := by
      have hpos := (targetPosId_range isShort hd).1
      omega
    rw [if_neg hne]
    refine Ensures.ite (fun _ => Ensures.pure ?_) fun _ => ?_
    · rw [if_neg hnot]
      exact hkept
    rw [if_neg fun hheld => hnot hheld.1, if_neg hnot]
    exact enterTarget_flat hflat isShort sym alloc level rng 0
  | invalid => exact Ensures.pure hkept

/-- **Trading.** The trading of a bar closes the position, or ticks once for a refused forced
close and once for a valid action. -/
theorem executeBar_held (hpos : 0 ≤ ag.positionSym) (rng : UInt64) (action : ℤ) :
    Ensures (executeBar md p ag rng action) fun x => Closed ag x.agent ∨
      Ticked ((if ForcedRefused md p (tradeRow md ag) ag then 1 else 0) +
        if ValidAction p md.numSymbols action then 1 else 0) ag x.agent := by
  unfold executeBar
  refine (forceClose_held hpos).bind fun r hr => ?_
  refine Ensures.self.bind fun tradable _ => Ensures.self.bind fun anyTradable _ => ?_
  refine Ensures.self.bind fun equity _ => ?_
  rcases hr with ⟨-, -, hsym, htrades⟩ | ⟨-, hticked⟩
  · have hflat : r.1.positionSym < 0 := by omega
    refine (applyAction_flat hflat tradable action rng).bind fun r' hr' => Ensures.pure (.inl ?_)
    have hlt : ag.numTrades < r'.1.numTrades := by
      rw [hr'.1, htrades]
      exact lt_add_one _
    exact ⟨hlt, hr'.2⟩
  · have hpos' : 0 ≤ r.1.positionSym := hticked.sym.symm ▸ hpos
    refine (applyAction_held hpos' tradable action rng).bind fun r' hr' => Ensures.pure ?_
    rcases hr' with hclosed | hticked'
    · refine .inl ⟨?_, hclosed.fresh⟩
      rw [← hticked.trades]
      exact hclosed.trades
    · exact .inr (hticked.trans hticked')

/-- Trading a bar without a position closes nothing. -/
theorem executeBar_flat (hflat : ag.positionSym < 0) (rng : UInt64) (action : ℤ) :
    Ensures (executeBar md p ag rng action) fun x =>
      x.agent.numTrades = ag.numTrades ∧ (0 ≤ x.agent.positionSym → x.agent.holdHours = 0) := by
  unfold executeBar
  refine (forceClose_flat hflat).bind fun r hr => ?_
  refine Ensures.self.bind fun tradable _ => Ensures.self.bind fun anyTradable _ => ?_
  refine Ensures.self.bind fun equity _ => ?_
  have hflat' : r.1.positionSym < 0 := by
    rw [hr]
    exact hflat
  refine (applyAction_flat hflat' tradable action rng).bind fun r' hr' => Ensures.pure ?_
  rw [hr] at hr'
  exact hr'

/-- Marking does not move the hold clock. -/
theorem markToMarket_ticked (x : Executed) :
    Ensures (markToMarket md p x) fun m => Ticked 0 x.agent m.agent := by
  unfold markToMarket
  refine Ensures.self.bind fun equity _ => Ensures.self.bind fun bfee _ => ?_
  refine Ensures.self.bind fun ret _ => Ensures.self.bind fun r hr => Ensures.pure ?_
  obtain ⟨dd, hagent, -⟩ := trackDrawdown_eq_ok hr
  rw [hagent]
  exact ⟨rfl, rfl, (add_zero _).symm⟩

/-! ## Steps -/

/-- A step that does not end the episode leaves the position that it traded. -/
lemma cStep_traded {env env' : EnvState} {action : ℤ} (h : cStep lm md p env action = .ok env')
    (hlive : env'.terminal = false) :
    ∃ x, executeBar md p env.agent env.rng action = .ok x ∧ Ticked 0 x.agent env'.agent := by
  obtain ⟨x, m, hx, hm, ⟨hdone, -⟩ | ⟨-, hagent, -⟩⟩ := cStep_cases h
  · rw [hdone] at hlive
    cases hlive
  · have hmarked := markToMarket_ticked x m hm
    rw [hagent]
    exact ⟨x, hx, hmarked.sym, hmarked.trades, hmarked.hours⟩

/-- **Steps.** A step that does not end the episode closes the position, or ticks once for a
refused forced close and once for a valid action. -/
theorem cStep_held {env env' : EnvState} {action : ℤ}
    (h : cStep lm md p env action = .ok env') (hlive : env'.terminal = false)
    (hpos : 0 ≤ env.agent.positionSym) :
    Closed env.agent env'.agent ∨
      Ticked ((if ForcedRefused md p (tradeRow md env.agent) env.agent then 1 else 0) +
        if ValidAction p md.numSymbols action then 1 else 0) env.agent env'.agent := by
  obtain ⟨x, hx, hafter⟩ := cStep_traded h hlive
  rcases executeBar_held hpos env.rng action x hx with hclosed | hticked
  · exact .inl (hclosed.ticked hafter)
  · have hsum := hticked.trans hafter
    rw [add_zero] at hsum
    exact .inr hsum

/-- The step from `env` to `env'` carries a position: it holds one, which the step does not
close, and the episode goes on. `num_trades` counts the closes. -/
structure Carried (env env' : EnvState) : Prop where
  held : 0 ≤ env.agent.positionSym
  live : env'.terminal = false
  kept : env'.agent.numTrades = env.agent.numTrades

instance (env env' : EnvState) : Decidable (Carried env env') :=
  decidable_of_iff (0 ≤ env.agent.positionSym ∧ env'.terminal = false ∧
    env'.agent.numTrades = env.agent.numTrades)
    ⟨fun ⟨h1, h2, h3⟩ => ⟨h1, h2, h3⟩, fun ⟨h1, h2, h3⟩ => ⟨h1, h2, h3⟩⟩

/-- A step that carries a position moves the hold clock by one. -/
def TicksOnce (env env' : EnvState) : Prop :=
  Carried env env' → env'.agent.holdHours = env.agent.holdHours + 1

instance (env env' : EnvState) : Decidable (TicksOnce env env') :=
  inferInstanceAs (Decidable (_ → _))

/-- `P env a env'` holds of every step of the run of `actions` that a reset of `env` begins: of
its state before, its action and its state after. -/
def EveryStep (lm : Libm) (md : MarketData) (p : Params) (env : EnvState) (actions : List ℤ)
    (P : EnvState → ℤ → EnvState → Prop) : Prop :=
  ∀ before action after, actions = before ++ action :: after →
    ∀ e e', episode lm md p env before = .ok e → cStep lm md p e action = .ok e' → P e action e'

/-- An invariant of the steps of the given actions may be used at every step of their run. -/
theorem everyStep_of_mem {I : EnvState → Prop} {P : EnvState → ℤ → EnvState → Prop}
    {actions : List ℤ} (hreset : ∀ env, Ensures (cReset md p env) I)
    (hkeep : ∀ env, ∀ a ∈ actions, I env → Ensures (cStep lm md p env a) I)
    (hstep : ∀ e, ∀ a ∈ actions, ∀ e', I e → cStep lm md p e a = .ok e' → P e a e')
    (env : EnvState) : EveryStep lm md p env actions P := by
  intro before action after hsplit e e' he he'
  have hbefore : Ensures (episode lm md p env before) I :=
    episode_ensures (hreset env) before fun e a ha => hkeep e a (by simp [hsplit, ha])
  exact hstep e action (by simp [hsplit]) e' (hbefore e he) he'

/-- An invariant of the steps may be used at every step of a run. -/
theorem everyStep_of_invariant {I : EnvState → Prop} {P : EnvState → ℤ → EnvState → Prop}
    (hreset : ∀ env, Ensures (cReset md p env) I)
    (hkeep : ∀ env a, I env → Ensures (cStep lm md p env a) I)
    (hstep : ∀ e a e', I e → cStep lm md p e a = .ok e' → P e a e') (env : EnvState)
    (actions : List ℤ) : EveryStep lm md p env actions P :=
  everyStep_of_mem hreset (fun env a _ => hkeep env a) (fun e a _ => hstep e a) env

/-- A step that carries a position keeps it, with its clock moved on by the two kinds of
ticks. -/
theorem Carried.ticked {env env' : EnvState} {action : ℤ} (hcarried : Carried env env')
    (h : cStep lm md p env action = .ok env') :
    Ticked ((if ForcedRefused md p (tradeRow md env.agent) env.agent then 1 else 0) +
      if ValidAction p md.numSymbols action then 1 else 0) env.agent env'.agent := by
  rcases cStep_held h hcarried.live hcarried.held with hclosed | hticked
  · exact absurd hcarried.kept hclosed.trades.ne'
  · exact hticked

/-- **The hold clock.** At every step of every run that carries a position, the hold clock ticks
once exactly when the action is valid and no forced close was refused before it, or the action is
invalid and one was. -/
theorem ticksOnce_iff (lm : Libm) (md : MarketData) (p : Params) (env : EnvState)
    (actions : List ℤ) : EveryStep lm md p env actions fun e action e' => Carried e e' →
      (TicksOnce e e' ↔ (ValidAction p md.numSymbols action ↔
        ¬ForcedRefused md p (tradeRow md e.agent) e.agent)) := by
  intro before action after _ e e' _ hstep hcarried
  have hticks : TicksOnce e e' ↔ e'.agent.holdHours = e.agent.holdHours + 1 :=
    ⟨fun h => h hcarried, fun h _ => h⟩
  rw [hticks, (hcarried.ticked hstep).hours, add_right_inj]
  by_cases hvalid : ValidAction p md.numSymbols action <;>
    by_cases hforced : ForcedRefused md p (tradeRow md e.agent) e.agent <;>
      simp [hvalid, hforced]

/-- A step of a run that violates a property. -/
lemma not_everyStep {env : EnvState} (before : List ℤ) (action : ℤ) (after : List ℤ)
    {P : EnvState → ℤ → EnvState → Prop} [∀ e a e', Decidable (P e a e')]
    (h : (do
      let e ← episode lm md p env before
      let e' ← cStep lm md p e action
      pure !decide (P e action e')).toOption = some true) :
    ¬EveryStep lm md p env (before ++ action :: after) P := by
  obtain ⟨b, hrun, hb⟩ := exists_of_toOption (P := id) (by rw [h]; rfl)
  obtain ⟨e, he, hrun⟩ := bind_eq_ok.mp hrun
  obtain ⟨e', he', hrun⟩ := bind_eq_ok.mp hrun
  cases pure_eq_ok.mp hrun
  intro hall
  have hP := hall before action after rfl e e' he he'
  simp [hP] at hb

/-- A long is bought, and the next action is invalid: the clock stays at zero. A long is bought
for one hour and its price halves: the guard refuses the forced close, and holding on makes the
clock tick a second time. -/
theorem not_ticksOnce :
    let p := { keelEnvCreate with forcedOffset := 0 }
    let p' := { p with maxHoldHours := 1, deathSpiralToleranceBps := 100 }
    (¬EveryStep .firstOrder (wideMarket 9 fun _ => 100) p (.zero 7) [1, -1]
      fun e _ e' => TicksOnce e e') ∧
    ¬EveryStep .firstOrder (wideMarket 9 fun t => if t < 2 then 100 else 50) p' (.zero 7)
      [1, 1, 1] fun e _ e' => TicksOnce e e' := by
  intro p p'
  exact ⟨not_everyStep [1] (-1) [] (by decide +kernel),
    not_everyStep [1, 1] 1 [] (by decide +kernel)⟩

end KeelTrader.Sim
