import KeelTrader.Sim.HoldClock

set_option relaxedAutoImplicit false
set_option autoImplicit false

/-!
# The hold deadline

When `max_hold_hours` closes a position, in a market without a mask and without the death-spiral
guard. An entry sets `hold_hours` to zero, each bar that carries the position adds one to it at its
end, and the forced close compares it at the beginning of the next bar. A position that is opened
at one bar therefore has the count `k - 1` when the `k`-th bar after it begins, and the forced
close happens at bar `max_hold_hours + 1`. That the position is gone one bar earlier is up to the
actions.

## Main definitions

* `KeelTrader.Sim.Opened`, `CarriedTo` — a position is opened, and carried by a list of actions.
* `KeelTrader.Sim.ClosedWithin` — no position of a run is carried for this many bars.
* `KeelTrader.Sim.AsksFor` — the action asks for the position that is held.
* `KeelTrader.Sim.endsHolding` — the episode ends with this bar, if the position is held on to.
* `KeelTrader.Sim.LetsGo` — at the last bar before the deadline, no action asks for the position.

## Main results

* `KeelTrader.Sim.carried_iff` — which steps carry a position.
* `KeelTrader.Sim.held_history` — the hold clock counts the bars since the entry.
* `KeelTrader.Sim.closedWithin_succ` — every position is closed within `max_hold_hours + 1` bars.
* `KeelTrader.Sim.closedWithin_iff` — the runs that close every position one bar earlier.
-/

namespace KeelTrader.Sim

open Checked

/-! ## Positions over a run -/

/-- The step from `env` to `env'` opens a position, and does not end the episode. -/
structure Opened (env env' : EnvState) : Prop where
  live : env'.terminal = false
  held : 0 ≤ env'.agent.positionSym
  entered : env.agent.positionSym < 0 ∨ env.agent.numTrades < env'.agent.numTrades

/-- The actions lead from one state to the other by steps that each carry the position. -/
inductive CarriedTo (lm : Libm) (md : MarketData) (p : Params) (env : EnvState) :
    List ℤ → EnvState → Prop
  | refl : CarriedTo lm md p env [] env
  | tail {actions : List ℤ} {action : ℤ} {env' env'' : EnvState}
      (h : CarriedTo lm md p env actions env') (hstep : cStep lm md p env' action = .ok env'')
      (hcarried : Carried env' env'') : CarriedTo lm md p env (actions ++ [action]) env''

/-- In the run of `actions`, the `n` steps after a step that opens a position do not all carry
it. -/
def ClosedWithin (lm : Libm) (md : MarketData) (p : Params) (env : EnvState) (actions : List ℤ)
    (n : ℤ) : Prop :=
  ∀ before action held after, actions = before ++ action :: (held ++ after) →
    (held.length : ℤ) = n → ∀ e e', episode lm md p env before = .ok e →
      cStep lm md p e action = .ok e' → Opened e e' → ∀ e'', ¬CarriedTo lm md p e' held e''

/-- The action asks for the position that is held. -/
def AsksFor (p : Params) (numSymbols : ℕ) (positionSym action : ℤ) : Prop :=
  ∃ isShort sym allocIdx levelIdx,
    decodeAction p numSymbols action = .ok (.target isShort sym allocIdx levelIdx) ∧
      positionSym = targetPosId numSymbols isShort sym

/-- Whether the episode of an agent ends with this bar, if the agent holds on to its position. -/
def endsHolding (md : MarketData) (p : Params) (ag : AgentState) : Checked Bool := do
  let m ← markToMarket md p ⟨ag.hold, 0, 0, true, 0⟩
  ends md p m

/-- At every step of the run that finds a position one tick short of the deadline, the action does
not ask for it, or the episode ends with the bar. -/
def LetsGo (lm : Libm) (md : MarketData) (p : Params) (env : EnvState) (actions : List ℤ) : Prop :=
  EveryStep lm md p env actions fun e action _ => 0 ≤ e.agent.positionSym →
    e.agent.holdHours = p.maxHoldHours - 1 →
      AsksFor p md.numSymbols e.agent.positionSym action →
        endsHolding md p e.agent = .ok true

variable {lm : Libm} {md : MarketData} {p : Params} {t : ℤ} {ag : AgentState}
  {env env' env'' : EnvState} {action : ℤ} {actions : List ℤ}

/-- Carrying steps continue the run. -/
lemma CarriedTo.episode {before : List ℤ} (h : CarriedTo lm md p env' actions env'')
    (hbefore : episode lm md p env before = .ok env') :
    episode lm md p env (before ++ actions) = .ok env'' := by
  induction h with
  | refl => simpa using hbefore
  | tail _ hstep _ ih => rw [← List.append_assoc, episode_concat, ih, bind_of_eq_ok rfl, hstep]

/-! ## A step in an open market -/

section OpenMarket

variable (hmask : md.tradable = none) (hguard : p.deathSpiralToleranceBps ≤ 0)

include hmask in
lemma isTradable_unmasked (s : ℤ) : isTradable md t s = .ok true := by
  unfold isTradable
  rw [hmask]
  rfl

include hmask in
lemma curTradable_unmasked : Ensures (curTradable md t ag) fun b => b = true := by
  unfold curTradable
  refine Ensures.ite (fun _ => ?_) fun _ => Ensures.pure rfl
  refine Ensures.self.bind fun sym _ => ?_
  rw [isTradable_unmasked hmask]
  exact Ensures.pure rfl

include hmask in
lemma heldTooLong_unmasked : HeldTooLong md p t ag ↔
    0 < p.maxHoldHours ∧ 0 ≤ ag.positionSym ∧ p.maxHoldHours ≤ ag.holdHours := by
  unfold HeldTooLong MarketData.maskAt
  rw [hmask]
  simp

/-- A position that has not been held for too long is not closed by force. -/
lemma forceClose_early (hearly : ag.holdHours < p.maxHoldHours) :
    Ensures (forceClose md p t ag) fun r => r.1 = ag := by
  unfold forceClose
  rw [if_neg fun hheld => absurd hheld.2.2 (not_le.mpr hearly)]
  exact Ensures.pure rfl

include hguard in
/-- A forced close is not refused. -/
lemma executeBar_forced (hlong : HeldTooLong md p (tradeRow md ag) ag) (rng : UInt64) :
    Ensures (executeBar md p ag rng action) fun x => Closed ag x.agent := by
  unfold executeBar
  refine (forceClose_held hlong.2.1).bind fun r hr => ?_
  refine Ensures.self.bind fun tradable _ => Ensures.self.bind fun anyTradable _ => ?_
  refine Ensures.self.bind fun equity _ => ?_
  rcases hr with ⟨-, -, hsym, htrades⟩ | ⟨href, -⟩
  · have hflat : r.1.positionSym < 0 := by omega
    refine (applyAction_flat hflat tradable action rng).bind fun r' hr' => Ensures.pure ?_
    have hlt : ag.numTrades < r'.1.numTrades := by
      rw [hr'.1, htrades]
      exact lt_add_one _
    exact ⟨hlt, hr'.2⟩
  · exact absurd (href hlong) (not_refusedAt hguard _ _)

include hguard in
/-- An exit closes the position. -/
lemma closePosition_unguarded (hpos : 0 ≤ ag.positionSym) :
    Ensures (closePosition md p t ag) fun r => r.2 = true ∧ r.1.positionSym = -1 ∧
      r.1.numTrades = ag.numTrades + 1 := by
  refine (closePosition_held hpos).mono fun r hr => ?_
  rcases hr with ⟨href, -⟩ | ⟨-, hr⟩
  · exact absurd href (not_refusedAt hguard _ _)
  · exact hr

include hmask hguard in
/-- **Actions in an open market.** A valid action holds on to the position when it asks for it,
and closes it otherwise. -/
theorem applyAction_open (hpos : 0 ≤ ag.positionSym)
    (hvalid : ValidAction p md.numSymbols action) (rng : UInt64) :
    Ensures (applyAction md p t true action ag rng) fun r =>
      (AsksFor p md.numSymbols ag.positionSym action ∧ r.1 = ag.hold) ∨
        (¬AsksFor p md.numSymbols ag.positionSym action ∧ Closed ag r.1) := by
  unfold applyAction
  refine Ensures.self.bind fun d hd => ?_
  have hdecoded : ∀ d', decodeAction p md.numSymbols action = .ok d' → d' = d := fun d' hd' =>
    Except.ok.inj (hd'.symm.trans hd)
  cases d with
  | flat =>
    have hnot : ¬AsksFor p md.numSymbols ag.positionSym action := by
      rintro ⟨isShort, sym, allocIdx, levelIdx, hd', -⟩
      cases hdecoded _ hd'
    dsimp only [goFlat]
    rw [if_pos hpos, if_pos rfl]
    refine Ensures.bind (P := fun r => Closed ag r.1) ?_ fun r hr => Ensures.pure (.inr ⟨hnot, hr⟩)
    refine (closePosition_unguarded hguard hpos).bind fun r hr => Ensures.pure ?_
    have hlt : ag.numTrades < r.1.numTrades := by omega
    refine ⟨hlt, fun hpos' => ?_⟩
    rw [hr.2.1] at hpos'
    exact absurd hpos' (by decide)
  | target isShort sym allocIdx levelIdx =>
    dsimp only [goTarget]
    refine Ensures.self.bind fun alloc _ => Ensures.self.bind fun level _ => ?_
    rw [isTradable_unmasked hmask, bind_of_eq_ok rfl]
    refine Ensures.ite (fun hsame => ?_) fun hother => ?_
    · exact Ensures.pure (.inl ⟨⟨isShort, sym, allocIdx, levelIdx, hd, hsame⟩, rfl⟩)
    · have hnot : ¬AsksFor p md.numSymbols ag.positionSym action := by
        rintro ⟨isShort', sym', allocIdx', levelIdx', hd', hsame⟩
        cases hdecoded _ hd'
        exact hother hsame
      rw [if_neg (by decide), if_neg (by simp), if_pos hpos]
      refine (closePosition_unguarded hguard hpos).bind fun r hr => ?_
      rw [if_pos hr.1]
      have hflat : r.1.positionSym < 0 := by omega
      refine (enterTarget_flat hflat isShort sym alloc level rng 1).mono fun r' hr' => ?_
      exact .inr ⟨hnot, by omega, hr'.2⟩
  | invalid => exact absurd hvalid ((decodeAction_valid hd).mp rfl)

include hmask hguard in
/-- **Trading in an open market**, before the deadline. -/
theorem executeBar_open (hpos : 0 ≤ ag.positionSym) (hearly : ag.holdHours < p.maxHoldHours)
    (hvalid : ValidAction p md.numSymbols action) (rng : UInt64) :
    Ensures (executeBar md p ag rng action) fun x =>
      (AsksFor p md.numSymbols ag.positionSym action ∧ x.agent = ag.hold) ∨
        (¬AsksFor p md.numSymbols ag.positionSym action ∧ Closed ag x.agent) := by
  unfold executeBar
  refine (forceClose_early hearly).bind fun r hr => ?_
  refine (curTradable_unmasked hmask).bind fun tradable htradable => ?_
  refine Ensures.self.bind fun anyTradable _ => Ensures.self.bind fun equity _ => ?_
  rw [hr, htradable]
  exact (applyAction_open hmask hguard hpos hvalid rng).bind fun r' hr' => Ensures.pure hr'

end OpenMarket

/-! ## The end of the episode -/

/-- The end of an episode does not depend on the return of its last step. -/
lemma ends_congr {m m' : Marked} (hstep : m'.agent.step = m.agent.step)
    (hinit : m'.agent.initialEquity = m.agent.initialEquity)
    (hdrawdown : m'.agent.maxDrawdown = m.agent.maxDrawdown) (ht : m'.tNew = m.tNew)
    (hequity : m'.equityAfter = m.equityAfter) : ends md p m' = ends md p m := by
  simp only [ends, isDone, shouldDrawdownProfitEarlyExit, hstep, hinit, hdrawdown, ht, hequity]

/-- The drawdown update reads the peak and the running maximum. -/
lemma trackDrawdown_congr {e : ℚ} {r : AgentState × ℚ} (h : trackDrawdown e ag = .ok r)
    (ag' : AgentState) (hpeak : ag'.peakEquity = ag.peakEquity)
    (hdrawdown : ag'.maxDrawdown = ag.maxDrawdown) : Returns (trackDrawdown e ag') fun r' =>
      r'.1.step = ag'.step ∧ r'.1.initialEquity = ag'.initialEquity ∧
        r'.1.maxDrawdown = r.1.maxDrawdown := by
  have hreturns : Returns (trackDrawdown e ag') fun _ => True := trackDrawdown_returns e
  obtain ⟨r', hr', -⟩ := hreturns
  refine ⟨r', hr', ?_⟩
  dsimp only
  rw [trackDrawdown_max hr', trackDrawdown_max h, hpeak, hdrawdown]
  exact ⟨rfl, rfl, rfl⟩

/-- The end of an episode is decided by the agent that is marked, not by what its bar traded. -/
lemma endsHolding_eq {x : Executed} {m : Marked} (hagent : x.agent = ag.hold)
    (hm : markToMarket md p x = .ok m) : endsHolding md p ag = ends md p m := by
  obtain ⟨equity, hequity, hm⟩ := bind_eq_ok.mp hm
  obtain ⟨bfee, hbfee, hm⟩ := bind_eq_ok.mp hm
  obtain ⟨ret, -, hm⟩ := bind_eq_ok.mp hm
  obtain ⟨r, hr, hm⟩ := bind_eq_ok.mp hm
  rw [hagent] at hequity hbfee hr hm
  obtain ⟨dd, hmarked, -⟩ := trackDrawdown_eq_ok hr
  obtain ⟨r', hr', hstep, hinit, hdrawdown⟩ :=
    trackDrawdown_congr hr (((ag.hold.tick.charge bfee).trackReturn 0).trackPeak
      (if bfee > 0 then equity - bfee else equity)) rfl rfl
  rw [← pure_eq_ok.mp hm]
  have hret : ∀ e, stepReturn 0 e = .ok 0 := fun e => if_neg (by norm_num)
  unfold endsHolding markToMarket
  rw [bind_assoc]
  dsimp only
  rw [bind_of_eq_ok hequity, bind_assoc, bind_of_eq_ok hbfee, bind_assoc, bind_of_eq_ok (hret _),
    bind_assoc, bind_of_eq_ok hr']
  refine ends_congr ?_ ?_ hdrawdown rfl rfl
  · rw [hmarked]
    exact hstep
  · rw [hmarked]
    exact hinit

/-! ## Steps that carry -/

section Carrying

variable (hmask : md.tradable = none) (hguard : p.deathSpiralToleranceBps ≤ 0)

include hguard in
/-- A step that carries a position moves its clock by one, when the action is valid. -/
lemma Carried.ticked_once (hcarried : Carried env env')
    (hvalid : ValidAction p md.numSymbols action) (h : cStep lm md p env action = .ok env') :
    Ticked 1 env.agent env'.agent := by
  have hticked := hcarried.ticked h
  have hforced : ¬ForcedRefused md p (tradeRow md env.agent) env.agent :=
    fun hforced => not_refusedAt hguard _ _ hforced.2
  rwa [if_neg hforced, if_pos hvalid, zero_add] at hticked

include hmask hguard in
/-- A position that a step carries is short of its deadline. -/
lemma Carried.early (hH : 0 < p.maxHoldHours) (hcarried : Carried env env')
    (h : cStep lm md p env action = .ok env') : env.agent.holdHours < p.maxHoldHours := by
  by_contra hlate
  have hlong : HeldTooLong md p (tradeRow md env.agent) env.agent :=
    (heldTooLong_unmasked hmask).mpr ⟨hH, hcarried.held, not_lt.mp hlate⟩
  obtain ⟨x, hx, hafter⟩ := cStep_traded h hcarried.live
  have hclosed := (executeBar_forced hguard hlong env.rng x hx).ticked hafter
  exact hclosed.trades.ne' hcarried.kept

include hmask hguard in
/-- **Carrying.** Before the deadline, a step with a valid action carries the position exactly when
the action asks for it and the episode does not end with the bar. -/
theorem carried_iff (hpos : 0 ≤ env.agent.positionSym)
    (hearly : env.agent.holdHours < p.maxHoldHours) (hvalid : ValidAction p md.numSymbols action)
    (h : cStep lm md p env action = .ok env') : Carried env env' ↔
      AsksFor p md.numSymbols env.agent.positionSym action ∧
        endsHolding md p env.agent ≠ .ok true := by
  obtain ⟨x, m, hx, hm, -⟩ := cStep_cases h
  have hends := cStep_ends hx hm h
  rcases executeBar_open hmask hguard hpos hearly hvalid env.rng x hx with
    ⟨hasks, hagent⟩ | ⟨hnot, hclosed⟩
  · rw [endsHolding_eq hagent hm, hends]
    constructor
    · intro hcarried
      refine ⟨hasks, ?_⟩
      rw [hcarried.live]
      decide
    · rintro ⟨-, hne⟩
      have hlive : env'.terminal = false := by
        cases hterminal : env'.terminal with
        | false => rfl
        | true => exact absurd (by rw [hterminal]) hne
      obtain ⟨x', hx', hafter⟩ := cStep_traded h hlive
      rw [hx] at hx'
      cases hx'
      rw [hagent] at hafter
      exact ⟨hpos, hlive, hafter.trades⟩
  · refine iff_of_false (fun hcarried => ?_) fun hasks => hnot hasks.1
    obtain ⟨x', hx', hafter⟩ := cStep_traded h hcarried.live
    rw [hx] at hx'
    cases hx'
    exact (hclosed.ticked hafter).trades.ne' hcarried.kept

/-! ## Runs -/

include hguard in
/-- The clock of a carried position counts the steps. -/
lemma CarriedTo.hours (h : CarriedTo lm md p env actions env')
    (hvalid : ∀ a ∈ actions, ValidAction p md.numSymbols a) :
    env'.agent.holdHours = env.agent.holdHours + actions.length := by
  induction h with
  | refl => simp
  | @tail actions action env' env'' _ hstep hcarried ih =>
    have hticked := hcarried.ticked_once hguard (hvalid action (by simp)) hstep
    have hbefore := ih fun a ha => hvalid a (by simp [ha])
    rw [hticked.hours, hbefore, List.length_append, List.length_singleton]
    push_cast
    ring

/-- A step that opens a position starts its clock. -/
lemma Opened.hours (hopened : Opened env env') (h : cStep lm md p env action = .ok env') :
    env'.agent.holdHours = 0 := by
  obtain ⟨x, hx, hafter⟩ := cStep_traded h hopened.live
  rcases lt_or_ge env.agent.positionSym 0 with hflat | hpos
  · rw [hafter.hours, add_zero]
    exact (executeBar_flat hflat env.rng action x hx).2 (hafter.sym ▸ hopened.held)
  · have hlt := hopened.entered.resolve_left (not_lt.mpr hpos)
    rcases cStep_held h hopened.live hpos with hclosed | hticked
    · exact hclosed.fresh hopened.held
    · exact absurd hticked.trades hlt.ne'

include hguard in
/-- **The history of a position.** A position that is held after a list of actions was opened by
one of them and carried by the actions after it, and its clock counts those.

**Proof sketch.** Induction on the actions, the last one first. A step that does not end the
episode opens the position that is held after it, or it carries the one that was held before. -/
theorem held_history (actions : List ℤ) (hvalid : ∀ a ∈ actions, ValidAction p md.numSymbols a)
    {e : EnvState} (h : episode lm md p env actions = .ok e) (hpos : 0 ≤ e.agent.positionSym) :
    ∃ before action held e₀ e₁, actions = before ++ action :: held ∧
      episode lm md p env before = .ok e₀ ∧ cStep lm md p e₀ action = .ok e₁ ∧
      Opened e₀ e₁ ∧ CarriedTo lm md p e₁ held e ∧ e.agent.holdHours = held.length := by
  induction actions using List.reverseRecOn generalizing e with
  | nil =>
    obtain ⟨e', hreset, h⟩ := bind_eq_ok.mp h
    cases pure_eq_ok.mp h
    obtain ⟨obs, -, hreset⟩ := bind_eq_ok.mp hreset
    rw [← pure_eq_ok.mp hreset] at hpos
    exact absurd (show (0 : ℤ) ≤ -1 from hpos) (by decide)
  | append_singleton before a ih =>
    rw [episode_concat] at h
    obtain ⟨e', he', hstep⟩ := bind_eq_ok.mp h
    cases hterminal : e.terminal with
    | true =>
      obtain ⟨x, m, -, -, ⟨-, hagent, -⟩ | ⟨hlive, -⟩⟩ := cStep_cases hstep
      · rw [hagent] at hpos
        exact absurd (show (0 : ℤ) ≤ -1 from hpos) (by decide)
      · rw [hterminal] at hlive
        cases hlive
    | false =>
      have hopening : Opened e' e → ∃ before' action held e₀ e₁,
          before ++ [a] = before' ++ action :: held ∧ episode lm md p env before' = .ok e₀ ∧
          cStep lm md p e₀ action = .ok e₁ ∧ Opened e₀ e₁ ∧ CarriedTo lm md p e₁ held e ∧
          e.agent.holdHours = held.length :=
        fun hopened => ⟨before, a, [], e', e, rfl, he', hstep, hopened, .refl,
          by simpa using hopened.hours hstep⟩
      rcases lt_or_ge e'.agent.positionSym 0 with hflat | hpos'
      · exact hopening ⟨hterminal, hpos, .inl hflat⟩
      rcases cStep_held hstep hterminal hpos' with hclosed | hticked
      · exact hopening ⟨hterminal, hpos, .inr hclosed.trades⟩
      · have hcarried : Carried e' e := ⟨hpos', hterminal, hticked.trades⟩
        obtain ⟨before', action, held, e₀, e₁, rfl, he₀, he₁, hopened, hheld, hhours⟩ :=
          ih (fun b hb => hvalid b (by simp [hb])) he' hpos'
        refine ⟨before', action, held ++ [a], e₀, e₁, by simp, he₀, he₁, hopened,
          hheld.tail hstep hcarried, ?_⟩
        rw [(hcarried.ticked_once hguard (hvalid a (by simp)) hstep).hours, hhours]
        simp

include hguard in
/-- The last of the steps that carry a new position finds it with a clock that counts the others. -/
lemma CarriedTo.last_step {held : List ℤ} {e e' e'' : EnvState}
    (h : CarriedTo lm md p e' held e'') (hvalid : ∀ a ∈ held, ValidAction p md.numSymbols a)
    (hstep : cStep lm md p e action = .ok e') (hopened : Opened e e')
    (hlength : 0 < (held.length : ℤ)) : ∃ init last e₁, held = init ++ [last] ∧
      CarriedTo lm md p e' init e₁ ∧ cStep lm md p e₁ last = .ok e'' ∧ Carried e₁ e'' ∧
      e₁.agent.holdHours + 1 = held.length := by
  cases h with
  | refl => simp at hlength
  | @tail init last e₁ _ hinit hlast hcarried =>
    have hhours := hinit.hours hguard fun a ha => hvalid a (by simp [ha])
    rw [hopened.hours hstep, zero_add] at hhours
    refine ⟨init, last, e₁, rfl, hinit, hlast, hcarried, ?_⟩
    rw [hhours]
    simp

include hmask hguard in
/-- **The deadline** of the code: with valid actions, every position is closed within
`max_hold_hours + 1` bars of its entry. -/
theorem closedWithin_succ (hH : 0 < p.maxHoldHours) (actions : List ℤ)
    (hvalid : ∀ a ∈ actions, ValidAction p md.numSymbols a) :
    ClosedWithin lm md p env actions (p.maxHoldHours + 1) := by
  intro before action held after hsplit hlength e e' _ hstep hopened e'' hcarriedTo
  have hheld : ∀ a ∈ held, ValidAction p md.numSymbols a := by
    intro a ha
    apply hvalid
    simp [hsplit, ha]
  obtain ⟨init, last, e₁, -, -, hlast, hcarried, hhours⟩ :=
    hcarriedTo.last_step hguard hheld hstep hopened (by omega)
  have hearly := hcarried.early hmask hguard hH hlast
  omega

include hmask hguard in
/-- **The deadline one bar earlier.** In an open market without the death-spiral guard, a run of
valid actions closes every position within `max_hold_hours` bars of its entry exactly when no
action asks for a position one tick before the deadline, unless the episode ends with that bar.

**Proof sketch.** A position that is carried for `max_hold_hours` bars has the clock
`max_hold_hours - 1` before the last of them (`CarriedTo.hours`), and a position with that clock
has been carried for all the bars before (`held_history`). Whether the last bar carries it too is
up to the action and the end of the episode (`carried_iff`). -/
theorem closedWithin_iff (lm : Libm) (env : EnvState) (actions : List ℤ)
    (hH : 0 < p.maxHoldHours) (hvalid : ∀ a ∈ actions, ValidAction p md.numSymbols a) :
    ClosedWithin lm md p env actions p.maxHoldHours ↔ LetsGo lm md p env actions := by
  constructor
  · intro hclosed before action after hsplit e e' he hstep hpos hhours hasks
    by_contra hgoes
    have haction : ValidAction p md.numSymbols action := hvalid action (by simp [hsplit])
    have hearly : e.agent.holdHours < p.maxHoldHours := by omega
    have hcarried : Carried e e' :=
      (carried_iff hmask hguard hpos hearly haction hstep).mpr ⟨hasks, hgoes⟩
    obtain ⟨before', opening, held, e₀, e₁, rfl, he₀, he₁, hopened, hheld, hcount⟩ :=
      held_history hguard before (fun a ha => hvalid a (by simp [hsplit, ha])) he hpos
    have hlength : (((held ++ [action]).length : ℕ) : ℤ) = p.maxHoldHours := by
      simp only [List.length_append, List.length_singleton]
      push_cast
      omega
    exact hclosed before' opening (held ++ [action]) after (by simp [hsplit]) hlength e₀ e₁ he₀ he₁
      hopened e' (hheld.tail hstep hcarried)
  · intro hletsGo before action held after hsplit hlength e e' he hstep hopened e'' hcarriedTo
    have hheld : ∀ a ∈ held, ValidAction p md.numSymbols a := by
      intro a ha
      apply hvalid
      simp [hsplit, ha]
    obtain ⟨init, last, e₁, rfl, hinit, hlast, hcarried, hhours⟩ :=
      hcarriedTo.last_step hguard hheld hstep hopened (by omega)
    have hafter : episode lm md p env (before ++ [action] ++ init) = .ok e₁ := by
      apply hinit.episode
      rw [episode_concat, he, bind_of_eq_ok rfl, hstep]
    obtain ⟨hasks, hgoes⟩ := (carried_iff hmask hguard hcarried.held
      (hcarried.early hmask hguard hH hlast) (hheld last (by simp)) hlast).mp hcarried
    exact hgoes (hletsGo _ last after (by simp [hsplit]) e₁ e'' hafter hlast hcarried.held
      (by omega) hasks)

end Carrying

/-- A long that is bought and sold at the next bar, with a deadline of two bars. -/
theorem closedWithin_round_trip :
    let md := wideMarket 9 fun _ => 100
    let p := { keelEnvCreate with forcedOffset := 0, maxHoldHours := 2 }
    (∀ a ∈ [1, 0], ValidAction p md.numSymbols a) ∧
      (ClosedWithin .firstOrder md p (.zero 7) [1, 0] p.maxHoldHours ↔
        LetsGo .firstOrder md p (.zero 7) [1, 0]) := by
  intro md p
  have hvalid : ∀ a ∈ [1, 0], ValidAction p md.numSymbols a := by decide
  exact ⟨hvalid, closedWithin_iff rfl (by decide) .firstOrder (.zero 7) [1, 0] (by decide) hvalid⟩

/-- With a deadline of one bar, a long that is bought at one bar and asked for again at the next
one is carried over both. -/
theorem not_closedWithin_one :
    let md := wideMarket 9 fun _ => 100
    let p := { keelEnvCreate with forcedOffset := 0, maxHoldHours := 1 }
    md.tradable = none ∧ p.deathSpiralToleranceBps ≤ 0 ∧
      (∀ a ∈ [1, 1], ValidAction p md.numSymbols a) ∧
      ¬ClosedWithin .firstOrder md p (.zero 7) [1, 1] p.maxHoldHours := by
  intro md p
  refine ⟨rfl, by decide, by decide, fun hclosed => ?_⟩
  obtain ⟨r, hrun, hr⟩ := exists_of_toOption
    (x := do
      let e ← episode .firstOrder md p (.zero 7) []
      let e' ← cStep .firstOrder md p e 1
      let e'' ← cStep .firstOrder md p e' 1
      pure (e, e', e''))
    (P := fun r => decide (r.1.agent.positionSym < 0 ∧ r.2.1.terminal = false ∧
      Carried r.2.1 r.2.2))
    (by decide +kernel)
  obtain ⟨e, he, hrun⟩ := bind_eq_ok.mp hrun
  obtain ⟨e', he', hrun⟩ := bind_eq_ok.mp hrun
  obtain ⟨e'', he'', hrun⟩ := bind_eq_ok.mp hrun
  cases pure_eq_ok.mp hrun
  obtain ⟨hflat, hlive, hcarried⟩ := of_decide_eq_true hr
  exact hclosed [] 1 [1] [] rfl rfl e e' he he' ⟨hlive, hcarried.held, .inl hflat⟩ e''
    (CarriedTo.refl.tail he'' hcarried)

end KeelTrader.Sim
