import KeelTrader.Sim.FirstEntry
import KeelTrader.Sim.NoLookahead

set_option relaxedAutoImplicit false
set_option autoImplicit false

/-!
# Closed markets

The mask of the market data says which symbols trade at a row. `c_step` asks it before the forced
close, before an exit and before an entry, so that a position in a symbol changes only while its
market is open, and an agent whose held symbol does not trade keeps its position and its cash until
the borrow fee.

## Main definitions

* `KeelTrader.Sim.MarketData.flagAt` — the entry of the mask.
* `KeelTrader.Sim.AgentState.positionIn` — the position in a symbol.
* `KeelTrader.Sim.RespectsMask` — what trading at a row may do to an agent.

## Main results

* `KeelTrader.Sim.forceClose_mask`, `applyAction_mask` — the two stages that trade respect the mask.
* `KeelTrader.Sim.cStep_mask` — so does a step, whatever its action.
-/

namespace KeelTrader.Sim

open Checked

/-! ## The mask -/

/-- The entry of the mask for a row and a symbol; every entry is `1` when there is no mask. -/
def MarketData.flagAt (md : MarketData) (t s : ℤ) : UInt8 :=
  match md.tradable with
  | none => 1
  | some mask => mask t.toNat s.toNat

/-- The entries of the mask are `0` or `1`. -/
def MarketData.Flags (md : MarketData) : Prop := ∀ t s, md.flagAt t s = 0 ∨ md.flagAt t s = 1

/-- The symbol that is held, when one is. -/
def AgentState.heldSym (md : MarketData) (ag : AgentState) : ℤ := ag.positionSym % md.numSymbols

/-- The position in a symbol: whether it is long or short, its quantity and its entry price. -/
def AgentState.positionIn (md : MarketData) (s : ℤ) (ag : AgentState) : Option (ℤ × ℚ × ℚ) :=
  if 0 ≤ ag.positionSym ∧ ag.heldSym md = s
  then some (ag.positionSym, ag.positionQty, ag.entryPrice) else none

/-- The agents have the same cash and the same position. -/
structure SameAssets (a b : AgentState) : Prop where
  cash : b.cash = a.cash
  sym : b.positionSym = a.positionSym
  qty : b.positionQty = a.positionQty
  entry : b.entryPrice = a.entryPrice

/-- What trading at row `t` may do to an agent. -/
structure RespectsMask (md : MarketData) (t : ℤ) (a b : AgentState) : Prop where
  /-- A position is opened or closed in an open market only. -/
  trades : ∀ s, b.positionIn md s ≠ a.positionIn md s → md.flagAt t s ≠ 0
  /-- An agent that holds a position in a closed market keeps what it has. -/
  frozen : 0 ≤ a.positionSym → md.flagAt t (a.heldSym md) = 0 → SameAssets a b

variable {lm : Libm} {md : MarketData} {p : Params} {t : ℤ} {a b c ag : AgentState}

/-- The flag that was read says whether the market is open. -/
lemma flag_of_isTradable {s : ℤ} {isOpen : Bool} (h : isTradable md t s = .ok isOpen) :
    isOpen = true ↔ md.flagAt t s ≠ 0 := by
  rw [isTradable_eq_ok h]
  unfold MarketData.maskAt MarketData.flagAt
  cases md.tradable with
  | none => simp
  | some mask => simp

namespace SameAssets

lemma refl : SameAssets a a := ⟨rfl, rfl, rfl, rfl⟩

lemma hold : SameAssets a a.hold := ⟨rfl, rfl, rfl, rfl⟩

lemma trans (h : SameAssets a b) (h' : SameAssets b c) : SameAssets a c :=
  ⟨h'.cash.trans h.cash, h'.sym.trans h.sym, h'.qty.trans h.qty, h'.entry.trans h.entry⟩

lemma positionIn (h : SameAssets a b) (s : ℤ) : b.positionIn md s = a.positionIn md s := by
  unfold AgentState.positionIn AgentState.heldSym
  rw [h.sym, h.qty, h.entry]

end SameAssets

namespace RespectsMask

/-- Doing nothing to what the agent has respects every mask. -/
lemma of_same (h : SameAssets a b) : RespectsMask md t a b :=
  ⟨fun s hs => absurd (h.positionIn s) hs, fun _ _ => h⟩

lemma trans (h : RespectsMask md t a b) (h' : RespectsMask md t b c) : RespectsMask md t a c where
  trades s hs := by
    by_cases hab : b.positionIn md s = a.positionIn md s
    · exact h'.trades s (by rwa [hab])
    · exact h.trades s hab
  frozen hpos hflag := by
    have hab := h.frozen hpos hflag
    refine hab.trans (h'.frozen (by rwa [hab.sym]) ?_)
    rwa [AgentState.heldSym, hab.sym]

/-- An exit in an open market. -/
lemma close (hopen : 0 ≤ a.positionSym → md.flagAt t (a.heldSym md) ≠ 0) {r : AgentState × Bool}
    (h : closePosition md p t a = .ok r) : RespectsMask md t a r.1 := by
  rcases closePosition_cases h with ⟨-, rfl⟩ | ⟨hpos, sym, price, -, -, ⟨-, rfl⟩ | ⟨-, rfl⟩⟩
  · exact of_same .refl
  · exact of_same .hold
  · refine ⟨fun s hs => ?_, fun _ hflag => absurd hflag (hopen hpos)⟩
    have hflat : (a.closedAt p (decide (a.positionSym ≥ md.numSymbols)) price).positionIn md s =
        none := by
      simp [AgentState.positionIn, AgentState.closedAt]
    rw [hflat, AgentState.positionIn] at hs
    split_ifs at hs with hheld
    · rw [← hheld.2]
      exact hopen hpos
    · exact absurd rfl hs

/-- An entry in an open market. -/
lemma enter {isShort : Bool} {sym : ℤ} {alloc level : ℚ} (hflat : a.positionSym < 0)
    (hsym : 0 ≤ sym ∧ sym < md.numSymbols) (hopen : md.flagAt t sym ≠ 0)
    (h : openTarget md p t isShort sym alloc level a = .ok b) : RespectsMask md t a b := by
  refine ⟨fun s hs => ?_, fun hpos => absurd hpos (not_le.mpr hflat)⟩
  rcases openTarget_cases h with rfl | ⟨f, q, -, rfl⟩
  · exact absurd rfl hs
  · have hnone : a.positionIn md s = none := if_neg fun hheld => absurd hheld.1 (not_le.mpr hflat)
    rw [hnone, AgentState.positionIn] at hs
    split_ifs at hs with hheld
    · have htarget : (a.entered md p isShort sym f q).heldSym md = sym := by
        cases isShort <;> simp [AgentState.heldSym, AgentState.entered, targetPosId,
          Int.emod_eq_of_lt hsym.1 hsym.2]
      rw [← hheld.2, htarget]
      exact hopen
    · exact absurd rfl hs

end RespectsMask

/-! ## The stages of a step -/

/-- The market of the held symbol, as the code reads it. -/
lemma flag_of_held {sym : ℤ} {isOpen : Bool} (hpos : 0 ≤ ag.positionSym)
    (hsym : cmod ag.positionSym md.numSymbols = .ok sym) (h : isTradable md t sym = .ok isOpen) :
    isOpen = true ↔ md.flagAt t (ag.heldSym md) ≠ 0 := by
  rw [AgentState.heldSym, ← cmod_positionSym hpos hsym]
  exact flag_of_isTradable h

/-- **The forced close** asks the mask. -/
theorem forceClose_mask : Ensures (forceClose md p t ag) fun r => RespectsMask md t ag r.1 := by
  intro r h
  unfold forceClose at h
  split at h
  · next hheld =>
    obtain ⟨sym, hsym, h⟩ := bind_eq_ok.mp h
    obtain ⟨isOpen, hopen, h⟩ := bind_eq_ok.mp h
    split at h
    · next hyes =>
      obtain ⟨r', hclose, h⟩ := bind_eq_ok.mp h
      rw [← pure_eq_ok.mp h]
      exact .close (fun hpos => (flag_of_held hpos hsym hopen).mp hyes) hclose
    · rw [← pure_eq_ok.mp h]
      exact .of_same .refl
  · rw [← pure_eq_ok.mp h]
    exact .of_same .refl

/-- What `cur_tradable` says of the held symbol. -/
lemma flag_of_curTradable {tradable : Bool} (h : curTradable md t ag = .ok tradable)
    (hpos : 0 ≤ ag.positionSym) : tradable = true ↔ md.flagAt t (ag.heldSym md) ≠ 0 := by
  rw [curTradable, if_pos hpos] at h
  obtain ⟨sym, hsym, h⟩ := bind_eq_ok.mp h
  exact flag_of_held hpos hsym h

/-- Going flat asks the mask. -/
lemma goFlat_mask {tradable : Bool} (htradable : curTradable md t ag = .ok tradable) :
    Ensures (goFlat md p t tradable ag) fun r => RespectsMask md t ag r.1 := by
  intro r h
  unfold goFlat at h
  split_ifs at h with hpos hopen
  · obtain ⟨r', hclose, h⟩ := bind_eq_ok.mp h
    rw [← pure_eq_ok.mp h]
    exact .close (fun hpos => (flag_of_curTradable htradable hpos).mp hopen) hclose
  · rw [← pure_eq_ok.mp h]
    exact .of_same .hold
  · rw [← pure_eq_ok.mp h]
    exact .of_same .refl

/-- An order of a flat agent in an open market. -/
lemma enterTarget_mask {isShort : Bool} {sym : ℤ} (hflat : ag.positionSym < 0)
    (hsym : 0 ≤ sym ∧ sym < md.numSymbols) (hopen : md.flagAt t sym ≠ 0) (alloc level : ℚ)
    (rng : UInt64) (events : ℤ) :
    Ensures (enterTarget md p t isShort sym alloc level ag rng events) fun r =>
      RespectsMask md t ag r.1 := by
  intro r h
  unfold enterTarget at h
  dsimp only at h
  split_ifs at h with hfill
  · obtain ⟨ag', hag, h⟩ := bind_eq_ok.mp h
    rw [← pure_eq_ok.mp h]
    exact .enter hflat hsym hopen hag
  · rw [← pure_eq_ok.mp h]
    exact .of_same .refl

/-- A switch asks the mask for the symbol that is held, and for the target. -/
lemma goTarget_mask {tradable isShort : Bool} {sym : ℤ}
    (htradable : curTradable md t ag = .ok tradable) (hsym : 0 ≤ sym ∧ sym < md.numSymbols)
    (allocIdx levelIdx : ℤ) (rng : UInt64) :
    Ensures (goTarget md p t tradable isShort sym allocIdx levelIdx ag rng) fun r =>
      RespectsMask md t ag r.1 := by
  unfold goTarget
  refine Ensures.self.bind fun alloc _ => Ensures.self.bind fun level _ => ?_
  refine Ensures.self.bind fun targetOpen htarget => ?_
  refine Ensures.ite (fun _ => Ensures.pure (.of_same .hold)) fun _ => ?_
  refine Ensures.ite (fun _ => Ensures.pure ?_) fun hopen => ?_
  · dsimp only
    split_ifs
    · exact .of_same .hold
    · exact .of_same .refl
  have htargetFlag : md.flagAt t sym ≠ 0 :=
    (flag_of_isTradable htarget).mp (by simpa using hopen)
  refine Ensures.ite (fun _ => Ensures.pure (.of_same .hold)) fun hheld => ?_
  refine Ensures.ite (fun hpos => ?_) fun hflat => ?_
  · have htr : tradable = true := by
      by_contra hno
      exact hheld ⟨hpos, by simpa using hno⟩
    refine Ensures.self.bind fun r hclose => ?_
    have hclosed : RespectsMask md t ag r.1 :=
      .close (fun hpos => (flag_of_curTradable htradable hpos).mp htr) hclose
    dsimp only
    refine Ensures.ite (fun hgone => ?_) fun _ => Ensures.pure hclosed
    have hflat : r.1.positionSym < 0 := (closePosition_traced r hclose).2 hgone
    exact (enterTarget_mask hflat hsym htargetFlag _ _ _ _).mono fun _ h => hclosed.trans h
  · exact enterTarget_mask (not_le.mp hflat) hsym htargetFlag _ _ _ _

/-- **The action** asks the mask, whatever it is. -/
theorem applyAction_mask {tradable : Bool} (htradable : curTradable md t ag = .ok tradable)
    (action : ℤ) (rng : UInt64) : Ensures (applyAction md p t tradable action ag rng) fun r =>
      RespectsMask md t ag r.1 := by
  unfold applyAction
  refine (decodeAction_returns p md.numSymbols action).ensures.bind fun d hd => ?_
  cases d with
  | flat => exact (goFlat_mask htradable).bind fun r hr => Ensures.pure hr
  | target isShort sym allocIdx levelIdx => exact goTarget_mask htradable hd _ _ _
  | invalid => exact Ensures.pure (.of_same .refl)

/-- Trading a bar is the forced close, and the action on what is left. -/
theorem executeBar_mask {rng : UInt64} {action : ℤ} {x : Executed}
    (h : executeBar md p ag rng action = .ok x) :
    ∃ forced, forceClose md p (tradeRow md ag) ag = .ok forced ∧
      RespectsMask md (tradeRow md ag) ag forced.1 ∧
      RespectsMask md (tradeRow md ag) forced.1 x.agent := by
  obtain ⟨forced, hforced, h⟩ := bind_eq_ok.mp h
  obtain ⟨tradable, htradable, h⟩ := bind_eq_ok.mp h
  obtain ⟨anyTradable, -, h⟩ := bind_eq_ok.mp h
  obtain ⟨equity, -, h⟩ := bind_eq_ok.mp h
  obtain ⟨r, hr, h⟩ := bind_eq_ok.mp h
  rw [← pure_eq_ok.mp h]
  exact ⟨forced, hforced, forceClose_mask _ hforced, applyAction_mask htradable _ _ r hr⟩

/-- Marking changes the cash by the borrow fee, and nothing else of the assets. -/
lemma markToMarket_assets {x : Executed} {m : Marked} (h : markToMarket md p x = .ok m) :
    ∃ fee, borrowFee md p (tradeRow md x.agent.tick) x.agent.tick = .ok fee ∧
      SameAssets (x.agent.charge fee) m.agent := by
  obtain ⟨equity, -, h⟩ := bind_eq_ok.mp h
  obtain ⟨fee, hfee, h⟩ := bind_eq_ok.mp h
  obtain ⟨ret, -, h⟩ := bind_eq_ok.mp h
  obtain ⟨r, hr, h⟩ := bind_eq_ok.mp h
  obtain ⟨dd, hagent, -⟩ := trackDrawdown_eq_ok hr
  rw [← pure_eq_ok.mp h, hagent]
  exact ⟨fee, hfee, ⟨rfl, rfl, rfl, rfl⟩⟩

/-- **Closed markets.** In every step, from any state and with any action: the forced close, the
action and the marking change the position in a symbol only where the mask has it open at the row
that is traded. An agent whose held symbol is closed there keeps its position, and its cash up to
the borrow fee. A step that does not end the episode goes on with the marked agent. -/
theorem cStep_mask (lm : Libm) (md : MarketData) (p : Params) (env env' : EnvState) (action : ℤ)
    (h : cStep lm md p env action = .ok env') :
    ∃ forced x m, forceClose md p (tradeRow md env.agent) env.agent = .ok forced ∧
      executeBar md p env.agent env.rng action = .ok x ∧ markToMarket md p x = .ok m ∧
      (env'.terminal = false → env'.agent = { m.agent with prevRet := m.ret }) ∧
      (∀ s, forced.1.positionIn md s ≠ env.agent.positionIn md s ∨
          x.agent.positionIn md s ≠ forced.1.positionIn md s ∨
          m.agent.positionIn md s ≠ x.agent.positionIn md s →
        md.flagAt (tradeRow md env.agent) s ≠ 0 ∧
          (md.Flags → md.flagAt (tradeRow md env.agent) s = 1)) ∧
      (0 ≤ env.agent.positionSym →
        md.flagAt (tradeRow md env.agent) (env.agent.heldSym md) = 0 →
          ∃ fee, borrowFee md p (tradeRow md x.agent.tick) x.agent.tick = .ok fee ∧
            SameAssets (env.agent.charge fee) m.agent) := by
  obtain ⟨x, m, hx, hm, hcases⟩ := cStep_cases h
  obtain ⟨forced, hforced, hclose, hact⟩ := executeBar_mask hx
  obtain ⟨fee, hfee, hmarked⟩ := markToMarket_assets hm
  refine ⟨forced, x, m, hforced, hx, hm, ?_, ?_, ?_⟩
  · intro hlive
    rcases hcases with ⟨hdone, -⟩ | ⟨-, hagent, -⟩
    · rw [hlive] at hdone
      cases hdone
    · exact hagent
  · intro s hs
    have hflag : md.flagAt (tradeRow md env.agent) s ≠ 0 := by
      rcases hs with hs | hs | hs
      · exact hclose.trades s hs
      · exact hact.trades s hs
      · exact absurd (hmarked.positionIn s) hs
    exact ⟨hflag, fun hflags => (hflags _ s).resolve_left hflag⟩
  · intro hpos hclosed
    have hkept := (hclose.trans hact).frozen hpos hclosed
    refine ⟨fee, hfee, ?_, hmarked.sym.trans hkept.sym, hmarked.qty.trans hkept.qty,
      hmarked.entry.trans hkept.entry⟩
    rw [hmarked.cash]
    simp only [AgentState.charge, hkept.cash]

/-- A market that closes at row `2`. -/
def closingMarket : MarketData :=
  { rowMarket 9 fun _ => 100 with tradable := some fun t _ => if t < 2 then 1 else 0 }

/-- A hold limit of one bar, and episodes that start at row `0`. -/
def oneBarHold : Params := { keelEnvCreate with forcedOffset := 0, maxHoldHours := 1 }

/-- A long that is due for a forced close, and is asked to go flat, is kept in a closed market. -/
theorem cStep_mask_long :
    ∃ env env', episode .firstOrder closingMarket oneBarHold (.zero 7) [1, 1] = .ok env ∧
      cStep .firstOrder closingMarket oneBarHold env 0 = .ok env' ∧ env.agent.positionSym = 0 ∧
      env'.agent.positionSym = 0 ∧ env'.agent.positionQty = env.agent.positionQty ∧
      env'.agent.cash = env.agent.cash := by
  obtain ⟨r, hrun, htest⟩ := exists_of_toOption (x := do
      let env ← episode .firstOrder closingMarket oneBarHold (.zero 7) [1, 1]
      let env' ← cStep .firstOrder closingMarket oneBarHold env 0
      pure (env, env'))
    (P := fun r => !r.2.terminal && decide (r.1.agent.positionSym = 0 ∧
      closingMarket.flagAt (tradeRow closingMarket r.1.agent)
        (r.1.agent.heldSym closingMarket) = 0)) (by decide +kernel)
  obtain ⟨env, henv, hrun⟩ := bind_eq_ok.mp hrun
  obtain ⟨env', henv', hrun⟩ := bind_eq_ok.mp hrun
  rw [← pure_eq_ok.mp hrun, Bool.and_eq_true, Bool.not_eq_true', decide_eq_true_iff] at htest
  obtain ⟨hlive, hsym, hclosed⟩ := htest
  obtain ⟨forced, x, m, -, -, -, hagent, -, hfrozen⟩ :=
    cStep_mask .firstOrder closingMarket oneBarHold env env' 0 henv'
  obtain ⟨fee, hfee, hkept⟩ := hfrozen hsym.ge hclosed
  rw [borrowFee_of_apr _ _ _ rfl] at hfee
  cases hfee
  refine ⟨env, env', henv, henv', hsym, ?_⟩
  rw [hagent hlive]
  exact ⟨hkept.sym.trans hsym, hkept.qty, hkept.cash⟩

end KeelTrader.Sim
