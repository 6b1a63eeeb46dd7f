import KeelTrader.Sim.Bindings
import KeelTrader.Sim.HoldClock

set_option relaxedAutoImplicit false
set_option autoImplicit false

/-!
# The action space

The decoding of `c_step`, read backwards. An action above `0` is a number in mixed radix: its
digits are the side, the symbol, the allocation bin and the level bin, in this order. So every
target has exactly one action, and every other integer opens nothing.

## Main definitions

* `KeelTrader.Sim.actionOf` — the action of a target.
* `KeelTrader.Sim.targets` — the targets of an action space, as the decoding returns them.
* `KeelTrader.Sim.OpensNothing` — the position was kept or closed.

## Main results

* `KeelTrader.Sim.decodeAction_actionOf` — the decoding inverts `actionOf`.
* `KeelTrader.Sim.decodeAction_bijOn` — the actions above `0` are the targets.
* `KeelTrader.Sim.cStep_opensNothing` — the other integers open nothing.
-/

namespace KeelTrader.Sim

open Checked

/-! ## Targets and their actions -/

/-- The action of a target, with `ab` allocation bins and `lb` level bins. -/
def actionOf (numSymbols : ℕ) (ab lb : ℤ) (isShort : Bool) (sym allocIdx levelIdx : ℤ) : ℤ :=
  1 + (if isShort then numSymbols * (ab * lb) else 0) + (levelIdx + lb * (allocIdx + ab * sym))

/-- The target is in the data, and its bins are there. -/
def IsTarget (numSymbols : ℕ) (ab lb sym allocIdx levelIdx : ℤ) : Prop :=
  (0 ≤ sym ∧ sym < numSymbols) ∧ (0 ≤ allocIdx ∧ allocIdx < ab) ∧ (0 ≤ levelIdx ∧ levelIdx < lb)

/-- The decodings of the targets. -/
def targets (numSymbols : ℕ) (ab lb : ℤ) : Set (Checked Decoded) :=
  {d | ∃ isShort sym allocIdx levelIdx, IsTarget numSymbols ab lb sym allocIdx levelIdx ∧
    d = .ok (.target isShort sym allocIdx levelIdx)}

section Decode

variable {p : Params} {S : ℕ} {ab lb sym allocIdx levelIdx : ℤ}

/-- The offset of a target within its side. -/
lemma target_offset (h : IsTarget S ab lb sym allocIdx levelIdx) :
    0 ≤ levelIdx + lb * (allocIdx + ab * sym) ∧
      levelIdx + lb * (allocIdx + ab * sym) < S * (ab * lb) := by
  obtain ⟨⟨hsym, hsymS⟩, ⟨halloc, hallocab⟩, hlevel, hlevellb⟩ := h
  have hab : 0 ≤ ab := halloc.trans hallocab.le
  have hlb : 0 ≤ lb := hlevel.trans hlevellb.le
  have hrow : 0 ≤ allocIdx + ab * sym := add_nonneg halloc (mul_nonneg hab hsym)
  refine ⟨add_nonneg hlevel (mul_nonneg hlb hrow), ?_⟩
  have hcolumn : allocIdx + ab * sym + 1 ≤ ab * S := by
    calc allocIdx + ab * sym + 1 ≤ ab * (sym + 1) := by linarith
      _ ≤ ab * S := mul_le_mul_of_nonneg_left (by omega) hab
  calc levelIdx + lb * (allocIdx + ab * sym) < lb * (allocIdx + ab * sym + 1) := by linarith
    _ ≤ lb * (ab * S) := mul_le_mul_of_nonneg_left hcolumn hlb
    _ = S * (ab * lb) := by ring

/-- The decoding of an offset, digit by digit. -/
lemma digits_iff (hab : 1 ≤ ab) (hlb : 1 ≤ lb) {offset : ℤ} (hoffset : 0 ≤ offset)
    (hlt : offset < S * (ab * lb)) :
    (offset / (ab * lb) = sym ∧ offset % (ab * lb) / lb = allocIdx ∧
        offset % (ab * lb) % lb = levelIdx) ↔
      IsTarget S ab lb sym allocIdx levelIdx ∧ offset = levelIdx + lb * (allocIdx + ab * sym) := by
  have hblock : 0 < ab * lb := mul_pos (by omega) (by omega)
  constructor
  · rintro ⟨rfl, rfl, rfl⟩
    have hrem := Int.emod_nonneg offset hblock.ne'
    have hremlt := Int.emod_lt_of_pos offset hblock
    refine ⟨⟨⟨Int.ediv_nonneg hoffset hblock.le, Int.ediv_lt_of_lt_mul hblock hlt⟩,
      ⟨Int.ediv_nonneg hrem (by omega), Int.ediv_lt_of_lt_mul (by omega) hremlt⟩,
      Int.emod_nonneg _ (by omega), Int.emod_lt_of_pos _ (by omega)⟩, ?_⟩
    have houter := Int.emod_add_mul_ediv offset (ab * lb)
    have hinner := Int.emod_add_mul_ediv (offset % (ab * lb)) lb
    linear_combination -houter - hinner
  · rintro ⟨⟨hsym, halloc, hlevel⟩, rfl⟩
    have hrem : 0 ≤ levelIdx + lb * allocIdx ∧ levelIdx + lb * allocIdx < ab * lb := by
      refine ⟨add_nonneg hlevel.1 (mul_nonneg (by omega) halloc.1), ?_⟩
      have hle : lb * (allocIdx + 1) ≤ lb * ab := mul_le_mul_of_nonneg_left halloc.2 (by omega)
      linarith [hlevel.2]
    obtain ⟨hdiv, hmod⟩ := (Int.ediv_emod_unique (q := sym) (r := levelIdx + lb * allocIdx)
      hblock).mpr ⟨rfl, hrem.1, hrem.2⟩
    obtain ⟨hdiv', hmod'⟩ := (Int.ediv_emod_unique (q := allocIdx) (r := levelIdx)
      (show (0 : ℤ) < lb by omega)).mpr ⟨rfl, hlevel.1, hlevel.2⟩
    have hsplit : levelIdx + lb * (allocIdx + ab * sym) =
        levelIdx + lb * allocIdx + ab * lb * sym := by ring
    rw [hsplit, hdiv, hmod, hdiv', hmod']
    exact ⟨rfl, rfl, rfl⟩

/-- An action is a side and an offset within it. -/
lemma exists_side {side action : ℤ} (h : 1 ≤ action ∧ action ≤ 2 * side) :
    ∃ (isShort : Bool) (offset : ℤ), 0 ≤ offset ∧ offset < side ∧
      action = 1 + (if isShort then side else 0) + offset := by
  by_cases hside : action - 1 < side
  · exact ⟨false, action - 1, by omega, hside, by simp⟩
  · refine ⟨true, action - 1 - side, by omega, by omega, ?_⟩
    rw [if_pos rfl]
    ring

variable (hab : 1 ≤ p.actionAllocationBins) (hlb : 1 ≤ p.actionLevelBins)

include hab hlb

/-- The decoding of a side and an offset within it. -/
lemma decodeAction_side (isShort : Bool) {offset : ℤ} (hoffset : 0 ≤ offset)
    (hlt : offset < S * (p.actionAllocationBins * p.actionLevelBins)) :
    decodeAction p S (1 + (if isShort then S * (p.actionAllocationBins * p.actionLevelBins) else 0)
        + offset) =
      .ok (.target isShort (offset / (p.actionAllocationBins * p.actionLevelBins))
        (offset % (p.actionAllocationBins * p.actionLevelBins) / p.actionLevelBins)
        (offset % (p.actionAllocationBins * p.actionLevelBins) % p.actionLevelBins)) := by
  have hblock : p.actionAllocationBins * p.actionLevelBins ≠ 0 :=
    (mul_pos (by omega) (by omega)).ne'
  have hlevel : p.actionLevelBins ≠ 0 := by omega
  have hrem := Int.emod_nonneg offset hblock
  unfold decodeAction
  rw [if_neg (not_lt.mpr hab), if_neg (not_lt.mpr hlb)]
  dsimp only
  generalize p.actionAllocationBins * p.actionLevelBins = perSymbol at *
  generalize (S : ℤ) * perSymbol = side at *
  -- the offset that the decoding recovers
  have hidx : (if decide (1 + (if isShort then side else 0) + offset - 1 ≥ side) = true then
      1 + (if isShort then side else 0) + offset - 1 - side
      else 1 + (if isShort then side else 0) + offset - 1) = offset := by
    cases isShort <;> simp <;> omega
  have hside : decide (1 + (if isShort then side else 0) + offset - 1 ≥ side) = isShort := by
    cases isShort <;> simp <;> omega
  rw [if_neg (by cases isShort <;> simp <;> omega), if_pos (by cases isShort <;> simp <;> omega),
    hidx, hside, cdiv_of_ne hblock,
    cmod_of_ne hblock, Int.tdiv_eq_ediv_of_nonneg hoffset, Int.tmod_eq_emod_of_nonneg hoffset]
  show (cdiv (offset % perSymbol) p.actionLevelBins >>= fun allocIdx =>
    cmod (offset % perSymbol) p.actionLevelBins >>= fun levelIdx =>
      pure (Decoded.target isShort (offset / perSymbol) allocIdx levelIdx)) = _
  rw [cdiv_of_ne hlevel, cmod_of_ne hlevel, Int.tdiv_eq_ediv_of_nonneg hrem,
    Int.tmod_eq_emod_of_nonneg hrem]
  rfl

/-- **Decoding.** The decoding inverts `actionOf`. -/
theorem decodeAction_actionOf (isShort : Bool)
    (h : IsTarget S p.actionAllocationBins p.actionLevelBins sym allocIdx levelIdx) :
    decodeAction p S (actionOf S p.actionAllocationBins p.actionLevelBins isShort sym allocIdx
      levelIdx) = .ok (.target isShort sym allocIdx levelIdx) := by
  obtain ⟨hoffset, hlt⟩ := target_offset h
  obtain ⟨hsym, halloc, hlevel⟩ := (digits_iff hab hlb hoffset hlt).mpr ⟨h, rfl⟩
  unfold actionOf
  rw [decodeAction_side hab hlb isShort hoffset hlt, hsym, halloc, hlevel]

/-- Every action above `0` is the action of a target. -/
lemma exists_actionOf {action : ℤ} (h : 1 ≤ action ∧
    action ≤ 2 * (S * (p.actionAllocationBins * p.actionLevelBins))) :
    ∃ isShort sym allocIdx levelIdx,
      IsTarget S p.actionAllocationBins p.actionLevelBins sym allocIdx levelIdx ∧
      action = actionOf S p.actionAllocationBins p.actionLevelBins isShort sym allocIdx
        levelIdx := by
  obtain ⟨isShort, offset, hoffset, hlt, rfl⟩ := exists_side h
  obtain ⟨htarget, hdigits⟩ := (digits_iff hab hlb hoffset hlt).mp ⟨rfl, rfl, rfl⟩
  refine ⟨isShort, _, _, _, htarget, ?_⟩
  unfold actionOf
  rw [← hdigits]

/-- **Bijection.** The actions above `0` are the targets, one to one. -/
theorem decodeAction_bijOn : Set.BijOn (decodeAction p S)
    (Set.Icc 1 (2 * (S * (p.actionAllocationBins * p.actionLevelBins))))
    (targets S p.actionAllocationBins p.actionLevelBins) := by
  refine ⟨fun action ha => ?_, fun action ha action' ha' heq => ?_, ?_⟩
  · obtain ⟨isShort, sym, allocIdx, levelIdx, htarget, rfl⟩ := exists_actionOf hab hlb ha
    exact ⟨_, _, _, _, htarget, decodeAction_actionOf hab hlb _ htarget⟩
  · obtain ⟨isShort, sym, allocIdx, levelIdx, htarget, rfl⟩ := exists_actionOf hab hlb ha
    obtain ⟨isShort', sym', allocIdx', levelIdx', htarget', rfl⟩ := exists_actionOf hab hlb ha'
    rw [decodeAction_actionOf hab hlb _ htarget, decodeAction_actionOf hab hlb _ htarget'] at heq
    cases heq
    rfl
  · rintro _ ⟨isShort, sym, allocIdx, levelIdx, htarget, rfl⟩
    refine ⟨_, ?_, decodeAction_actionOf hab hlb _ htarget⟩
    obtain ⟨hoffset, hlt⟩ := target_offset htarget
    unfold actionOf
    constructor <;> cases isShort <;> simp <;> omega

/-- The other integers are no targets. -/
lemma decodeAction_ne_target {action : ℤ} {isShort : Bool}
    (h : ¬(1 ≤ action ∧ action ≤ 2 * (S * (p.actionAllocationBins * p.actionLevelBins)))) :
    decodeAction p S action ≠ .ok (.target isShort sym allocIdx levelIdx) := by
  unfold decodeAction
  rw [if_neg (not_lt.mpr hab), if_neg (not_lt.mpr hlb)]
  dsimp only
  rw [if_neg h]
  split <;> exact fun hok => by cases hok

end Decode

/-! ## Actions that open nothing -/

/-- The position was kept as it was, or closed. -/
def OpensNothing (ag ag' : AgentState) : Prop :=
  (ag'.positionSym = ag.positionSym ∧ ag'.positionQty = ag.positionQty ∧
    ag'.entryPrice = ag.entryPrice) ∨ ag'.positionSym = -1

section Step

variable {lm : Libm} {md : MarketData} {p : Params} {env env' : EnvState} {ag : AgentState}
  {action : ℤ}

/-- Holding and closing open nothing. -/
lemma opensNothingInvariant (md : MarketData) (p : Params) (ag : AgentState) :
    SideInvariant md p (fun _ => False) (OpensNothing ag) where
  hold _ _ h := h
  closed t ag ag' hclose _ := by
    obtain ⟨-, sym, price, -, -, rfl⟩ := closedAt_of_close hclose
    exact .inr rfl
  opened _ _ _ _ _ _ _ hside := hside.elim

/-- Marking leaves the quantity and the entry price alone. -/
lemma markToMarket_entry (x : Executed) : Ensures (markToMarket md p x) fun m =>
    m.agent.positionQty = x.agent.positionQty ∧ m.agent.entryPrice = x.agent.entryPrice := by
  unfold markToMarket
  refine Ensures.self.bind fun equity _ => Ensures.self.bind fun bfee _ => ?_
  refine Ensures.self.bind fun ret _ => Ensures.self.bind fun r hr => Ensures.pure ?_
  obtain ⟨dd, hagent, -⟩ := trackDrawdown_eq_ok hr
  rw [hagent]
  exact ⟨rfl, rfl⟩

/-- **Opening.** A step opens a position only for an action between `1` and `2 * side_block`. -/
theorem cStep_opensNothing (hab : 1 ≤ p.actionAllocationBins) (hlb : 1 ≤ p.actionLevelBins)
    (haction : ¬(1 ≤ action ∧
      action ≤ 2 * (md.numSymbols * (p.actionAllocationBins * p.actionLevelBins))))
    (h : cStep lm md p env action = .ok env') :
    (∃ x, executeBar md p env.agent env.rng action = .ok x ∧ OpensNothing env.agent x.agent) ∧
      OpensNothing env.agent env'.agent := by
  have hside : OnSide p md.numSymbols (fun _ => False) action :=
    fun _ _ _ _ hd => decodeAction_ne_target hab hlb haction hd
  obtain ⟨x, m, hx, hm, hend⟩ := cStep_cases h
  have htraded : OpensNothing env.agent x.agent :=
    (opensNothingInvariant md p env.agent).executeBar hside env.rng (.inl ⟨rfl, rfl, rfl⟩) x hx
  refine ⟨⟨x, hx, htraded⟩, ?_⟩
  rcases hend with ⟨-, hagent, -⟩ | ⟨-, hagent, -⟩
  · rw [hagent]
    exact .inr rfl
  · obtain ⟨hsym, -⟩ := markToMarket_position x m hm
    obtain ⟨hqty, hentry⟩ := markToMarket_entry x m hm
    rw [hagent]
    simpa only [OpensNothing, hsym, hqty, hentry] using htraded

end Step

end KeelTrader.Sim
