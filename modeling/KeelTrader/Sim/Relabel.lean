import KeelTrader.Lib.Lockstep
import KeelTrader.Sim.ActionSpace

set_option relaxedAutoImplicit false
set_option autoImplicit false

/-!
# Names and units of symbols

A symbol is an index into the data, and its prices are quoted per share. Neither choice is seen
by a trader: when the symbols are listed in another order, and the prices of each are multiplied
by a positive constant of its own (as a split or a change of the quote unit does), then the
relabelled actions earn the same rewards, end at the same steps and leave the same log. The
observations are the same up to the order of the symbols.

## Main definitions

* `KeelTrader.Sim.Relabelling` — an order of the symbols and a unit for each.
* `KeelTrader.Sim.MarketData.relabel`, `relabelAction` — the market and the actions under it.
* `KeelTrader.Sim.Relabelled`, `Reordered`, `SameUpTo` — the relation between the two runs.

## Main results

* `KeelTrader.Sim.limitFillPrice_scale` — the fill rule has no unit of its own.
* `KeelTrader.Sim.cStep_relabel` — one step of both runs.
* `KeelTrader.Sim.episode_relabel` — whole runs.
-/

namespace KeelTrader.Sim

open Checked

/-! ## Relabellings -/

/-- A new order of `S` symbols, and the constant that the prices of each are multiplied by. -/
structure Relabelling (S : ℕ) where
  name : Equiv.Perm ℕ
  unit : ℕ → ℚ
  name_lt : ∀ s, name s < S ↔ s < S
  unit_pos : ∀ s, 0 < unit s

/-- The factor of a column when a price is multiplied by `u`: the volume counts shares. -/
def PriceFeat.factor (u : ℚ) : PriceFeat → ℚ
  | .pVol => u⁻¹
  | _ => u

/-- The market with symbol `s` renamed to `name s` and quoted in its new unit. -/
def MarketData.relabel (md : MarketData) (r : Relabelling md.numSymbols) : MarketData :=
  { md with
    features := fun t s f => md.features t (r.name.symm s) f
    prices := fun t s k =>
      k.factor (r.unit (r.name.symm s)) * md.prices t (r.name.symm s) k
    tradable := md.tradable.map fun mask t s => mask t (r.name.symm s) }

/-- The parameters with the numbers of bins that the decoding works with. -/
def Params.binned (p : Params) : Params :=
  { p with
    actionAllocationBins := if p.actionAllocationBins < 1 then 1 else p.actionAllocationBins
    actionLevelBins := if p.actionLevelBins < 1 then 1 else p.actionLevelBins }

/-- The action with the same side and bins for the renamed symbol. -/
def relabelAction (p : Params) {S : ℕ} (r : Relabelling S) (action : ℤ) : ℤ :=
  match decodeAction p S action with
  | .ok (.target isShort sym allocIdx levelIdx) =>
    actionOf S p.binned.actionAllocationBins p.binned.actionLevelBins isShort (r.name sym.toNat)
      allocIdx levelIdx
  | _ => action

/-- An observation: the feature block of each symbol, the account, and the position entry of
each symbol. -/
def layout (S : ℕ) (block : ℕ → List ℚ) (account : List ℚ) (held : ℕ → ℚ) : List ℚ :=
  (List.range S).flatMap block ++ account ++ (List.range S).map held

/-! ## The relation between the runs -/

section Relation

variable {S : ℕ} (r : Relabelling S)

/-- The position ids of the two runs, with the unit of the symbol. -/
inductive Renames : ℤ → ℤ → ℚ → Prop where
  | flat : Renames (-1) (-1) 1
  | held (isShort : Bool) {s : ℕ} (hs : s < S) :
    Renames (targetPosId S isShort s) (targetPosId S isShort (r.name s)) (r.unit s)

/-- The agent with its position under another id and in another unit. -/
def AgentState.requoted (pos : ℤ) (u : ℚ) (ag : AgentState) : AgentState :=
  { ag with
    positionSym := pos
    positionQty := ag.positionQty / u
    entryPrice := u * ag.entryPrice }

/-- The second agent holds the same position in the renamed symbol and its unit, and is
otherwise the first one. -/
def Relabelled (a b : AgentState) : Prop :=
  (a.positionSym < 0 → a.positionQty = 0) ∧ ∃ u pos, Renames r a.positionSym pos u ∧
    b = a.requoted pos u

/-- The second observation shows the blocks and position entries of the first in the new order,
and the same account. -/
def Reordered (width : ℕ) (obs obs' : List ℚ) : Prop :=
  ∃ block account held, (∀ s, (block s).length = width) ∧ account.length = 5 ∧
    obs = layout S block account held ∧
    obs' = layout S (fun s => block (r.name.symm s)) account fun s => held (r.name.symm s)

/-- The two environments differ in the names and units of the symbols alone. -/
structure SameUpTo (width : ℕ) (e e' : EnvState) : Prop where
  agent : Relabelled r e.agent e'.agent
  rng : e.rng = e'.rng
  log : e.log = e'.log
  observations : Reordered r width e.observations e'.observations
  reward : e.reward = e'.reward
  terminal : e.terminal = e'.terminal

variable {r}

lemma Renames.unit_pos {pos pos' : ℤ} {u : ℚ} (h : Renames r pos pos' u) : 0 < u := by
  cases h with
  | flat => exact one_pos
  | held => exact r.unit_pos _

/-- Both are flat, or neither is. -/
lemma Renames.nonneg_iff {pos pos' : ℤ} {u : ℚ} (h : Renames r pos pos' u) :
    0 ≤ pos ↔ 0 ≤ pos' := by
  cases h with
  | flat => rfl
  | held isShort hs =>
    cases isShort
    · simp [targetPosId]
    · simp only [targetPosId, if_true]
      omega

/-- Both are short, or neither is. -/
lemma Renames.short_iff {pos pos' : ℤ} {u : ℚ} (h : Renames r pos pos' u) :
    (S : ℤ) ≤ pos ↔ (S : ℤ) ≤ pos' := by
  cases h with
  | flat => rfl
  | @held isShort s hs =>
    have hs' := (r.name_lt s).mpr hs
    cases isShort
    · simp only [targetPosId, Bool.false_eq_true, if_false]
      omega
    · simp [targetPosId]

/-- A position id of a target is not negative. -/
lemma targetPosId_nonneg (isShort : Bool) (s : ℕ) : 0 ≤ targetPosId S isShort s := by
  unfold targetPosId
  split <;> omega

/-- The symbol of a position id. -/
lemma targetPosId_mod {isShort : Bool} {s : ℕ} (hs : s < S) :
    cmod (targetPosId S isShort s) S = .ok (s : ℤ) := by
  rw [cmod_of_ne (by omega), Int.tmod_eq_emod_of_nonneg (targetPosId_nonneg isShort s)]
  congr 1
  cases isShort with
  | false => exact Int.emod_eq_of_lt (by simp [targetPosId]) (by simpa [targetPosId] using hs)
  | true =>
    simp only [targetPosId, if_true, Int.add_emod_left]
    exact Int.emod_eq_of_lt (by omega) (by omega)

/-- A position id stands for one side of one symbol. -/
lemma targetPosId_inj {a b : Bool} {s t : ℕ} (hs : s < S) (ht : t < S) :
    targetPosId S a s = targetPosId S b t ↔ a = b ∧ s = t := by
  cases a <;> cases b <;> simp [targetPosId] <;> omega

/-- The target is held in both runs, or in neither. -/
lemma Renames.target_iff {pos pos' : ℤ} {u : ℚ} (h : Renames r pos pos' u) (isShort : Bool)
    {s : ℕ} (hs : s < S) :
    pos = targetPosId S isShort s ↔ pos' = targetPosId S isShort (r.name s) := by
  cases h with
  | flat =>
    have h := targetPosId_nonneg (S := S) isShort s
    have h' := targetPosId_nonneg (S := S) isShort (r.name s)
    omega
  | @held isShort' s' hs' =>
    rw [targetPosId_inj hs' hs, targetPosId_inj ((r.name_lt s').mpr hs') ((r.name_lt s).mpr hs),
      r.name.injective.eq_iff]

end Relation

/-! ## The fill rule -/

/-- **Units.** The fill rule multiplies with its prices. -/
theorem limitFillPrice_scale {u : ℚ} (hu : 0 < u) (b s l h x : ℚ) (isBuy : Bool) :
    limitFillPrice b s (u * l) (u * h) (u * x) isBuy =
      (limitFillPrice b s l h x isBuy).map (u * ·) := by
  have hrange : barRange (u * l) (u * h) = (u * (barRange l h).1, u * (barRange l h).2) := by
    unfold barRange
    by_cases hlh : l > h
    · rw [if_pos hlh, if_pos (by gcongr)]
    · rw [if_neg hlh, if_neg (by rw [gt_iff_lt, mul_lt_mul_iff_right₀ hu]; exact hlh)]
  have htrigger : buyTrigger b (u * x) = u * buyTrigger b x := by
    unfold buyTrigger
    dsimp only
    rw [mul_assoc]
    by_cases hx : x * (1 - b / 10000) < 0
    · rw [if_pos hx, if_pos (mul_neg_of_pos_of_neg hu hx), mul_zero]
    · rw [if_neg hx, if_neg (by rw [not_lt] at *; positivity)]
  unfold limitFillPrice
  simp only [hrange, htrigger, mul_assoc, gt_iff_lt, mul_lt_mul_iff_right₀ hu]
  cases isBuy <;> simp only [Bool.false_eq_true, if_true, if_false] <;> split_ifs <;> rfl

/-- The guard multiplies with its prices. -/
lemma deathSpiralRefused_scale {u : ℚ} (hu : 0 < u) (p : Params) (sell entry : ℚ) (hold : ℤ)
    (isShort : Bool) : deathSpiralRefused p (u * sell) (u * entry) hold isShort =
      deathSpiralRefused p sell entry hold isShort := by
  have hle (x : ℚ) : u * x ≤ 0 ↔ x ≤ 0 := by
    rw [← mul_zero u, mul_le_mul_iff_right₀ hu, mul_zero]
  unfold deathSpiralRefused
  simp only [hle, mul_assoc, mul_lt_mul_iff_right₀ hu]

/-- The worth of a position has no unit. -/
lemma div_mul_scale {u : ℚ} (hu : 0 < u) (q x : ℚ) : q / u * (u * x) = q * x := by
  field_simp

/-! ## Reads of the market -/

section Trading

variable {lm : Libm} {md : MarketData} {p : Params} {r : Relabelling md.numSymbols} {t : ℤ}
  {a b : AgentState}

/-- A price of the renamed symbol is the old one in the new unit. -/
lemma getPrice_relabel (t : ℤ) {s : ℕ} (hs : s < md.numSymbols) (k : PriceFeat) :
    Lockstep (fun x y => y = k.factor (r.unit s) * x) (getPrice md t s k)
      (getPrice (md.relabel r) t (r.name s) k) := by
  have hs' : r.name s < (md.relabel r).numSymbols := (r.name_lt s).mpr hs
  unfold getPrice
  refine Lockstep.bind_same fun row _ => ?_
  rw [index_of_lt (by omega) (by omega), index_of_lt (by omega) (by omega)]
  refine Lockstep.pure ?_
  simp [MarketData.relabel]

/-- The renamed symbol trades when the old one does. -/
lemma isTradable_relabel (t : ℤ) {s : ℕ} (hs : s < md.numSymbols) :
    Lockstep Eq (isTradable md t s) (isTradable (md.relabel r) t (r.name s)) := by
  have hs' : r.name s < (md.relabel r).numSymbols := (r.name_lt s).mpr hs
  unfold isTradable
  simp only [MarketData.relabel]
  cases md.tradable with
  | none => exact Lockstep.pure rfl
  | some mask =>
    refine Lockstep.bind_same fun row _ => ?_
    rw [index_of_lt (by omega) (by omega), index_of_lt (by omega) (by exact_mod_cast hs')]
    exact Lockstep.pure (by simp)

/-- Both runs go on with the symbol they hold. -/
lemma Renames.bind_symbol {α β : Type} {R : α → β → Prop} {pos pos' : ℤ} {u : ℚ}
    (h : Renames r pos pos' u) (hpos : 0 ≤ pos) {f : ℤ → Checked α} {g : ℤ → Checked β}
    (hfg : ∀ s < md.numSymbols, u = r.unit s → Lockstep R (f s) (g (r.name s))) :
    Lockstep R (cmod pos md.numSymbols >>= f) (cmod pos' md.numSymbols >>= g) := by
  cases h with
  | flat => omega
  | @held isShort s hs =>
    rw [bind_of_eq_ok (targetPosId_mod hs), bind_of_eq_ok (targetPosId_mod ((r.name_lt s).mpr hs))]
    exact hfg s hs rfl

/-- Both runs read a price of the symbol they hold. -/
lemma Renames.bind_price {α β : Type} {R : α → β → Prop} {pos pos' : ℤ} {u : ℚ}
    (h : Renames r pos pos' u) (hpos : 0 ≤ pos) (t : ℤ) (k : PriceFeat) {f : ℤ → ℚ → Checked α}
    {g : ℤ → ℚ → Checked β} (hfg : ∀ s s' x, Lockstep R (f s x) (g s' (k.factor u * x))) :
    Lockstep R
      (cmod pos md.numSymbols >>= fun sym => getPrice md t sym k >>= f sym)
      (cmod pos' md.numSymbols >>= fun sym => getPrice (md.relabel r) t sym k >>= g sym) := by
  refine h.bind_symbol hpos fun s hs hu => ?_
  refine (getPrice_relabel t hs k).bind fun x y hxy => ?_
  rw [hxy, ← hu]
  exact hfg _ _ x

/-! ## Orders -/

/-- The results of two orders. -/
def SameOrder {α : Type} (r : Relabelling md.numSymbols) (x y : AgentState × α) : Prop :=
  Relabelled r x.1 y.1 ∧ x.2 = y.2

lemma Relabelled.hold (h : Relabelled r a b) : Relabelled r a.hold b.hold := by
  obtain ⟨hflat, u, pos, hren, rfl⟩ := h
  exact ⟨hflat, u, pos, hren, rfl⟩

/-- Both positions are closed, each at its own price. -/
lemma closedAt_relabel {u : ℚ} (pos : ℤ) (hu : 0 < u) (isShort : Bool) (price : ℚ) :
    Relabelled r (a.closedAt p isShort price)
      ((a.requoted pos u).closedAt p isShort (u * price)) := by
  have hpnl : (if isShort then u * a.entryPrice - u * price else u * price - u * a.entryPrice) =
      u * (if isShort then a.entryPrice - price else price - a.entryPrice) := by
    split <;> ring
  refine ⟨fun _ => rfl, 1, -1, .flat, ?_⟩
  simp only [AgentState.closedAt, AgentState.requoted, hpnl, div_mul_scale hu, gt_iff_lt,
    mul_pos_iff_of_pos_left hu, zero_div, mul_zero]

/-- Exits. -/
lemma closePosition_relabel (t : ℤ) (h : Relabelled r a b) :
    Lockstep (SameOrder r) (closePosition md p t a) (closePosition (md.relabel r) p t b) := by
  obtain ⟨hflat, u, pos, hren, rfl⟩ := h
  have hnonneg := hren.nonneg_iff
  unfold closePosition
  refine Lockstep.ite (by show a.positionSym < 0 ↔ pos < 0; omega)
    (fun _ => Lockstep.pure ⟨⟨hflat, u, pos, hren, rfl⟩, rfl⟩) fun hpos => ?_
  refine hren.bind_price (not_lt.mp hpos) t .pOpen fun s s' price => ?_
  have hshort : decide (pos ≥ (md.numSymbols : ℤ)) = decide (a.positionSym ≥ md.numSymbols) :=
    decide_eq_decide.mpr hren.short_iff.symm
  have hguard := deathSpiralRefused_scale hren.unit_pos p price a.entryPrice a.holdHours
    (decide (pos ≥ (md.numSymbols : ℤ)))
  refine Lockstep.ite ?_ (fun _ => Lockstep.pure ⟨?_, rfl⟩) fun _ => Lockstep.pure ⟨?_, rfl⟩
  · rw [← hshort, ← hguard]
    rfl
  · exact ⟨hflat, u, pos, hren, rfl⟩
  · rw [← hshort]
    exact closedAt_relabel pos hren.unit_pos _ _

/-- Orders are sized alike: the fill price in the new unit, and as many shares as cost the same. -/
lemma sizedFill_relabel (t : ℤ) {s : ℕ} (hs : s < md.numSymbols) (alloc level : ℚ) (isBuy : Bool)
    (cash : ℚ) :
    Lockstep (fun x y => y = x.map fun fq : ℚ × ℚ => (r.unit s * fq.1, fq.2 / r.unit s))
      (sizedFill md p t s alloc level isBuy cash)
      (sizedFill (md.relabel r) p t (r.name s) alloc level isBuy cash) := by
  have hu := r.unit_pos s
  have hle (x : ℚ) : r.unit s * x ≤ 0 ↔ x ≤ 0 := by
    rw [← mul_zero (r.unit s), mul_le_mul_iff_right₀ hu, mul_zero]
  unfold sizedFill resolveLimitFillPrice
  refine (getPrice_relabel t hs _).bind fun ref ref' href => ?_
  subst href
  have htarget := mul_assoc (r.unit s) ref (1 + level / 10000)
  dsimp only [PriceFeat.factor]
  simp only [htarget, hle]
  refine Lockstep.ite Iff.rfl (fun _ => Lockstep.pure rfl) fun _ => ?_
  refine Lockstep.ite Iff.rfl (fun _ => Lockstep.pure rfl) fun _ => ?_
  refine Lockstep.bind (R := fun x y => y = x.map (r.unit s * ·)) ?_ fun fill fill' hfill => ?_
  · refine (getPrice_relabel t hs _).bind fun low low' hlow => ?_
    refine (getPrice_relabel t hs _).bind fun high high' hhigh => ?_
    subst hlow hhigh
    exact Lockstep.pure (limitFillPrice_scale hu _ _ _ _ _ _)
  subst hfill
  cases fill with
  | none => exact Lockstep.pure rfl
  | some f =>
    have hcost := mul_assoc (r.unit s) f (1 + p.feeRate)
    dsimp only [Option.map]
    simp only [hcost, hle]
    refine Lockstep.ite Iff.rfl (fun _ => Lockstep.pure rfl) fun _ => ?_
    refine Lockstep.ite Iff.rfl (fun _ => Lockstep.pure rfl) fun _ => ?_
    refine Lockstep.ite Iff.rfl (fun _ => Lockstep.pure rfl) fun hdenom => ?_
    have hdenom' : f * (1 + p.feeRate) ≠ 0 := by linarith
    have hqty (x : ℚ) : x / (r.unit s * (f * (1 + p.feeRate))) =
        x / (f * (1 + p.feeRate)) / r.unit s := by rw [div_div, mul_comm (r.unit s)]
    rw [bind_of_eq_ok (fdiv_of_ne hdenom'), bind_of_eq_ok (fdiv_of_ne (mul_ne_zero hu.ne' hdenom')),
      hqty]
    refine Lockstep.ite ?_ (fun _ => Lockstep.pure rfl) fun _ => Lockstep.pure rfl
    rw [div_le_iff₀ hu, zero_mul]

/-- A booked order, in both runs. -/
lemma booked_relabel (isShort : Bool) {s : ℕ} (hs : s < md.numSymbols) (h : Relabelled r a b)
    (f q : ℚ) (cash : ℚ) :
    Relabelled r
      { a with
        cash := cash
        positionSym := targetPosId md.numSymbols isShort s
        positionQty := q
        entryPrice := f
        holdHours := 0 }
      { b with
        cash := cash
        positionSym := targetPosId md.numSymbols isShort (r.name s)
        positionQty := q / r.unit s
        entryPrice := r.unit s * f
        holdHours := 0 } := by
  obtain ⟨-, u, pos, -, rfl⟩ := h
  refine ⟨fun hneg => ?_, r.unit s, _, .held isShort hs, rfl⟩
  exact absurd hneg (not_lt.mpr (targetPosId_nonneg isShort s))

/-- Entries. -/
lemma openTarget_relabel (t : ℤ) (isShort : Bool) {s : ℕ} (hs : s < md.numSymbols)
    (alloc level : ℚ) (h : Relabelled r a b) :
    Lockstep (Relabelled r) (openTarget md p t isShort s alloc level a)
      (openTarget (md.relabel r) p t isShort (r.name s) alloc level b) := by
  have hcash : b.cash = a.cash := by
    obtain ⟨-, u, pos, -, rfl⟩ := h
    rfl
  have hu := r.unit_pos s
  unfold openTarget openShort openLong
  rw [hcash]
  refine Lockstep.ite Iff.rfl (fun hshort => ?_) fun hshort => ?_
  · refine (sizedFill_relabel t hs alloc level false a.cash).bind fun fill fill' hfill => ?_
    subst hfill
    cases fill with
    | none => exact Lockstep.pure h
    | some fq =>
      have hbook := booked_relabel true hs h fq.1 fq.2
        (a.cash + fq.2 * fq.1 * (1 - p.feeRate))
      dsimp only [Option.map]
      rw [div_mul_scale hu]
      exact Lockstep.pure hbook
  · refine (sizedFill_relabel t hs alloc level true a.cash).bind fun fill fill' hfill => ?_
    subst hfill
    cases fill with
    | none => exact Lockstep.pure h
    | some fq =>
      have hbook := booked_relabel false hs h fq.1 fq.2
        (a.cash - fq.2 * (fq.1 * (1 + p.feeRate)))
      dsimp only [Option.map]
      rw [mul_assoc (r.unit s), div_mul_scale hu]
      exact Lockstep.ite Iff.rfl (fun _ => Lockstep.pure h) fun _ => Lockstep.pure hbook

/-! ## Actions -/

/-- The held symbol trades in both runs, or in neither. -/
lemma curTradable_relabel (t : ℤ) (h : Relabelled r a b) :
    Lockstep Eq (curTradable md t a) (curTradable (md.relabel r) t b) := by
  obtain ⟨-, u, pos, hren, rfl⟩ := h
  unfold curTradable
  refine Lockstep.ite hren.nonneg_iff (fun hpos => ?_) fun _ => Lockstep.pure rfl
  exact hren.bind_symbol hpos fun s hs _ => isTradable_relabel t hs

/-- The forced close. -/
lemma forceClose_relabel (t : ℤ) (h : Relabelled r a b) :
    Lockstep (SameOrder r) (forceClose md p t a) (forceClose (md.relabel r) p t b) := by
  have hclose := closePosition_relabel (p := p) t h
  have hkeep : SameOrder r (a, (0 : ℤ)) (b, 0) := ⟨h, rfl⟩
  obtain ⟨-, u, pos, hren, rfl⟩ := h
  unfold forceClose
  refine Lockstep.ite (and_congr Iff.rfl (and_congr hren.nonneg_iff Iff.rfl)) (fun hc => ?_)
    fun _ => Lockstep.pure hkeep
  refine hren.bind_symbol hc.2.1 fun s hs _ => ?_
  refine (isTradable_relabel t hs).bind fun isOpen _ hopen => ?_
  subst hopen
  refine Lockstep.ite Iff.rfl (fun _ => ?_) fun _ => Lockstep.pure hkeep
  exact hclose.bind fun x y hxy => Lockstep.pure ⟨hxy.1, by rw [hxy.2]⟩

/-- Going flat. -/
lemma goFlat_relabel (t : ℤ) (tradable : Bool) (h : Relabelled r a b) :
    Lockstep (SameOrder r) (goFlat md p t tradable a) (goFlat (md.relabel r) p t tradable b) := by
  have hpos : a.positionSym ≥ 0 ↔ b.positionSym ≥ 0 := by
    obtain ⟨-, u, pos, hren, rfl⟩ := h
    exact hren.nonneg_iff
  unfold goFlat
  refine Lockstep.ite hpos (fun _ => ?_) fun _ => Lockstep.pure ⟨h, rfl⟩
  refine Lockstep.ite Iff.rfl (fun _ => ?_) fun _ => Lockstep.pure ⟨h.hold, rfl⟩
  exact (closePosition_relabel t h).bind fun x y hxy => Lockstep.pure ⟨hxy.1, by rw [hxy.2]⟩

/-- An entry that opened its target did so in both runs. -/
lemma Relabelled.target_iff (h : Relabelled r a b) (isShort : Bool) {s : ℕ}
    (hs : s < md.numSymbols) :
    a.positionSym = targetPosId md.numSymbols isShort s ↔
      b.positionSym = targetPosId md.numSymbols isShort (r.name s) := by
  obtain ⟨-, u, pos, hren, rfl⟩ := h
  exact hren.target_iff isShort hs

/-- The order of a switch. -/
lemma enterTarget_relabel (t : ℤ) (isShort : Bool) {s : ℕ} (hs : s < md.numSymbols)
    (alloc level : ℚ) (rng : UInt64) (events : ℤ) (h : Relabelled r a b) :
    Lockstep (SameOrder r) (enterTarget md p t isShort s alloc level a rng events)
      (enterTarget (md.relabel r) p t isShort (r.name s) alloc level b rng events) := by
  unfold enterTarget
  dsimp only
  refine Lockstep.ite Iff.rfl (fun _ => ?_) fun _ => Lockstep.pure ⟨h, rfl⟩
  refine (openTarget_relabel t isShort hs alloc level h).bind fun a' b' hab => ?_
  refine Lockstep.pure ⟨hab, ?_⟩
  rw [decide_eq_decide.mpr (hab.target_iff isShort hs)]
  rfl

/-- A target, and its renamed one. -/
lemma goTarget_relabel (t : ℤ) (tradable isShort : Bool) {s : ℕ} (hs : s < md.numSymbols)
    (allocIdx levelIdx : ℤ) (rng : UInt64) (h : Relabelled r a b) :
    Lockstep (SameOrder r) (goTarget md p t tradable isShort s allocIdx levelIdx a rng)
      (goTarget (md.relabel r) p t tradable isShort (r.name s) allocIdx levelIdx b rng) := by
  have hpos : a.positionSym ≥ 0 ↔ b.positionSym ≥ 0 := by
    obtain ⟨-, u, pos, hren, rfl⟩ := h
    exact hren.nonneg_iff
  unfold goTarget
  refine Lockstep.bind_same fun alloc _ => ?_
  refine Lockstep.bind_same fun level _ => ?_
  refine (isTradable_relabel t hs).bind fun isOpen _ hopen => ?_
  subst hopen
  refine Lockstep.ite (h.target_iff isShort hs) (fun _ => Lockstep.pure ⟨h.hold, rfl⟩) fun _ => ?_
  refine Lockstep.ite Iff.rfl (fun _ => Lockstep.pure ⟨?_, rfl⟩) fun _ => ?_
  · by_cases hp : a.positionSym ≥ 0
    · rw [if_pos hp, if_pos (hpos.mp hp)]
      exact h.hold
    · rw [if_neg hp, if_neg fun hp' => hp (hpos.mpr hp')]
      exact h
  refine Lockstep.ite (and_congr hpos Iff.rfl) (fun _ => Lockstep.pure ⟨h.hold, rfl⟩) fun _ => ?_
  refine Lockstep.ite hpos (fun _ => ?_) fun _ => enterTarget_relabel t isShort hs _ _ _ _ h
  refine (closePosition_relabel t h).bind fun x y hxy => ?_
  obtain ⟨hxy, hclosed⟩ := hxy
  dsimp only
  rw [← hclosed]
  exact Lockstep.ite Iff.rfl (fun _ => enterTarget_relabel t isShort hs _ _ _ _ hxy) fun _ =>
    Lockstep.pure ⟨hxy, rfl⟩

/-! ## Relabelled actions -/

lemma binned_allocBins (p : Params) : 1 ≤ p.binned.actionAllocationBins := by
  dsimp only [Params.binned]
  split <;> omega

lemma binned_levelBins (p : Params) : 1 ≤ p.binned.actionLevelBins := by
  dsimp only [Params.binned]
  split <;> omega

/-- The decoding reads the numbers of bins through their clamps. -/
lemma decodeAction_binned (p : Params) (S : ℕ) (action : ℤ) :
    decodeAction p.binned S action = decodeAction p S action := by
  have hab := binned_allocBins p
  have hlb := binned_levelBins p
  unfold decodeAction
  rw [if_neg (not_lt.mpr hab), if_neg (not_lt.mpr hlb)]
  rfl

/-- A target that was decoded is one of the action space. -/
lemma isTarget_of_decode {S : ℕ} {action sym allocIdx levelIdx : ℤ} {isShort : Bool}
    (h : decodeAction p S action = .ok (.target isShort sym allocIdx levelIdx)) :
    IsTarget S p.binned.actionAllocationBins p.binned.actionLevelBins sym allocIdx levelIdx := by
  have hab := binned_allocBins p
  have hlb := binned_levelBins p
  rw [← decodeAction_binned] at h
  by_cases hrange : 1 ≤ action ∧
      action ≤ 2 * (S * (p.binned.actionAllocationBins * p.binned.actionLevelBins))
  · obtain ⟨_, _, _, _, htarget, rfl⟩ := exists_actionOf hab hlb hrange
    rw [decodeAction_actionOf hab hlb _ htarget] at h
    cases h
    exact htarget
  · exact absurd h (decodeAction_ne_target hab hlb hrange)

/-- The target of a relabelled action is the renamed one. -/
lemma decodeAction_relabelAction {S : ℕ} (r : Relabelling S) {action sym allocIdx levelIdx : ℤ}
    {isShort : Bool} (h : decodeAction p S action = .ok (.target isShort sym allocIdx levelIdx)) :
    decodeAction p S (relabelAction p r action) =
      .ok (.target isShort (r.name sym.toNat) allocIdx levelIdx) := by
  obtain ⟨hsym, hbins⟩ := isTarget_of_decode h
  have hname := (r.name_lt sym.toNat).mpr (by omega)
  have htarget : IsTarget S p.binned.actionAllocationBins p.binned.actionLevelBins
      (r.name sym.toNat) allocIdx levelIdx := ⟨⟨by omega, by omega⟩, hbins⟩
  unfold relabelAction
  rw [h, ← decodeAction_binned]
  exact decodeAction_actionOf (binned_allocBins p) (binned_levelBins p) isShort htarget

/-- The action of a step. -/
lemma applyAction_relabel (t : ℤ) (tradable : Bool) (action : ℤ) (rng : UInt64)
    (h : Relabelled r a b) :
    Lockstep (SameOrder r) (applyAction md p t tradable action a rng)
      (applyAction (md.relabel r) p t tradable (relabelAction p r action) b rng) := by
  obtain ⟨d, hd, -⟩ := decodeAction_returns p md.numSymbols action
  unfold applyAction
  rw [bind_of_eq_ok hd]
  cases d with
  | flat =>
    have hsame : relabelAction p r action = action := by
      unfold relabelAction
      rw [hd]
    rw [hsame]
    rw [bind_of_eq_ok (show decodeAction p (md.relabel r).numSymbols action = _ from hd)]
    exact (goFlat_relabel t tradable h).bind fun x y hxy => Lockstep.pure ⟨hxy.1, by rw [hxy.2]⟩
  | target isShort sym allocIdx levelIdx =>
    obtain ⟨hsym, -⟩ := isTarget_of_decode hd
    have hd' := decodeAction_relabelAction r hd
    rw [bind_of_eq_ok (show decodeAction p (md.relabel r).numSymbols _ = _ from hd')]
    obtain ⟨s, rfl⟩ := Int.eq_ofNat_of_zero_le hsym.1
    exact goTarget_relabel t tradable isShort (by omega) allocIdx levelIdx rng h
  | invalid =>
    have hsame : relabelAction p r action = action := by
      unfold relabelAction
      rw [hd]
    rw [hsame]
    rw [bind_of_eq_ok (show decodeAction p (md.relabel r).numSymbols action = _ from hd)]
    exact Lockstep.pure ⟨h, rfl⟩

/-! ## Valuation and observation -/

/-- Both portfolios are worth the same. -/
lemma computeEquity_relabel (t : ℤ) (h : Relabelled r a b) :
    Lockstep Eq (computeEquity md t a) (computeEquity (md.relabel r) t b) := by
  obtain ⟨-, u, pos, hren, rfl⟩ := h
  unfold computeEquity
  refine Lockstep.ite hren.nonneg_iff (fun hpos => ?_) fun _ => Lockstep.pure rfl
  refine hren.bind_price hpos t .pClose fun s s' price => ?_
  refine Lockstep.ite hren.short_iff (fun _ => Lockstep.pure ?_) fun _ => Lockstep.pure ?_
  all_goals
    dsimp only [AgentState.requoted, PriceFeat.factor]
    rw [div_mul_scale hren.unit_pos]

/-- Both positions show the same value and the same profit. -/
lemma positionValue_relabel (t : ℤ) (h : Relabelled r a b) :
    Lockstep Eq (positionValue md t a) (positionValue (md.relabel r) t b) := by
  obtain ⟨-, u, pos, hren, rfl⟩ := h
  unfold positionValue
  refine Lockstep.ite hren.nonneg_iff (fun hpos => ?_) fun _ => Lockstep.pure rfl
  refine hren.bind_price hpos t .pClose fun s s' price => ?_
  refine Lockstep.ite hren.short_iff (fun _ => Lockstep.pure ?_) fun _ => Lockstep.pure ?_
  all_goals
    dsimp only [AgentState.requoted, PriceFeat.factor]
    rw [← mul_sub, div_mul_scale hren.unit_pos, div_mul_scale hren.unit_pos]

/-- Both positions are charged the same. -/
lemma borrowFee_relabel (t : ℤ) (h : Relabelled r a b) :
    Lockstep Eq (borrowFee md p t a) (borrowFee (md.relabel r) p t b) := by
  obtain ⟨hflat, u, pos, hren, rfl⟩ := h
  have hu := hren.unit_pos
  have hle (x : ℚ) : u * x ≤ 0 ↔ x ≤ 0 := by
    rw [← mul_zero u, mul_le_mul_iff_right₀ hu, mul_zero]
  have hqty : a.positionQty ≤ 0 ↔ a.positionQty / u ≤ 0 := by
    rw [div_le_iff₀ hu, zero_mul]
  unfold borrowFee
  refine Lockstep.ite (or_congr Iff.rfl hqty) (fun _ => Lockstep.pure rfl) fun hheld => ?_
  have hpos : 0 ≤ a.positionSym := by
    by_contra hneg
    exact hheld (.inr (hflat (not_le.mp hneg)).le)
  refine hren.bind_price hpos t .pClose fun s s' price => ?_
  dsimp only [AgentState.requoted, PriceFeat.factor]
  rw [div_mul_scale hu]
  refine Lockstep.ite (hle price).symm (fun _ => Lockstep.pure rfl) fun _ => ?_
  exact Lockstep.ite hren.short_iff (fun _ => Lockstep.refl (fun _ => rfl) _) fun _ =>
    Lockstep.refl (fun _ => rfl) _

/-- The position entries, symbol by symbol. -/
lemma positionOneHot_eq (S : ℕ) (pos : ℤ) : positionOneHot S pos = (List.range S).map fun s : ℕ =>
    (if pos = s then 1 else if pos = S + s then -1 else 0 : ℚ) := by
  simp only [positionOneHot, List.bind_eq_flatMap, List.pure_def, List.map_flatMap, List.map_cons,
    List.map_nil]
  exact List.flatMap_pure_eq_map _ _

/-- The position entries of the second observation are those of the first in the new order. -/
lemma positionOneHot_relabel (h : Relabelled r a b) :
    positionOneHot md.numSymbols b.positionSym = (List.range md.numSymbols).map fun s =>
      (if a.positionSym = (r.name.symm s : ℕ) then 1
        else if a.positionSym = md.numSymbols + (r.name.symm s : ℕ) then -1 else 0 : ℚ) := by
  rw [positionOneHot_eq]
  refine List.map_congr_left fun s hs => ?_
  have hback : r.name.symm s < md.numSymbols := by
    rw [← r.name_lt, Equiv.apply_symm_apply]
    exact List.mem_range.mp hs
  have hlong := h.target_iff false hback
  have hshort := h.target_iff true hback
  simp only [targetPosId, Bool.false_eq_true, if_true, if_false, Equiv.apply_symm_apply]
    at hlong hshort
  simp only [hlong, hshort]

/-- **Observations** show the symbols in their new order, and are otherwise the same. -/
theorem fillObservations_relabel (h : Relabelled r a b) :
    Lockstep (Reordered r md.featuresPerSym) (fillObservations md p a)
      (fillObservations (md.relabel r) p b) := by
  have hvalue := positionValue_relabel (obsRow md p a) h
  have hentries := positionOneHot_relabel h
  obtain ⟨-, u, pos, -, rfl⟩ := h
  unfold fillObservations
  refine Lockstep.bind (R := fun x y => ∃ block : ℕ → List ℚ,
    (∀ s, (block s).length = md.featuresPerSym) ∧ x = (List.range md.numSymbols).flatMap block ∧
      y = (List.range md.numSymbols).flatMap fun s => block (r.name.symm s)) ?_
    fun feats feats' hfeats => ?_
  · unfold featureRow
    refine Lockstep.bind_same fun row _ => Lockstep.pure ?_
    exact ⟨fun s => (List.range md.featuresPerSym).map fun f => md.features row s f,
      fun s => by simp, rfl, rfl⟩
  obtain ⟨block, hblock, rfl, rfl⟩ := hfeats
  refine hvalue.bind fun value _ hvalue => ?_
  subst hvalue
  refine Lockstep.bind_same fun hours _ => Lockstep.bind_same fun progress _ => Lockstep.pure ?_
  refine ⟨block, [a.cash / initialCash, value.1 / initialCash, value.2 / initialCash, hours,
    progress], fun s => if a.positionSym = s then 1
      else if a.positionSym = md.numSymbols + s then -1 else 0, hblock, rfl, ?_, ?_⟩
  · rw [positionOneHot_eq]
    rfl
  · exact congrArg (_ ++ ·) hentries

/-! ## Steps -/

/-- The two marks show the same figures. -/
structure SameMark (r : Relabelling md.numSymbols) (m m' : Marked) : Prop where
  agent : Relabelled r m.agent m'.agent
  tNew : m.tNew = m'.tNew
  equityAfter : m.equityAfter = m'.equityAfter
  ret : m.ret = m'.ret
  currentDrawdown : m.currentDrawdown = m'.currentDrawdown

/-- What the two runs have executed at a bar. -/
structure SameTrade (r : Relabelling md.numSymbols) (x x' : Executed) : Prop where
  agent : Relabelled r x.agent x'.agent
  rng : x.rng = x'.rng
  tradeEvents : x.tradeEvents = x'.tradeEvents
  anyTradable : x.anyTradable = x'.anyTradable
  equityBefore : x.equityBefore = x'.equityBefore

/-- Trading at a bar. -/
theorem executeBar_relabel (rng : UInt64) (action : ℤ) (h : Relabelled r a b) :
    Lockstep (SameTrade r) (executeBar md p a rng action)
      (executeBar (md.relabel r) p b rng (relabelAction p r action)) := by
  have hrow : tradeRow (md.relabel r) b = tradeRow md a := by
    obtain ⟨-, u, pos, -, rfl⟩ := h
    rfl
  unfold executeBar
  rw [hrow]
  refine (forceClose_relabel _ h).bind fun x y hxy => ?_
  obtain ⟨hxy, hforced⟩ := hxy
  dsimp only
  rw [← hforced]
  refine (curTradable_relabel _ hxy).bind fun tradable _ htradable => ?_
  subst htradable
  refine Lockstep.bind (R := Eq) (Lockstep.refl (fun _ => rfl) _) fun anyTradable _ hany => ?_
  subst hany
  refine (computeEquity_relabel _ hxy).bind fun equity _ hequity => ?_
  subst hequity
  refine (applyAction_relabel _ _ action rng hxy).bind fun x' y' hxy' => Lockstep.pure ?_
  exact ⟨hxy'.1, congrArg Prod.fst hxy'.2, congrArg (x.2 + ·.2) hxy'.2, rfl, rfl⟩

/-- Marking at the next bar. -/
theorem markToMarket_relabel {x x' : Executed} (h : SameTrade r x x') :
    Lockstep (SameMark r) (markToMarket md p x) (markToMarket (md.relabel r) p x') := by
  obtain ⟨ag, rng, events, any, before⟩ := x
  obtain ⟨ag', rng', events', any', before'⟩ := x'
  obtain ⟨hagent, rfl, rfl, rfl, rfl⟩ := h
  dsimp only at hagent
  have htick : Relabelled r ag.tick ag'.tick := by
    obtain ⟨hflat, u, pos, hren, rfl⟩ := hagent
    exact ⟨hflat, u, pos, hren, rfl⟩
  have hrow : tradeRow (md.relabel r) ag'.tick = tradeRow md ag.tick := by
    obtain ⟨-, u, pos, -, rfl⟩ := hagent
    rfl
  unfold markToMarket
  dsimp only
  rw [hrow]
  refine (computeEquity_relabel _ htick).bind fun equity _ hequity => ?_
  refine (borrowFee_relabel _ htick).bind fun fee _ hfee => ?_
  subst hequity hfee
  refine Lockstep.bind_same fun ret _ => ?_
  obtain ⟨hflat, u, pos, hren, rfl⟩ := hagent
  unfold trackDrawdown
  refine Lockstep.bind (R := SameOrder r) ?_ fun y y' hy => ?_
  · refine Lockstep.ite Iff.rfl (fun _ => ?_) fun _ => Lockstep.pure ?_
    · refine Lockstep.bind_same fun dd _ => Lockstep.pure ?_
      exact ⟨⟨hflat, u, pos, hren, rfl⟩, rfl⟩
    · exact ⟨⟨hflat, u, pos, hren, rfl⟩, rfl⟩
  · exact Lockstep.pure ⟨hy.1, rfl, rfl, rfl, hy.2⟩

/-- The reward of a step reads nothing that has a name or a unit. -/
lemma shapedReward_relabel {x x' : Executed} {m m' : Marked} (hx : SameTrade r x x')
    (hm : SameMark r m m') : shapedReward lm p x m = shapedReward lm p x' m' := by
  obtain ⟨ag, tNew, equity, ret, dd⟩ := m
  obtain ⟨ag', tNew', equity', ret', dd'⟩ := m'
  obtain ⟨⟨-, u, pos, hren, rfl⟩, rfl, rfl, rfl, rfl⟩ := hm
  have hneg : ag.positionSym < 0 ↔ pos < 0 := by
    rw [← not_le, ← not_le, hren.nonneg_iff]
  have hcash (y z : ℚ) : (if ag.positionSym < 0 ∧ x.anyTradable then y else z) =
      if pos < 0 ∧ x'.anyTradable then y else z :=
    if_congr (and_congr hneg (by rw [hx.anyTradable])) rfl rfl
  unfold shapedReward
  dsimp only [AgentState.requoted]
  rw [hcash, hx.tradeEvents]
  rfl

/-- A fresh agent is its own relabelling. -/
lemma initial_relabel (r : Relabelling md.numSymbols) (dataOffset : ℤ) :
    Relabelled r (AgentState.initial dataOffset) (AgentState.initial dataOffset) := by
  refine ⟨fun _ => rfl, 1, -1, .flat, ?_⟩
  simp [AgentState.requoted, AgentState.initial]

/-- The closing of the last position. -/
lemma finalClose_relabel (t : ℤ) (h : Relabelled r a b) :
    Lockstep (SameOrder r) (finalClose md p t a) (finalClose (md.relabel r) p t b) := by
  have hcash : ∀ {a' b' : AgentState}, Relabelled r a' b' → a'.cash = b'.cash := by
    rintro a' _ ⟨-, u, pos, -, rfl⟩
    rfl
  have hpos : a.positionSym ≥ 0 ↔ b.positionSym ≥ 0 := by
    obtain ⟨-, u, pos, hren, rfl⟩ := h
    exact hren.nonneg_iff
  unfold finalClose
  refine Lockstep.ite hpos (fun _ => ?_) fun _ => Lockstep.pure ⟨h, hcash h⟩
  refine (closePosition_relabel t h).bind fun x y hxy => ?_
  obtain ⟨hxy, hclosed⟩ := hxy
  dsimp only
  rw [← hclosed]
  refine Lockstep.ite Iff.rfl (fun _ => Lockstep.pure ⟨hxy, hcash hxy⟩) fun _ => ?_
  exact (computeEquity_relabel t hxy).bind fun equity _ hequity => Lockstep.pure ⟨hxy, hequity⟩

/-- The terminal branch. -/
lemma finishEpisode_relabel (t : ℤ) (rng : UInt64) (log : Log) (reward : ℚ)
    (h : Relabelled r a b) :
    Lockstep (SameUpTo r md.featuresPerSym) (finishEpisode lm md p t a rng log reward)
      (finishEpisode lm (md.relabel r) p t b rng log reward) := by
  unfold finishEpisode
  refine (finalClose_relabel t h).bind fun x y hxy => ?_
  obtain ⟨closed, equity⟩ := x
  obtain ⟨closed', equity'⟩ := y
  obtain ⟨⟨-, u, pos, -, rfl⟩, rfl⟩ := hxy
  refine Lockstep.bind_same fun log' _ => ?_
  have hreset := initial_relabel r (startOffset md p rng).1
  refine (fillObservations_relabel hreset).bind fun obs obs' hobs => Lockstep.pure ?_
  exact ⟨hreset, rfl, rfl, hobs, rfl, rfl⟩

/-- **Step.** One step of both runs. -/
theorem cStep_relabel {e e' : EnvState} (action : ℤ)
    (h : SameUpTo r md.featuresPerSym e e') :
    Lockstep (SameUpTo r md.featuresPerSym) (cStep lm md p e action)
      (cStep lm (md.relabel r) p e' (relabelAction p r action)) := by
  unfold cStep
  rw [← h.rng, ← h.log]
  refine (executeBar_relabel e.rng action h.agent).bind fun x x' hx => ?_
  refine (markToMarket_relabel hx).bind fun m m' hm => ?_
  rw [shapedReward_relabel hx hm, ← hx.rng]
  refine Lockstep.bind_same fun reward _ => ?_
  obtain ⟨ag, tNew, equity, ret, dd⟩ := m
  obtain ⟨ag', tNew', equity', ret', dd'⟩ := m'
  obtain ⟨⟨hflat, u, pos, hren, rfl⟩, rfl, rfl, rfl, rfl⟩ := hm
  have hagent : Relabelled r { ag with prevRet := ret } { ag.requoted pos u with prevRet := ret } :=
    ⟨hflat, u, pos, hren, rfl⟩
  refine Lockstep.bind_same fun earlyExit _ => ?_
  refine Lockstep.ite Iff.rfl (fun _ => finishEpisode_relabel _ _ _ _ hagent) fun _ => ?_
  refine (fillObservations_relabel hagent).bind fun obs obs' hobs => Lockstep.pure ?_
  exact ⟨hagent, rfl, rfl, hobs, rfl, rfl⟩

/-- A reset of both environments. -/
lemma cReset_relabel (r : Relabelling md.numSymbols) (e : EnvState) :
    Lockstep (SameUpTo r md.featuresPerSym) (cReset md p e) (cReset (md.relabel r) p e) := by
  have hreset := initial_relabel r (startOffset md p e.rng).1
  unfold cReset
  refine (fillObservations_relabel hreset).bind fun obs obs' hobs => Lockstep.pure ?_
  exact ⟨hreset, rfl, rfl, hobs, rfl, rfl⟩

end Trading

/-- The steps of both runs. -/
lemma runFrom_relabel {lm : Libm} {md : MarketData} {p : Params}
    {r : Relabelling md.numSymbols} (actions : List ℤ) :
    ∀ {e e' : EnvState}, SameUpTo r md.featuresPerSym e e' →
      Lockstep (SameUpTo r md.featuresPerSym) (runFrom lm md p e actions)
        (runFrom lm (md.relabel r) p e' (actions.map (relabelAction p r))) := by
  induction actions with
  | nil => exact fun h => Lockstep.pure h
  | cons action actions ih => exact fun h => (cStep_relabel action h).bind fun _ _ h' => ih h'

/-- **Names and units.** When the symbols are listed in another order, and the prices of each are
multiplied by a positive constant of its own (its volumes divided by it), an episode under the
relabelled actions faults where the old one does. Otherwise it leaves the same log, reward and
terminal flag, the same cash and statistics, the same position in the renamed symbol, and an
observation that shows the symbols in their new order.

**Proof sketch.** Each part of a step runs in lockstep on both markets. Prices enter a comparison
only against prices of the same symbol, and a sum only multiplied by a quantity of that symbol,
which is held in the inverse unit. -/
theorem episode_relabel (lm : Libm) (md : MarketData) (p : Params)
    (r : Relabelling md.numSymbols) (env : EnvState) (actions : List ℤ) :
    Lockstep (SameUpTo r md.featuresPerSym) (episode lm md p env actions)
      (episode lm (md.relabel r) p env (actions.map (relabelAction p r))) :=
  (cReset_relabel r env).bind fun _ _ h => runFrom_relabel actions h

/-- Two symbols change places, and the prices of the first are doubled. -/
def swapDoubled : Relabelling 2 where
  name := Equiv.swap 0 1
  unit s := if s = 0 then 2 else 1
  name_lt s := by
    rw [Equiv.swap_apply_def]
    split_ifs <;> omega
  unit_pos s := by split <;> norm_num

/-- The second symbol is bought, held and sold for a short of the first. -/
theorem episode_relabel_swap :
    let md : MarketData := { rowMarket 9 fun t => 100 + t with
      numSymbols := 2, prices := fun t s _ => 100 + t + 50 * s }
    let p := { keelEnvCreate with forcedOffset := 0 }
    ∃ e e', episode .firstOrder md p (.zero 7) [2, 2, 3] = .ok e ∧
      episode .firstOrder (md.relabel swapDoubled) p (.zero 7) [1, 1, 4] = .ok e' ∧
      SameUpTo swapDoubled 1 e e' ∧ e.agent.numTrades = 1 ∧
      e.agent.positionSym = 2 ∧ e.agent.entryPrice = 102 ∧
      e'.agent.positionSym = 3 ∧ e'.agent.entryPrice = 204 := by
  intro md p
  have hlock := episode_relabel .firstOrder md p swapDoubled (.zero 7) [2, 2, 3]
  have hactions : [2, 2, 3].map (relabelAction p swapDoubled) = [1, 1, 4] := by decide +kernel
  obtain ⟨e, he, hshown⟩ := exists_of_toOption
    (x := episode .firstOrder md p (.zero 7) [2, 2, 3])
    (P := fun e => decide (e.agent.numTrades = 1 ∧ e.agent.positionSym = 2 ∧
      e.agent.entryPrice = 102)) (by decide +kernel)
  obtain ⟨e', he', hshown'⟩ := exists_of_toOption
    (x := episode .firstOrder (md.relabel swapDoubled) p (.zero 7) [1, 1, 4])
    (P := fun e' => decide (e'.agent.positionSym = 3 ∧ e'.agent.entryPrice = 204))
    (by decide +kernel)
  rw [hactions, he, he'] at hlock
  obtain ⟨htrades, hpos, hentry⟩ := of_decide_eq_true hshown
  obtain ⟨hpos', hentry'⟩ := of_decide_eq_true hshown'
  exact ⟨e, e', he, he', hlock, htrades, hpos, hentry, hpos', hentry'⟩

end KeelTrader.Sim
