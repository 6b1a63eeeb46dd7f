import KeelTrader.Sim.Safety

set_option relaxedAutoImplicit false
set_option autoImplicit false

/-!
# No lookahead

Two runs of one policy on two data sets that agree on everything a trader could have seen emit
the same observations and take the same actions. The price of the bar an order executes at
reaches the observations only through the *book* of the agent: its cash and its position. The
statistics (peak, drawdown, returns, trade counts) may differ between the runs, since the value
of a step is marked at the bar after it, but no observation reads them.

## Main definitions

* `KeelTrader.Sim.Rollout`, `rollout` — a policy run on the environment, with its observations.
* `KeelTrader.Sim.Agree` — two data sets agree on the features up to one row and on the prices
  and the mask up to another.
* `KeelTrader.Sim.SameBook` — two agents with the same book on the same clock.

## Main results

* `KeelTrader.Sim.executeBar_rel` — trading at a bar reads only that bar.
* `KeelTrader.Sim.fillObservations_rel` — an observation reads only lagged rows.
* `KeelTrader.Sim.cStep_rel` — one step of both runs.
* `KeelTrader.Sim.rollout_noLookahead` — noninterference for whole runs.
-/

namespace KeelTrader.Sim

open Checked

/-! ## Rollouts -/

/-- A policy chooses an action from the observations emitted so far, oldest first. -/
abbrev Policy : Type := List (List ℚ) → ℤ

/-- A run of a policy: the environment, the observations and actions so far, and whether an
episode has ended. -/
structure Rollout where
  env : EnvState
  seen : List (List ℚ)
  actions : List ℤ
  ended : Bool
  deriving DecidableEq, Repr

/-- The clock `data_offset + step` of the last observation. -/
def Rollout.clock (r : Rollout) : ℤ := r.env.agent.dataOffset + r.env.agent.step

/-- A `c_reset` followed by `k` steps with the actions of the policy. -/
def rollout (lm : Libm) (md : MarketData) (p : Params) (pol : Policy) (env : EnvState) :
    ℕ → Checked Rollout
  | 0 => do
    let env' ← cReset md p env
    pure ⟨env', [env'.observations], [], false⟩
  | k + 1 => do
    let r ← rollout lm md p pol env k
    let env' ← cStep lm md p r.env (pol r.seen)
    pure ⟨env', r.seen ++ [env'.observations], r.actions ++ [pol r.seen],
      r.ended || env'.terminal⟩

/-! ## Agreement of data sets -/

/-- The data sets have the same shape, and agree on the features up to row `featTo` and on the
prices and the mask up to row `priceTo`. -/
structure Agree (md₁ md₂ : MarketData) (featTo priceTo : ℤ) : Prop where
  symbols : md₁.numSymbols = md₂.numSymbols
  timesteps : md₁.numTimesteps = md₂.numTimesteps
  width : md₁.featuresPerSym = md₂.featuresPerSym
  features : ∀ t s f : ℕ, (t : ℤ) ≤ featTo → s < md₁.numSymbols → f < md₁.featuresPerSym →
    md₁.features t s f = md₂.features t s f
  prices : ∀ (t s : ℕ) (k : PriceFeat), (t : ℤ) ≤ priceTo → s < md₁.numSymbols →
    md₁.prices t s k = md₂.prices t s k
  mask : ∀ t s : ℕ, (t : ℤ) ≤ priceTo → s < md₁.numSymbols → md₁.maskAt t s = md₂.maskAt t s

/-- A data set agrees with itself. -/
lemma Agree.refl (md : MarketData) (featTo priceTo : ℤ) : Agree md md featTo priceTo :=
  ⟨rfl, rfl, rfl, fun _ _ _ _ _ _ => rfl, fun _ _ _ _ _ => rfl, fun _ _ _ _ => rfl⟩

variable {lm : Libm} {md₁ md₂ : MarketData} {p : Params} {featTo priceTo t : ℤ}

/-- Agreement up to later rows is agreement up to earlier ones. -/
lemma Agree.mono (h : Agree md₁ md₂ featTo priceTo) {featTo' priceTo' : ℤ}
    (hf : featTo' ≤ featTo) (hp : priceTo' ≤ priceTo) : Agree md₁ md₂ featTo' priceTo' :=
  { h with
    features := fun t s f ht => h.features t s f (ht.trans hf)
    prices := fun t s k ht => h.prices t s k (ht.trans hp)
    mask := fun t s ht => h.mask t s (ht.trans hp) }

/-- Reads of an agreed price row return the same price. -/
lemma Agree.getPrice_rel (h : Agree md₁ md₂ featTo priceTo) (ht : t ≤ priceTo) (s : ℤ)
    (k : PriceFeat) : Rel Eq (getPrice md₁ t s k) (getPrice md₂ t s k) := by
  unfold getPrice
  intro x y hx hy
  obtain ⟨row, hrow, hx⟩ := bind_eq_ok.mp hx
  obtain ⟨sym, hsym, hx⟩ := bind_eq_ok.mp hx
  rw [← h.timesteps, ← h.symbols, hrow, bind_of_eq_ok rfl, hsym, bind_of_eq_ok rfl] at hy
  rw [← pure_eq_ok.mp hx, ← pure_eq_ok.mp hy]
  have hr := index_eq_ok hrow
  exact h.prices row sym k (by omega) (index_eq_ok hsym).2

/-- Reads of an agreed mask row return the same flag. -/
lemma Agree.isTradable_rel (h : Agree md₁ md₂ featTo priceTo) (ht : 0 ≤ t ∧ t ≤ priceTo)
    {s : ℤ} (hs : 0 ≤ s ∧ s < md₁.numSymbols) :
    Rel Eq (isTradable md₁ t s) (isTradable md₂ t s) := by
  intro b c hb hc
  rw [isTradable_eq_ok hb, isTradable_eq_ok hc]
  exact h.mask _ _ (by omega) (by omega)

/-! ## Books -/

/-- The agents have the same book, and are both `step` bars into the episode that started at
row `dataOffset`. -/
structure SameBook (dataOffset step : ℤ) (a b : AgentState) : Prop where
  cash : a.cash = b.cash
  sym : a.positionSym = b.positionSym
  qty : a.positionQty = b.positionQty
  entry : a.entryPrice = b.entryPrice
  hold : a.holdHours = b.holdHours
  offset_left : a.dataOffset = dataOffset
  offset_right : b.dataOffset = dataOffset
  step_left : a.step = step
  step_right : b.step = step

variable {o n : ℤ} {a b : AgentState}

lemma SameBook.tick_hold (h : SameBook o n a b) : SameBook o n a.hold b.hold :=
  { h with hold := by simp only [AgentState.hold, h.hold] }

lemma SameBook.closedAt (h : SameBook o n a b) (isShort : Bool) (price : ℚ) :
    SameBook o n (a.closedAt p isShort price) (b.closedAt p isShort price) :=
  { h with
    cash := by simp only [AgentState.closedAt, h.cash, h.qty]
    sym := rfl
    qty := rfl
    entry := rfl
    hold := rfl }

/-- The relation between the results of two orders. -/
def SameResult {α : Type} (o n : ℤ) (r s : AgentState × α) : Prop :=
  SameBook o n r.1 s.1 ∧ r.2 = s.2

/-- Exits at an agreed row do the same to the same book. -/
lemma closePosition_rel (hA : Agree md₁ md₂ featTo priceTo) (ht : t ≤ priceTo)
    (h : SameBook o n a b) :
    Rel (SameResult o n) (closePosition md₁ p t a) (closePosition md₂ p t b) := by
  unfold closePosition
  rw [← h.sym, ← hA.symbols, ← h.entry, ← h.hold]
  refine Rel.ite (fun _ => Rel.pure ⟨h, rfl⟩) fun _ => ?_
  refine Rel.bind_same fun sym _ => ?_
  refine Rel.bind (hA.getPrice_rel ht sym _) fun price _ hprice => ?_
  subst hprice
  exact Rel.ite (fun _ => Rel.pure ⟨h.tick_hold, rfl⟩) fun _ => Rel.pure ⟨h.closedAt _ _, rfl⟩

/-- Orders on an agreed row are sized the same. -/
lemma sizedFill_rel (hA : Agree md₁ md₂ featTo priceTo) (ht : t ≤ priceTo) (sym : ℤ)
    (alloc level : ℚ) (isBuy : Bool) (cash : ℚ) :
    Rel Eq (sizedFill md₁ p t sym alloc level isBuy cash)
      (sizedFill md₂ p t sym alloc level isBuy cash) := by
  unfold sizedFill resolveLimitFillPrice
  refine Rel.bind (hA.getPrice_rel ht sym _) fun ref _ href => ?_
  subst href
  refine Rel.ite (fun _ => Rel.pure rfl) fun _ => ?_
  refine Rel.ite (fun _ => Rel.pure rfl) fun _ => ?_
  refine Rel.bind (R := Eq) ?_ fun fill _ hfill => ?_
  · refine Rel.bind (hA.getPrice_rel ht sym _) fun low _ hlow => ?_
    refine Rel.bind (hA.getPrice_rel ht sym _) fun high _ hhigh => ?_
    subst hlow hhigh
    exact Rel.pure rfl
  · subst hfill
    exact Rel.of_eq rfl fun _ => rfl

/-- Entries on an agreed row do the same to the same book. -/
lemma openTarget_rel (hA : Agree md₁ md₂ featTo priceTo) (ht : t ≤ priceTo)
    (isShort : Bool) (sym : ℤ) (alloc level : ℚ) (h : SameBook o n a b) :
    Rel (SameBook o n) (openTarget md₁ p t isShort sym alloc level a)
      (openTarget md₂ p t isShort sym alloc level b) := by
  unfold openTarget openShort openLong
  rw [← h.cash, ← hA.symbols]
  refine Rel.ite (fun _ => ?_) fun _ => ?_
  · refine Rel.bind (sizedFill_rel hA ht sym alloc level _ _) fun fill _ hfill => ?_
    subst hfill
    cases fill with
    | none => exact Rel.pure h
    | some fq =>
      exact Rel.pure { h with cash := rfl, sym := rfl, qty := rfl, entry := rfl, hold := rfl }
  · refine Rel.bind (sizedFill_rel hA ht sym alloc level _ _) fun fill _ hfill => ?_
    subst hfill
    cases fill with
    | none => exact Rel.pure h
    | some fq =>
      refine Rel.ite (fun _ => Rel.pure h) fun _ => Rel.pure ?_
      exact { h with cash := rfl, sym := rfl, qty := rfl, entry := rfl, hold := rfl }

/-- The held symbol trades at an agreed row in both runs, or in neither. -/
lemma curTradable_rel (hA : Agree md₁ md₂ featTo priceTo)
    (ht : 0 ≤ t ∧ t ≤ priceTo) (h : SameBook o n a b) :
    Rel Eq (curTradable md₁ t a) (curTradable md₂ t b) := by
  unfold curTradable
  rw [← h.sym, ← hA.symbols]
  refine Rel.ite (fun hpos => ?_) fun _ => Rel.pure rfl
  exact Rel.bind_same fun sym hsym => hA.isTradable_rel ht (cmod_eq_ok hpos hsym)

lemma forceClose_rel (hA : Agree md₁ md₂ featTo priceTo)
    (ht : 0 ≤ t ∧ t ≤ priceTo) (h : SameBook o n a b) :
    Rel (SameResult o n) (forceClose md₁ p t a) (forceClose md₂ p t b) := by
  unfold forceClose
  rw [← h.sym, ← h.hold, ← hA.symbols]
  refine Rel.ite (fun hc => ?_) fun _ => Rel.pure ⟨h, rfl⟩
  refine Rel.bind_same fun sym hsym => ?_
  refine Rel.bind (hA.isTradable_rel ht (cmod_eq_ok hc.2.1 hsym)) fun isOpen _ hopen => ?_
  subst hopen
  refine Rel.ite (fun _ => ?_) fun _ => Rel.pure ⟨h, rfl⟩
  refine Rel.bind (closePosition_rel hA ht.2 h) fun r s hrs => ?_
  exact Rel.pure ⟨hrs.1, by rw [hrs.2]⟩

lemma goFlat_rel (hA : Agree md₁ md₂ featTo priceTo) (ht : t ≤ priceTo) (tradable : Bool)
    (h : SameBook o n a b) :
    Rel (SameResult o n) (goFlat md₁ p t tradable a) (goFlat md₂ p t tradable b) := by
  unfold goFlat
  rw [← h.sym]
  refine Rel.ite (fun _ => ?_) fun _ => Rel.pure ⟨h, rfl⟩
  refine Rel.ite (fun _ => ?_) fun _ => Rel.pure ⟨h.tick_hold, rfl⟩
  refine Rel.bind (closePosition_rel hA ht h) fun r s hrs => ?_
  exact Rel.pure ⟨hrs.1, by rw [hrs.2]⟩

lemma enterTarget_rel (hA : Agree md₁ md₂ featTo priceTo) (ht : t ≤ priceTo)
    (isShort : Bool) (sym : ℤ) (alloc level : ℚ) (rng : UInt64) (events : ℤ)
    (h : SameBook o n a b) :
    Rel (SameResult o n) (enterTarget md₁ p t isShort sym alloc level a rng events)
      (enterTarget md₂ p t isShort sym alloc level b rng events) := by
  unfold enterTarget
  dsimp only
  rw [← hA.symbols]
  refine Rel.ite (fun _ => ?_) fun _ => Rel.pure ⟨h, rfl⟩
  refine Rel.bind (openTarget_rel hA ht isShort sym alloc level h) fun a' b' hab => ?_
  exact Rel.pure ⟨hab, by rw [hab.sym]⟩

lemma goTarget_rel (hA : Agree md₁ md₂ featTo priceTo) (ht : 0 ≤ t ∧ t ≤ priceTo)
    (tradable isShort : Bool) {sym : ℤ} (hs : 0 ≤ sym ∧ sym < md₁.numSymbols)
    (allocIdx levelIdx : ℤ) (rng : UInt64) (h : SameBook o n a b) :
    Rel (SameResult o n) (goTarget md₁ p t tradable isShort sym allocIdx levelIdx a rng)
      (goTarget md₂ p t tradable isShort sym allocIdx levelIdx b rng) := by
  unfold goTarget
  refine Rel.bind_same fun alloc _ => ?_
  refine Rel.bind_same fun level _ => ?_
  refine Rel.bind (hA.isTradable_rel ht hs) fun isOpen _ hopen => ?_
  subst hopen
  rw [← h.sym, ← hA.symbols]
  refine Rel.ite (fun _ => Rel.pure ⟨h.tick_hold, rfl⟩) fun _ => ?_
  refine Rel.ite (fun _ => Rel.pure ⟨?_, rfl⟩) fun _ => ?_
  · dsimp only
    split
    · exact h.tick_hold
    · exact h
  refine Rel.ite (fun _ => Rel.pure ⟨h.tick_hold, rfl⟩) fun _ => ?_
  refine Rel.ite (fun _ => ?_) fun _ => enterTarget_rel hA ht.2 _ _ _ _ _ _ h
  refine Rel.bind (closePosition_rel hA ht.2 h) fun r s hrs => ?_
  obtain ⟨hrs, hclosed⟩ := hrs
  dsimp only
  rw [← hclosed]
  exact Rel.ite (fun _ => enterTarget_rel hA ht.2 _ _ _ _ _ _ hrs) fun _ => Rel.pure ⟨hrs, rfl⟩

lemma applyAction_rel (hA : Agree md₁ md₂ featTo priceTo) (ht : 0 ≤ t ∧ t ≤ priceTo)
    (tradable : Bool) (action : ℤ) (rng : UInt64) (h : SameBook o n a b) :
    Rel (SameResult o n) (applyAction md₁ p t tradable action a rng)
      (applyAction md₂ p t tradable action b rng) := by
  unfold applyAction
  rw [← hA.symbols]
  obtain ⟨d, hd, hrange⟩ := decodeAction_returns p md₁.numSymbols action
  rw [bind_of_eq_ok hd, bind_of_eq_ok hd]
  cases d with
  | flat =>
    refine Rel.bind (goFlat_rel hA ht.2 tradable h) fun r s hrs => ?_
    exact Rel.pure ⟨hrs.1, by rw [hrs.2]⟩
  | target isShort sym allocIdx levelIdx => exact goTarget_rel hA ht _ _ hrange _ _ _ h
  | invalid => exact Rel.pure ⟨h, rfl⟩

/-- **Trading.** Both runs do the same at a bar they agree on. The valuation before the action
may differ in nothing the book reads, so it is left out. -/
theorem executeBar_rel (hA : Agree md₁ md₂ featTo priceTo)
    (hT : 0 < md₁.numTimesteps) (hon : 0 ≤ o + n) (hrow : o + n ≤ priceTo)
    (rng : UInt64) (action : ℤ) (h : SameBook o n a b) :
    Rel (fun x y : Executed => SameBook o n x.agent y.agent ∧ x.rng = y.rng)
      (executeBar md₁ p a rng action) (executeBar md₂ p b rng action) := by
  have hclock : tradeRow md₁ a = tradeRow md₂ b := by
    simp only [tradeRow, clampRow, hA.timesteps, h.offset_left, h.offset_right, h.step_left,
      h.step_right]
  have ht : 0 ≤ tradeRow md₁ a ∧ tradeRow md₁ a ≤ priceTo := by
    have hle := clampRow_le md₁ (a.dataOffset + a.step)
    have h0 := clampRow_range md₁ hT
      (by rw [h.offset_left, h.step_left]; exact hon : 0 ≤ a.dataOffset + a.step)
    rw [h.offset_left, h.step_left] at hle h0
    simp only [tradeRow, h.offset_left, h.step_left]
    omega
  unfold executeBar
  rw [← hclock]
  refine Rel.bind (forceClose_rel hA ht h) fun r s hrs => ?_
  obtain ⟨hrs, hevents⟩ := hrs
  dsimp only
  refine Rel.bind (curTradable_rel hA ht hrs) fun tradable _ htr => ?_
  subst htr
  refine Rel.bind Rel.trivial fun _ _ _ => ?_
  refine Rel.bind Rel.trivial fun _ _ _ => ?_
  refine Rel.bind (applyAction_rel hA ht tradable action rng hrs) fun r' s' hrs' => ?_
  exact Rel.pure ⟨hrs'.1, congrArg Prod.fst hrs'.2⟩

/-! ## Marking and observing -/

/-- No fee is charged without a borrow rate. -/
lemma borrowFee_of_apr (md : MarketData) (t : ℤ) (ag : AgentState)
    (hapr : p.shortBorrowApr = 0) : borrowFee md p t ag = pure 0 :=
  if_pos (.inl hapr.le)

/-- Borrow fees that are charged at an agreed row are the same. -/
lemma borrowFee_rel (hA : Agree md₁ md₂ featTo priceTo) (ht : t ≤ priceTo)
    (h : SameBook o n a b) : Rel Eq (borrowFee md₁ p t a) (borrowFee md₂ p t b) := by
  unfold borrowFee
  rw [← h.qty, ← h.sym, ← hA.symbols]
  refine Rel.ite (fun _ => Rel.pure rfl) fun _ => ?_
  refine Rel.bind_same fun sym _ => ?_
  refine Rel.bind (hA.getPrice_rel ht sym _) fun price _ hprice => ?_
  subst hprice
  exact Rel.of_eq rfl fun _ => rfl

/-- Marking at the next bar reads a price the runs may not share, but it leaves their books the
same when it charges the same borrow fee. -/
lemma markToMarket_rel {x y : Executed} (h : SameBook o n x.agent y.agent)
    (hfee : Rel Eq (borrowFee md₁ p (tradeRow md₁ x.agent.tick) x.agent.tick)
      (borrowFee md₂ p (tradeRow md₂ y.agent.tick) y.agent.tick)) :
    Rel (fun m m' : Marked => SameBook o (n + 1) m.agent m'.agent) (markToMarket md₁ p x)
      (markToMarket md₂ p y) := by
  unfold markToMarket
  dsimp only
  refine Rel.bind Rel.trivial fun _ _ _ => ?_
  refine Rel.bind hfee fun fee _ hfee => ?_
  subst hfee
  refine Rel.bind Rel.trivial fun _ _ _ => ?_
  refine Rel.bind (R := fun r s => SameBook o (n + 1) r.1 s.1) ?_ fun r s hrs => Rel.pure hrs
  intro r s hr hs
  obtain ⟨_, hr, -⟩ := trackDrawdown_eq_ok hr
  obtain ⟨_, hs, -⟩ := trackDrawdown_eq_ok hs
  rw [hr, hs]
  exact { h with
    cash := by
      simp only [AgentState.trackPeak, AgentState.trackReturn, AgentState.charge, AgentState.tick,
        h.cash]
    step_left := by
      simp only [AgentState.trackPeak, AgentState.trackReturn, AgentState.charge, AgentState.tick,
        h.step_left]
    step_right := by
      simp only [AgentState.trackPeak, AgentState.trackReturn, AgentState.charge, AgentState.tick,
        h.step_right] }

/-- The observed row is the last one a trader has seen, or row `0`. -/
lemma obsRow_le (md : MarketData) (p : Params) (hlag : 1 ≤ p.decisionLag) (ag : AgentState) :
    obsRow md p ag ≤ max 0 (ag.dataOffset + ag.step - p.decisionLag) := by
  have hclamp : ∀ t : ℤ, clampRow md (if t < 0 then 0 else t) - p.decisionLag ≤
      max 0 (t - p.decisionLag) := by
    intro t
    have hle := clampRow_le md (if t < 0 then 0 else t)
    split at hle <;> split <;> omega
  have hlagged : ∀ r lag m : ℤ, r - lag ≤ max 0 m →
      (if r - lag < 0 then 0 else r - lag) ≤ max 0 m := by
    intro r lag m hr
    split <;> omega
  unfold obsRow
  dsimp only
  rw [if_pos hlag]
  exact hlagged _ _ _ (hclamp _)

/-- **Observing.** Observations of one book are equal when the data agree on the lagged feature
row, and on its prices if a position is held. -/
theorem fillObservations_rel (hlag : 1 ≤ p.decisionLag)
    (hA : Agree md₁ md₂ (max 0 (o + n - p.decisionLag)) priceTo)
    (hprice : 0 ≤ a.positionSym → max 0 (o + n - p.decisionLag) ≤ priceTo)
    (h : SameBook o n a b) :
    Rel Eq (fillObservations md₁ p a) (fillObservations md₂ p b) := by
  have hrow : obsRow md₁ p a = obsRow md₂ p b := by
    simp only [obsRow, clampRow, hA.timesteps, h.offset_left, h.offset_right, h.step_left,
      h.step_right]
  have hle := obsRow_le md₁ p hlag a
  rw [h.offset_left, h.step_left] at hle
  unfold fillObservations
  rw [← hrow]
  refine Rel.bind (R := Eq) ?_ fun feats _ hfeats => ?_
  · -- the lagged feature rows
    unfold featureRow
    rw [← hA.timesteps]
    refine fun f g hf hg => ?_
    obtain ⟨row, hrow, hf⟩ := bind_eq_ok.mp hf
    rw [bind_of_eq_ok hrow] at hg
    rw [← pure_eq_ok.mp hf, ← pure_eq_ok.mp hg, ← hA.symbols, ← hA.width]
    have hr := (index_eq_ok hrow).1
    refine List.flatMap_congr fun s hs => List.map_congr_left fun k hk => ?_
    exact hA.features row s k (by omega) (List.mem_range.mp hs) (List.mem_range.mp hk)
  subst hfeats
  refine Rel.bind (R := Eq) ?_ fun value _ hvalue => ?_
  · -- the position at the lagged close
    unfold positionValue
    rw [← h.sym, ← h.qty, ← h.entry, ← hA.symbols]
    refine Rel.ite (fun hpos => ?_) fun _ => Rel.pure rfl
    refine Rel.bind_same fun sym _ => ?_
    refine Rel.bind (hA.getPrice_rel (hle.trans (hprice hpos)) sym _) fun price _ hp => ?_
    subst hp
    exact Rel.of_eq rfl fun _ => rfl
  subst hvalue
  rw [← h.cash, ← h.sym, ← h.hold, h.step_left, h.step_right, ← hA.symbols]
  exact Rel.of_eq rfl fun _ => rfl

/-! ## Steps and runs -/

/-- The relation between the environments of the two runs after `n` steps. -/
structure SameEnv (o n : ℤ) (e₁ e₂ : EnvState) : Prop where
  book : SameBook o n e₁.agent e₂.agent
  rng : e₁.rng = e₂.rng
  observations : e₁.observations = e₂.observations

/-- A step that does not end the episode emits the observation of the marked agent. -/
lemma cStep_eq_ok {md : MarketData} {env env' : EnvState} {action : ℤ}
    (h : cStep lm md p env action = .ok env') (hlive : env'.terminal = false) :
    ∃ x m obs, executeBar md p env.agent env.rng action = .ok x ∧
      markToMarket md p x = .ok m ∧
      fillObservations md p { m.agent with prevRet := m.ret } = .ok obs ∧
      env'.agent = { m.agent with prevRet := m.ret } ∧ env'.rng = x.rng ∧
      env'.observations = obs := by
  obtain ⟨x, m, hx, hm, ⟨hdone, -⟩ | ⟨-, hag, hrng, hobs⟩⟩ := cStep_cases h
  · rw [hdone] at hlive
    cases hlive
  · exact ⟨x, m, env'.observations, hx, hm, hobs, hag, hrng, rfl⟩

/-- **Step.** One step of both runs on data that agree up to the clock it leads to, when
neither run ends its episode. -/
theorem cStep_rel (hapr : p.shortBorrowApr = 0) (hlag : 1 ≤ p.decisionLag)
    (hT : 0 < md₁.numTimesteps) (hon : 0 ≤ o + n)
    (hA : Agree md₁ md₂ (max 0 (o + (n + 1) - p.decisionLag)) (o + (n + 1) - 1))
    {e₁ e₂ e₁' e₂' : EnvState} (h : SameEnv o n e₁ e₂) (action : ℤ)
    (h₁ : cStep lm md₁ p e₁ action = .ok e₁') (h₂ : cStep lm md₂ p e₂ action = .ok e₂')
    (hlive₁ : e₁'.terminal = false) (hlive₂ : e₂'.terminal = false) :
    SameEnv o (n + 1) e₁' e₂' := by
  obtain ⟨x, m, obs, hx, hm, hobs, hag, hrng, hobs'⟩ := cStep_eq_ok h₁ hlive₁
  obtain ⟨y, m', obs', hy, hm', hobs₂, hag₂, hrng₂, hobs₂'⟩ := cStep_eq_ok h₂ hlive₂
  rw [← h.rng] at hy
  have hxy := executeBar_rel hA hT hon (by omega) e₁.rng action h.book x y hx hy
  have hfee : Rel Eq (borrowFee md₁ p (tradeRow md₁ x.agent.tick) x.agent.tick)
      (borrowFee md₂ p (tradeRow md₂ y.agent.tick) y.agent.tick) := by
    rw [borrowFee_of_apr _ _ _ hapr, borrowFee_of_apr _ _ _ hapr]
    exact Rel.pure rfl
  have hmm := markToMarket_rel hxy.1 hfee m m' hm hm'
  have hbook : SameBook o (n + 1) { m.agent with prevRet := m.ret }
      { m'.agent with prevRet := m'.ret } := { hmm with }
  exact {
    book := by rw [hag, hag₂]; exact hbook
    rng := by rw [hrng, hrng₂]; exact hxy.2
    observations := by
      rw [hobs', hobs₂']
      exact fillObservations_rel hlag hA (fun _ => by omega) hbook obs obs' hobs hobs₂ }

/-- Both runs start the episode at the same row, with the same observation. -/
lemma cReset_rel (hlag : 1 ≤ p.decisionLag) {e₁ e₂ e₁' e₂' : EnvState}
    (hrng : e₁.rng = e₂.rng)
    (hA : Agree md₁ md₂ (max 0 ((startOffset md₁ p e₁.rng).1 - p.decisionLag)) priceTo)
    (h₁ : cReset md₁ p e₁ = .ok e₁') (h₂ : cReset md₂ p e₂ = .ok e₂') :
    SameEnv (startOffset md₁ p e₁.rng).1 0 e₁' e₂' := by
  have hstart : startOffset md₂ p e₂.rng = startOffset md₁ p e₁.rng := by
    simp only [startOffset, hA.timesteps, hrng]
  have hbook : SameBook (startOffset md₁ p e₁.rng).1 0
      (AgentState.initial (startOffset md₁ p e₁.rng).1)
      (AgentState.initial (startOffset md₁ p e₁.rng).1) :=
    ⟨rfl, rfl, rfl, rfl, rfl, rfl, rfl, rfl, rfl⟩
  simp only [cReset, resetAgentState, hstart] at h₁ h₂
  obtain ⟨obs, hobs, h₁⟩ := bind_eq_ok.mp h₁
  obtain ⟨obs', hobs', h₂⟩ := bind_eq_ok.mp h₂
  rw [← pure_eq_ok.mp h₁, ← pure_eq_ok.mp h₂]
  refine ⟨hbook, rfl, ?_⟩
  have hflat : ∀ i, ¬0 ≤ (AgentState.initial i).positionSym := by simp [AgentState.initial]
  rw [← Int.add_zero (startOffset md₁ p e₁.rng).1] at hA
  exact fillObservations_rel hlag hA (fun hpos => absurd hpos (hflat _)) hbook obs obs' hobs
    hobs'

/-- **Runs.** As long as both runs are in their first episode, data that agree up to the clock
of the last observation give the same environment, observations and actions. -/
theorem rollout_rel (hapr : p.shortBorrowApr = 0) (hlag : 1 ≤ p.decisionLag)
    (hT : 0 < md₁.numTimesteps) (pol : Policy) {e₁ e₂ : EnvState}
    (hrng : e₁.rng = e₂.rng) :
    ∀ (k : ℕ) {r₁ r₂ : Rollout}, rollout lm md₁ p pol e₁ k = .ok r₁ →
      rollout lm md₂ p pol e₂ k = .ok r₂ → r₁.ended = false → r₂.ended = false →
      Agree md₁ md₂ (max 0 ((startOffset md₁ p e₁.rng).1 + k - p.decisionLag))
        ((startOffset md₁ p e₁.rng).1 + k - 1) →
      SameEnv (startOffset md₁ p e₁.rng).1 k r₁.env r₂.env ∧ r₁.seen = r₂.seen ∧
        r₁.actions = r₂.actions := by
  have hoff := startOffset_nonneg md₁ p e₁.rng
  intro k
  induction k with
  | zero =>
    intro r₁ r₂ h₁ h₂ _ _ hA
    obtain ⟨e₁', he₁, h₁⟩ := bind_eq_ok.mp h₁
    obtain ⟨e₂', he₂, h₂⟩ := bind_eq_ok.mp h₂
    rw [← pure_eq_ok.mp h₁, ← pure_eq_ok.mp h₂]
    have hE := cReset_rel hlag hrng (hA.mono (by simp) le_rfl) he₁ he₂
    exact ⟨hE, by rw [hE.observations], rfl⟩
  | succ k ih =>
    intro r₁ r₂ h₁ h₂ hlive₁ hlive₂ hA
    obtain ⟨s₁, hs₁, h₁⟩ := bind_eq_ok.mp h₁
    obtain ⟨s₂, hs₂, h₂⟩ := bind_eq_ok.mp h₂
    obtain ⟨e₁', he₁, h₁⟩ := bind_eq_ok.mp h₁
    obtain ⟨e₂', he₂, h₂⟩ := bind_eq_ok.mp h₂
    rw [← pure_eq_ok.mp h₁] at hlive₁ ⊢
    rw [← pure_eq_ok.mp h₂] at hlive₂ ⊢
    simp only [Bool.or_eq_false_iff] at hlive₁ hlive₂
    -- the earlier observations need agreement up to an earlier clock only
    obtain ⟨hE, hseen, hact⟩ := ih hs₁ hs₂ hlive₁.1 hlive₂.1
      (hA.mono (by push_cast; omega) (by push_cast; omega))
    rw [← hseen] at he₂
    have hA' : Agree md₁ md₂ (max 0 ((startOffset md₁ p e₁.rng).1 + ((k : ℤ) + 1) -
        p.decisionLag)) ((startOffset md₁ p e₁.rng).1 + ((k : ℤ) + 1) - 1) := by
      exact_mod_cast hA
    have hE' := cStep_rel hapr hlag hT (by omega) hA' hE _ he₁ he₂ hlive₁.2 hlive₂.2
    refine ⟨by exact_mod_cast hE', ?_, ?_⟩
    · simp only [hseen, hE'.observations]
    · simp only [hact, hseen]

/-- A rollout that returned has observed a row of the data. -/
lemma rollout_timesteps_pos {md : MarketData} {pol : Policy} {e : EnvState} :
    ∀ (k : ℕ) {r : Rollout}, rollout lm md p pol e k = .ok r → 0 < md.numTimesteps := by
  intro k
  induction k with
  | zero =>
    intro r h
    obtain ⟨env, henv, -⟩ := bind_eq_ok.mp h
    obtain ⟨obs, hobs, -⟩ := bind_eq_ok.mp henv
    obtain ⟨feats, hfeats, -⟩ := bind_eq_ok.mp hobs
    obtain ⟨row, hrow, -⟩ := bind_eq_ok.mp hfeats
    exact (Nat.zero_le row).trans_lt (index_eq_ok hrow).2
  | succ k ih =>
    intro r h
    obtain ⟨s, hs, -⟩ := bind_eq_ok.mp h
    exact ih hs

/-- In its first episode, a rollout of `k` steps is `k` bars past its start. -/
lemma rollout_clock (hapr : p.shortBorrowApr = 0) (hlag : 1 ≤ p.decisionLag) {pol : Policy}
    {e : EnvState} {k : ℕ} {r : Rollout} (h : rollout lm md₁ p pol e k = .ok r)
    (hlive : r.ended = false) : r.clock = (startOffset md₁ p e.rng).1 + k := by
  obtain ⟨hE, -, -⟩ := rollout_rel hapr hlag (rollout_timesteps_pos k h) pol rfl k h h hlive
    hlive (Agree.refl _ _ _)
  rw [Rollout.clock, hE.book.offset_left, hE.book.step_left]

/-- **No lookahead.** Two runs of a policy, with the same parameters and generator, on data sets
of one shape that agree on the features up to row `τ - lag` (or row `0`) and on the prices and
the mask up to row `τ - 1`: if both are still in their first episode when the observation for
clock `τ` is emitted, they have emitted the same observations and taken the same actions, and
they take the same action at bar `τ`.

**Proof sketch.** Induction on the number of steps (`rollout_rel`), with the book of the agent as
the invariant: orders read the bar they execute at, which is before `τ`, the value marked at
row `τ` reaches only the statistics, and observations read lagged rows. -/
theorem rollout_noLookahead (lm : Libm) (md₁ md₂ : MarketData) (p : Params)
    (hapr : p.shortBorrowApr = 0) (hlag : 1 ≤ p.decisionLag) (pol : Policy) (e₁ e₂ : EnvState)
    (hrng : e₁.rng = e₂.rng) (k : ℕ) (r₁ r₂ : Rollout)
    (h₁ : rollout lm md₁ p pol e₁ k = .ok r₁) (h₂ : rollout lm md₂ p pol e₂ k = .ok r₂)
    (hlive₁ : r₁.ended = false) (hlive₂ : r₂.ended = false)
    (hA : Agree md₁ md₂ (max 0 (r₁.clock - p.decisionLag)) (r₁.clock - 1)) :
    r₂.clock = r₁.clock ∧ r₁.seen = r₂.seen ∧ r₁.actions = r₂.actions ∧
      pol r₁.seen = pol r₂.seen := by
  have hT := rollout_timesteps_pos k h₁
  have hclock := rollout_clock hapr hlag h₁ hlive₁
  rw [hclock] at hA
  obtain ⟨hE, hseen, hact⟩ := rollout_rel hapr hlag hT pol hrng k h₁ h₂ hlive₁ hlive₂ hA
  refine ⟨?_, hseen, hact, by rw [hseen]⟩
  rw [hclock, Rollout.clock, hE.book.offset_right, hE.book.step_right]

/-- The rollouts of the next theorem: always long, from row `0` of a market whose prices are
`price`. -/
def longRollout (price : ℕ → ℚ) : Checked Rollout :=
  rollout .firstOrder (rowMarket 9 price) { keelEnvCreate with forcedOffset := 0 }
    (fun _ => 1) (.zero 7) 3

/-- A crash at row `3` is not visible in the observation at clock `3`. -/
theorem rollout_noLookahead_crash :
    ∃ r₁ r₂, longRollout (fun _ => 100) = .ok r₁ ∧
      longRollout (fun t => if t < 3 then 100 else 50) = .ok r₂ ∧
      r₂.clock = r₁.clock ∧ r₁.seen = r₂.seen ∧ r₁.actions = r₂.actions := by
  obtain ⟨r₁, h₁, hr₁⟩ := exists_of_toOption (x := longRollout fun _ => 100)
    (P := fun r => !r.ended && decide (r.clock = 3)) (by decide +kernel)
  obtain ⟨r₂, h₂, hr₂⟩ := exists_of_toOption
    (x := longRollout fun t => if t < 3 then 100 else 50) (P := fun r => !r.ended)
    (by decide +kernel)
  simp only [Bool.and_eq_true, Bool.not_eq_true', decide_eq_true_eq] at hr₁ hr₂
  have hagree : Agree (rowMarket 9 fun _ => 100) (rowMarket 9 fun t => if t < 3 then 100 else 50)
      (max 0 (3 - 2)) (3 - 1) := by
    refine ⟨rfl, rfl, rfl, fun t s f ht _ _ => ?_, fun t s k ht _ => ?_, fun _ _ _ _ => rfl⟩
    · have ht' : t < 3 := by omega
      simp [rowMarket, ht']
    · have ht' : t < 3 := by omega
      simp [rowMarket, ht']
  rw [← hr₁.2] at hagree
  obtain ⟨hclock, hseen, hactions, -⟩ := rollout_noLookahead .firstOrder _ _ _ rfl (by decide)
    (fun _ => 1) _ _ rfl 3 r₁ r₂ h₁ h₂ hr₁.1 hr₂ hagree
  exact ⟨r₁, r₂, h₁, h₂, hclock, hseen, hactions⟩

end KeelTrader.Sim
