import KeelTrader.Sim.Rules

set_option relaxedAutoImplicit false
set_option autoImplicit false

/-!
# The limit-fill rule

What `resolve_limit_fill_price` guarantees of the orders that it accepts: the fill is inside the
traded range of the bar and never better than the limit, the buffer only decides whether there is a
fill, and an order that fills is no worse off with a smaller buffer or a smaller slippage.

## Main definitions

* `KeelTrader.Sim.AdverseFill` — a fill inside the bar, on the wrong side of its limit.
* `KeelTrader.Sim.AsGood` — a price that is at least as good for its order.
* `KeelTrader.Sim.FillLaw` — what the rule guarantees on one bar.

## Main results

* `KeelTrader.Sim.limitFillPrice_eq_some_iff` — when an order fills, and at which price.
* `KeelTrader.Sim.limitFill_adverse`, `limitFill_mono` — the two halves of the law.
* `KeelTrader.Sim.openTarget_adverse` — the entries fill by the law.
* `KeelTrader.Sim.fillLaw` — the rule, the probe of the paper loop and the entries.
-/

namespace KeelTrader.Sim

open Checked

/-- The fill and its limit are inside the traded range of the bar, and the fill is not better than
the limit. -/
def AdverseFill (isBuy : Bool) (low high limit fill : ℚ) : Prop :=
  if isBuy then min low high ≤ limit ∧ limit ≤ fill ∧ fill ≤ max low high
  else min low high ≤ fill ∧ fill ≤ limit ∧ limit ≤ max low high

/-- The price is at least as good for the order as the other. -/
def AsGood (isBuy : Bool) (price other : ℚ) : Prop :=
  if isBuy then price ≤ other else other ≤ price

/-- The limit, moved by the slippage against the order. -/
def slippedPrice (fillSlippageBps targetPrice : ℚ) (isBuy : Bool) : ℚ :=
  if isBuy then targetPrice * (1 + fillSlippageBps / 10000)
  else targetPrice * (1 - fillSlippageBps / 10000)

/-- What the fill rule guarantees of an order at `targetPrice`, on a bar with the given low and
high. -/
structure FillLaw (fillBufferBps fillSlippageBps low high targetPrice : ℚ) (isBuy : Bool) :
    Prop where
  /-- An accepted order fills inside the bar, at its limit moved against it. -/
  adverse : ∀ f, limitFillPrice fillBufferBps fillSlippageBps low high targetPrice isBuy = some f →
    f = slippedPrice fillSlippageBps targetPrice isBuy ∧ AdverseFill isBuy low high targetPrice f
  /-- The accepted price does not depend on the buffer. -/
  gates : ∀ b f f',
    limitFillPrice fillBufferBps fillSlippageBps low high targetPrice isBuy = some f →
    limitFillPrice b fillSlippageBps low high targetPrice isBuy = some f' → f' = f
  /-- Smaller frictions accept the order too, at a price that is at least as good. -/
  mono : ∀ b s f, b ≤ fillBufferBps → s ≤ fillSlippageBps →
    limitFillPrice fillBufferBps fillSlippageBps low high targetPrice isBuy = some f →
    ∃ f', limitFillPrice b s low high targetPrice isBuy = some f' ∧ AsGood isBuy f' f
  /-- The fills of the probe that the paper loop calls are those of the rule. -/
  probe : ∀ o c,
    keelTestFillPrice o high low c targetPrice fillBufferBps fillSlippageBps isBuy ≠ 0 →
    AdverseFill isBuy low high targetPrice
      (keelTestFillPrice o high low c targetPrice fillBufferBps fillSlippageBps isBuy)

/-! ## The rule -/

section Rule

variable {b s low high x f : ℚ} {isBuy : Bool}

/-- The traded range is the low and the high in their order. -/
lemma barRange_eq (low high : ℚ) : barRange low high = (min low high, max low high) := by
  unfold barRange
  split
  · next h => rw [min_eq_right h.le, max_eq_left h.le]
  · next h => rw [min_eq_left (not_lt.mp h), max_eq_right (not_lt.mp h)]

lemma buyTrigger_eq (b x : ℚ) : buyTrigger b x = max 0 (x * (1 - b / 10000)) := by
  unfold buyTrigger
  dsimp only
  split
  · next h => rw [max_eq_left h.le]
  · next h => rw [max_eq_right (not_lt.mp h)]

/-- An order passes two tests, or it does not fill. -/
lemma gated_eq_some_iff {A B : Prop} [Decidable A] [Decidable B] {price : ℚ} :
    (if A then none else if B then none else some price) = some f ↔ f = price ∧ ¬A ∧ ¬B := by
  by_cases hA : A
  · simp [hA]
  · by_cases hB : B
    · simp [hA, hB]
    · simp [hA, hB, eq_comm]

/-- **The rule.** An order fills when the bar overshoots its trigger and its slipped price is still
inside the bar. -/
theorem limitFillPrice_eq_some_iff : limitFillPrice b s low high x isBuy = some f ↔
    f = slippedPrice s x isBuy ∧
      if isBuy then min low high ≤ max 0 (x * (1 - b / 10000)) ∧ f ≤ max low high
      else x * (1 + b / 10000) ≤ max low high ∧ min low high ≤ f := by
  unfold limitFillPrice slippedPrice
  rw [barRange_eq, buyTrigger_eq]
  cases isBuy with
  | true =>
    simp only [if_true, gated_eq_some_iff, gt_iff_lt, not_lt]
    constructor <;> (rintro ⟨rfl, hgate⟩; exact ⟨rfl, hgate⟩)
  | false =>
    simp only [Bool.false_eq_true, if_false, gated_eq_some_iff, not_lt]
    constructor <;> (rintro ⟨rfl, hgate⟩; exact ⟨rfl, hgate⟩)

/-- **Adverse fills.** A fill at a positive limit is inside the bar and not better than the
limit. -/
theorem limitFill_adverse (hx : 0 < x) (hb : 0 ≤ b) (hs : 0 ≤ s)
    (h : limitFillPrice b s low high x isBuy = some f) : AdverseFill isBuy low high x f := by
  obtain ⟨rfl, hgate⟩ := limitFillPrice_eq_some_iff.mp h
  have hbuffer : 0 ≤ x * (b / 10000) := mul_nonneg hx.le (div_nonneg hb (by norm_num))
  have hslip : 0 ≤ x * (s / 10000) := mul_nonneg hx.le (div_nonneg hs (by norm_num))
  cases isBuy with
  | true =>
    simp only [if_true] at hgate
    have htrigger : max 0 (x * (1 - b / 10000)) ≤ x := max_le hx.le (by linarith)
    have hlimit : x ≤ x * (1 + s / 10000) := by linarith
    exact ⟨hgate.1.trans htrigger, hlimit, hgate.2⟩
  | false =>
    simp only [Bool.false_eq_true, if_false] at hgate
    have htrigger : x ≤ x * (1 + b / 10000) := by linarith
    have hlimit : x * (1 - s / 10000) ≤ x := by linarith
    exact ⟨hgate.2, hlimit, htrigger.trans hgate.1⟩

/-- **Frictions.** An order that fills also fills with a smaller buffer and a smaller slippage, at
a price that is at least as good. -/
theorem limitFill_mono {b' s' : ℚ} (hx : 0 < x) (hb : b' ≤ b) (hs : s' ≤ s)
    (h : limitFillPrice b s low high x isBuy = some f) :
    ∃ f', limitFillPrice b' s' low high x isBuy = some f' ∧ AsGood isBuy f' f := by
  obtain ⟨rfl, hgate⟩ := limitFillPrice_eq_some_iff.mp h
  refine ⟨slippedPrice s' x isBuy, limitFillPrice_eq_some_iff.mpr ⟨rfl, ?_⟩, ?_⟩
  all_goals
    have hbuffer : x * (b' / 10000) ≤ x * (b / 10000) :=
      mul_le_mul_of_nonneg_left (by linarith) hx.le
    have hslip : x * (s' / 10000) ≤ x * (s / 10000) :=
      mul_le_mul_of_nonneg_left (by linarith) hx.le
  · cases isBuy with
    | true =>
      simp only [if_true, slippedPrice] at hgate ⊢
      have htrigger : max 0 (x * (1 - b / 10000)) ≤ max 0 (x * (1 - b' / 10000)) :=
        max_le_max le_rfl (by linarith)
      exact ⟨hgate.1.trans htrigger, by linarith [hgate.2]⟩
    | false =>
      simp only [Bool.false_eq_true, if_false, slippedPrice] at hgate ⊢
      exact ⟨by linarith [hgate.1], by linarith [hgate.2]⟩
  · cases isBuy with
    | true =>
      show x * (1 + s' / 10000) ≤ x * (1 + s / 10000)
      linarith
    | false =>
      show x * (1 - s / 10000) ≤ x * (1 - s' / 10000)
      linarith

end Rule

/-! ## The entries -/

section Entries

variable {md : MarketData} {p : Params} {t sym : ℤ} {alloc level : ℚ} {isShort : Bool}
  {ag ag' : AgentState}

/-- The position was entered at symbol `sym` of row `t`, by an adverse fill of a limit that is
`level` basis points off the open of the bar. -/
def EnteredAdversely (md : MarketData) (t sym : ℤ) (level : ℚ) (isBuy : Bool)
    (ag : AgentState) : Prop :=
  ∃ ref low high, getPrice md t sym .pOpen = .ok ref ∧ getPrice md t sym .pLow = .ok low ∧
    getPrice md t sym .pHigh = .ok high ∧
      AdverseFill isBuy low high (ref * (1 + level / 10000)) ag.entryPrice

/-- **Entries.** An entry leaves the agent alone, or it fills adversely. -/
theorem openTarget_adverse (hb : 0 ≤ p.fillBufferBps) (hs : 0 ≤ p.fillSlippageBps)
    (h : openTarget md p t isShort sym alloc level ag = .ok ag') :
    ag' = ag ∨ EnteredAdversely md t sym level (!isShort) ag' := by
  rcases openTarget_cases h with hsame | ⟨f, q, hsized, rfl⟩
  · exact .inl hsame
  · obtain ⟨-, -, -, -, -, ref, href, -, htarget, hfill⟩ := sizedFill_spec hsized
    obtain ⟨low, hlow, hfill⟩ := bind_eq_ok.mp hfill
    obtain ⟨high, hhigh, hfill⟩ := bind_eq_ok.mp hfill
    exact .inr ⟨ref, low, high, href, hlow, hhigh,
      limitFill_adverse htarget hb hs (pure_eq_ok.mp hfill)⟩

end Entries

/-- **Limit fills.** The fill rule obeys its law on every bar, and every entry of `open_long` and
`open_short` is by the rule. -/
theorem fillLaw {b s : ℚ} (hb : 0 ≤ b) (hs : 0 ≤ s) :
    (∀ low high x isBuy, 0 < x → FillLaw b s low high x isBuy) ∧
    ∀ md p t sym alloc level ag ag', p.fillBufferBps = b → p.fillSlippageBps = s →
      (openLong md p t sym alloc level ag = .ok ag' →
        ag' = ag ∨ EnteredAdversely md t sym level true ag') ∧
      (openShort md p t sym alloc level ag = .ok ag' →
        ag' = ag ∨ EnteredAdversely md t sym level false ag') := by
  constructor
  · intro low high x isBuy hx
    constructor
    · intro f hf
      exact ⟨(limitFillPrice_eq_some_iff.mp hf).1, limitFill_adverse hx hb hs hf⟩
    · intro b' f f' hf hf'
      rw [(limitFillPrice_eq_some_iff.mp hf).1, (limitFillPrice_eq_some_iff.mp hf').1]
    · intro b' s' f hb' hs' hf
      exact limitFill_mono hx hb' hs' hf
    · intro o c hne
      unfold keelTestFillPrice at hne ⊢
      cases hf : limitFillPrice b s low high x isBuy with
      | none =>
        rw [hf] at hne
        exact absurd rfl hne
      | some f => exact limitFill_adverse hx hb hs hf
  · rintro md p t sym alloc level ag ag' rfl rfl
    constructor
    · intro h
      have hopen : openTarget md p t false sym alloc level ag = .ok ag' := h
      exact openTarget_adverse hb hs hopen
    · intro h
      have hopen : openTarget md p t true sym alloc level ag = .ok ag' := h
      exact openTarget_adverse hb hs hopen

/-- A buy at 100 on a bar from 99 to 101, with 20 basis points of slippage. -/
theorem fillLaw_golden : limitFillPrice 5 20 99 101 100 true = some (1002 / 10) ∧
    AdverseFill true 99 101 100 (1002 / 10) :=
  have hfill : limitFillPrice 5 20 99 101 100 true = some (1002 / 10) := by decide +kernel
  ⟨hfill, (((fillLaw (by norm_num) (by norm_num)).1 99 101 100 true (by norm_num)).adverse _
    hfill).2⟩

end KeelTrader.Sim
