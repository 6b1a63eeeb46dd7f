import Mathlib.Data.String.Basic
import KeelTrader.Models.Sizing

set_option relaxedAutoImplicit false
set_option autoImplicit false

/-!
# The decision

What `decide` returns depends on which signals it is given and not on their order: the picks are
the best few of the eligible signals, in an order that tells distinct symbols apart.

## Main definitions

* `KeelTrader.Models.Eligible` — the signals that pass the conviction filter.
* `KeelTrader.Models.selected` — the picks of `decide`.

## Main results

* `KeelTrader.Models.selected_perm` — the picks of a permutation of the signals.
* `KeelTrader.Models.inverseVolWeights_sublist`, `inverseVolWeights_all` — sizing keeps the order
  of the picks, and all of them.
* `KeelTrader.Models.decide_best` — the decision is that of every permutation, and positions the
  best eligible names.
-/

namespace KeelTrader.Models

/-- The signal passes the conviction filter. -/
def Eligible (cfg : StrategyConfig) (s : SymbolSignal) : Prop :=
  s.score > 0 ∧ s.score ≥ cfg.convictionThreshold

instance (cfg : StrategyConfig) (s : SymbolSignal) : Decidable (Eligible cfg s) :=
  inferInstanceAs (Decidable (_ ∧ _))

/-- The picks of `decide`. -/
def selected (signals : List SymbolSignal) (cfg : StrategyConfig) : List SymbolSignal :=
  selectPicks (filterByConviction signals cfg) cfg

/-! ## The order of the picks -/

instance : Std.Total SymbolSignal.Before where
  total a b := by
    rcases lt_trichotomy a.score b.score with hlt | heq | hgt
    · exact .inr (.inl hlt)
    · rcases le_total a.symbol b.symbol with hle | hle
      · exact .inl (.inr ⟨heq, hle⟩)
      · exact .inr (.inr ⟨heq.symm, hle⟩)
    · exact .inl (.inl hgt)

instance : IsTrans SymbolSignal SymbolSignal.Before where
  trans a b c hab hbc := by
    rcases hab with hab | ⟨hab, hsab⟩
    · rcases hbc with hbc | ⟨hbc, -⟩
      · exact .inl (lt_trans hbc hab)
      · exact .inl (hbc ▸ hab)
    · rcases hbc with hbc | ⟨hbc, hsbc⟩
      · exact .inl (hab ▸ hbc)
      · exact .inr ⟨hab.trans hbc, le_trans hsab hsbc⟩

/-- Signals that come before each other have one symbol. -/
lemma SymbolSignal.Before.symbol_eq {a b : SymbolSignal} (hab : a.Before b) (hba : b.Before a) :
    a.symbol = b.symbol := by
  rcases hab with hab | ⟨heq, hsab⟩
  · rcases hba with hba | ⟨heq, -⟩
    · exact absurd hab (lt_asymm hba)
    · exact absurd heq hab.ne
  · rcases hba with hba | ⟨-, hsba⟩
    · exact absurd heq hba.ne
    · exact le_antisymm hsab hsba

section Decide

variable {cfg : StrategyConfig} {signals signals' : List SymbolSignal}

lemma mem_filterByConviction {s : SymbolSignal} :
    s ∈ filterByConviction signals cfg ↔ s ∈ signals ∧ Eligible cfg s := by
  simp [filterByConviction, Eligible, and_comm]

lemma length_filterByConviction : (filterByConviction signals cfg).length =
    signals.countP fun s => decide (Eligible cfg s) := by
  rw [filterByConviction, ← List.countP_eq_length_filter]
  refine List.countP_congr fun s _ => ?_
  simp [Eligible, and_comm]

/-- The eligible signals have distinct symbols when all have. -/
lemma nodup_filterByConviction (h : (signals.map SymbolSignal.symbol).Nodup) :
    ((filterByConviction signals cfg).map SymbolSignal.symbol).Nodup :=
  h.sublist (List.filter_sublist.map SymbolSignal.symbol)

/-- **Permutations** of signals with distinct symbols have the same picks, in the same order. -/
theorem selected_perm (hnodup : (signals.map SymbolSignal.symbol).Nodup)
    (hperm : signals'.Perm signals) : selected signals' cfg = selected signals cfg := by
  have hfilter : (filterByConviction signals' cfg).Perm (filterByConviction signals cfg) :=
    hperm.filter _
  unfold selected
  rw [selectPicks_eq_topBy, selectPicks_eq_topBy]
  refine topBy_perm hfilter fun a ha b hb hab hba => ?_
  exact List.inj_on_of_nodup_map (nodup_filterByConviction hnodup) ha hb (hab.symbol_eq hba)

/-- What is selected is eligible. -/
lemma mem_selected {s : SymbolSignal} (h : s ∈ selected signals cfg) :
    s ∈ signals ∧ Eligible cfg s :=
  mem_filterByConviction.mp (mem_selectPicks h)

/-- An eligible signal that is left out scores less than every selected one, or the same under
a larger symbol. -/
lemma rel_of_notMem_selected (hnodup : (signals.map SymbolSignal.symbol).Nodup)
    {s t : SymbolSignal} (hs : s ∈ signals) (heligible : Eligible cfg s)
    (hnot : s ∉ selected signals cfg) (ht : t ∈ selected signals cfg) :
    s.score < t.score ∨ s.score = t.score ∧ t.symbol < s.symbol := by
  have hmem : s ∈ filterByConviction signals cfg := mem_filterByConviction.mpr ⟨hs, heligible⟩
  rcases rel_of_notMem_topBy hmem hnot ht with hlt | ⟨heq, hle⟩
  · exact .inl hlt
  · refine .inr ⟨heq.symm, lt_of_le_of_ne hle fun hsymbol => hnot ?_⟩
    have hst : t = s := List.inj_on_of_nodup_map hnodup (mem_selected ht).1 hs hsymbol
    exact hst ▸ ht

/-- Sizing positions some of the picks, in their order. -/
theorem inverseVolWeights_sublist (hvol : 0 < cfg.minVolatility) (picks : List SymbolSignal) :
    ∃ positions, inverseVolWeights picks cfg = some positions ∧
      (positions.map Position.symbol).Sublist (picks.map SymbolSignal.symbol) := by
  unfold inverseVolWeights
  by_cases hne : picks = []
  · exact ⟨[], by rw [if_pos hne], by simp⟩
  have hany : (picks.any fun s => decide (max s.volatility cfg.minVolatility = 0)) = false := by
    rw [List.any_eq_false]
    intro s _
    simpa using (max_volatility_pos hvol s).ne'
  rw [if_neg hne, rawWeights, hany]
  refine ⟨_, rfl, ?_⟩
  dsimp only
  split_ifs
  · simp
  · refine (List.filter_sublist.map Position.symbol).trans ?_
    rw [List.map_map]
    exact List.Sublist.refl _

/-- Sizing positions all of the picks when the cap and the gross exposure are positive. -/
theorem inverseVolWeights_all (hvol : 0 < cfg.minVolatility) (hcap : 0 < cfg.maxPositionWeight)
    (hgross : 0 < cfg.grossExposure) {picks : List SymbolSignal}
    (hnodup : (picks.map SymbolSignal.symbol).Nodup) {positions : List Position}
    (h : inverseVolWeights picks cfg = some positions) :
    positions.map Position.symbol = picks.map SymbolSignal.symbol := by
  by_cases hne : picks = []
  · rw [inverseVolWeights, if_pos hne] at h
    rw [← Option.some.inj h, hne, List.map_nil, List.map_nil]
  · obtain ⟨raw, result, rounds, L, -, -, -, -, -, hresult⟩ :=
      exists_filled hne hnodup hvol hcap hgross
    rw [hresult] at h
    rw [← Option.some.inj h, List.map_map]
    rfl

/-- **The decision is order-independent and positions the best eligible names.** For signals with
distinct symbols and a positive floor of the volatility, every permutation of the signals has the
same decision. What is selected is eligible, without repetition, and as many as are eligible, up to
`max_positions`; an eligible signal that is not selected scores no more than every selected one,
where between equal scores the smaller symbol is selected. The positions are some of the selected
names, in their order, and all of them when the cap and the gross exposure are positive. -/
theorem decide_best (cfg : StrategyConfig) (signals signals' : List SymbolSignal)
    (hnodup : (signals.map SymbolSignal.symbol).Nodup) (hperm : signals'.Perm signals)
    (hvol : 0 < cfg.minVolatility) :
    ∃ positions, cfg.decide signals = some positions ∧ cfg.decide signals' = some positions ∧
      (positions.map Position.symbol).Sublist
        ((selected signals cfg).map SymbolSignal.symbol) ∧
      (0 < cfg.maxPositionWeight → 0 < cfg.grossExposure →
        positions.map Position.symbol = (selected signals cfg).map SymbolSignal.symbol) ∧
      ((selected signals cfg).map SymbolSignal.symbol).Nodup ∧
      (∀ s ∈ selected signals cfg, s ∈ signals ∧ Eligible cfg s) ∧
      ((selected signals cfg).length : ℤ) =
        min (max 0 cfg.maxPositions) (signals.countP fun s => decide (Eligible cfg s)) ∧
      (positions.length : ℤ) ≤ max 0 cfg.maxPositions ∧
      ∀ s ∈ signals, Eligible cfg s → s ∉ selected signals cfg → ∀ t ∈ selected signals cfg,
        s.score < t.score ∨ s.score = t.score ∧ t.symbol < s.symbol := by
  obtain ⟨positions, hpositions, hsublist⟩ :=
    inverseVolWeights_sublist hvol (selected signals cfg)
  have hdistinct : ((selected signals cfg).map SymbolSignal.symbol).Nodup := by
    rw [selected, selectPicks_eq_topBy]
    exact nodup_map_topBy (nodup_filterByConviction hnodup)
  have hlength : ((selected signals cfg).length : ℤ) ≤ max 0 cfg.maxPositions :=
    selectPicks_length_le _ cfg
  refine ⟨positions, hpositions, ?_, hsublist, fun hcap hgross => ?_, hdistinct,
    fun s hs => mem_selected hs, ?_, ?_,
    fun s hs heligible hnot t ht => rel_of_notMem_selected hnodup hs heligible hnot ht⟩
  · show inverseVolWeights (selected signals' cfg) cfg = some positions
    rw [selected_perm hnodup hperm]
    exact hpositions
  · exact inverseVolWeights_all hvol hcap hgross hdistinct hpositions
  · rw [selected, selectPicks_length, length_filterByConviction]
  · have hle := hsublist.length_le
    rw [List.length_map, List.length_map] at hle
    omega

/-- Four names, of which one scores below zero and two are tied for the second position. -/
theorem decide_best_tie :
    let cfg : StrategyConfig := { maxPositions := 2 }
    let signals : List SymbolSignal :=
      [⟨"D", -1, 1 / 50⟩, ⟨"B", 1, 1 / 50⟩, ⟨"C", 2, 1 / 50⟩, ⟨"A", 1, 1 / 50⟩]
    cfg.decide signals = some [⟨"C", 34 / 100⟩, ⟨"A", 34 / 100⟩] ∧
      cfg.decide signals.reverse = some [⟨"C", 34 / 100⟩, ⟨"A", 34 / 100⟩] ∧
      (selected signals cfg).map SymbolSignal.symbol = ["C", "A"] := by
  intro cfg signals
  have hrun : cfg.decide signals = some [⟨"C", 34 / 100⟩, ⟨"A", 34 / 100⟩] := by decide +kernel
  obtain ⟨positions, h, h', -, hall, -⟩ := decide_best cfg signals signals.reverse (by decide)
    signals.reverse_perm (by norm_num [cfg])
  obtain rfl := Option.some.inj (h.symm.trans hrun)
  exact ⟨hrun, h', (hall (by norm_num [cfg]) (by norm_num [cfg])).symm⟩

end Decide

end KeelTrader.Models
