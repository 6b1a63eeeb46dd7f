import KeelTrader.Lib.WaterFilling
import KeelTrader.Models.Strategy

set_option relaxedAutoImplicit false
set_option autoImplicit false

/-!
# Inverse-volatility sizing

The loop of `inverse_vol_weights` is a capped water-filling of the gross exposure: the names that
it caps in some round stay above the cap at the final level, and the budget never runs out.

## Main definitions

* `KeelTrader.Models.EndsAfter` — the loop, by its rounds.
* `KeelTrader.Models.weightIn` — the weight of a name in a dictionary.
* `KeelTrader.Models.Rounds` — the invariant of the loop.

## Main results

* `KeelTrader.Models.EndsAfter.capLoop` — the loop with enough fuel.
* `KeelTrader.Models.Rounds.next` — a round keeps the invariant.
* `KeelTrader.Models.Rounds.ends` — the loop ends, with a water-filling.
* `KeelTrader.Models.exists_filled` — what the sizing of distinct picks returns.
* `KeelTrader.Models.inverseVolWeights_filled` — the weights of distinct picks are the capped
  water-filling of the gross exposure.
-/

namespace KeelTrader.Models

open WaterFilling

/-! ## The loop -/

/-- `capped.update(newly_capped)`, where every value is the cap. -/
def capNames (cfg : StrategyConfig) (names : List String) (capped : Dict String ℚ) :
    Dict String ℚ :=
  names.foldl (fun d sym => d.set sym cfg.maxPositionWeight) capped

/-- The proportional split of the last round. -/
def splitRest (remBudget remTotal : ℚ) (capped remaining : Dict String ℚ) : Dict String ℚ :=
  remaining.entries.foldl (fun d e => d.set e.1 (remBudget * (e.2 / remTotal))) capped

/-- The names that overflow in a round. -/
def newlyCapped (cfg : StrategyConfig) (capped remaining : Dict String ℚ) : List String :=
  overflowing cfg (cfg.grossExposure - total capped) (total remaining) remaining

/-- From `capped` and `remaining`, the loop of `inverse_vol_weights` ends after some rounds and
leaves `result` in `capped`. -/
inductive EndsAfter (cfg : StrategyConfig) :
    ℕ → Dict String ℚ → Dict String ℚ → Dict String ℚ → Prop where
  /-- No name is left. -/
  | empty {capped remaining : Dict String ℚ} (hnil : remaining.entries = []) :
    EndsAfter cfg 0 capped remaining capped
  /-- No budget or no weight is left. -/
  | spent {capped remaining : Dict String ℚ} (hne : remaining.entries ≠ [])
    (hspent : cfg.grossExposure - total capped ≤ 0 ∨ total remaining ≤ 0) :
    EndsAfter cfg 1 capped remaining capped
  /-- Nothing overflows. -/
  | final {capped remaining : Dict String ℚ} (hne : remaining.entries ≠ [])
    (hleft : ¬(cfg.grossExposure - total capped ≤ 0 ∨ total remaining ≤ 0))
    (hover : newlyCapped cfg capped remaining = []) :
    EndsAfter cfg 1 capped remaining
      (splitRest (cfg.grossExposure - total capped) (total remaining) capped remaining)
  /-- Some names overflow and are capped. -/
  | again {rounds : ℕ} {capped remaining result : Dict String ℚ} (hne : remaining.entries ≠ [])
    (hleft : ¬(cfg.grossExposure - total capped ≤ 0 ∨ total remaining ≤ 0))
    (hover : newlyCapped cfg capped remaining ≠ [])
    (hrest : EndsAfter cfg rounds (capNames cfg (newlyCapped cfg capped remaining) capped)
      (remaining.filter fun sym _ => decide (sym ∉ newlyCapped cfg capped remaining)) result) :
    EndsAfter cfg (rounds + 1) capped remaining result

/-- **Fuel.** A loop that ends does so with as much fuel as it has rounds, or more. -/
theorem EndsAfter.capLoop {cfg : StrategyConfig} {rounds : ℕ}
    {capped remaining result : Dict String ℚ} (h : EndsAfter cfg rounds capped remaining result)
    (extra : ℕ) : capLoop cfg (rounds + extra) capped remaining = result := by
  induction h with
  | empty hnil => cases extra <;> simp [Models.capLoop, hnil]
  | spent hne hspent =>
    rw [add_comm, Models.capLoop, if_neg hne, if_pos hspent]
  | final hne hleft hover =>
    rw [add_comm, Models.capLoop, if_neg hne, if_neg hleft]
    exact if_pos hover
  | again hne hleft hover hrest ih =>
    rw [Nat.add_right_comm, Models.capLoop, if_neg hne, if_neg hleft]
    exact (if_neg hover).trans ih

/-! ## Weights -/

/-- The weight of a name in a dictionary, `0` if it is not there. -/
def weightIn (d : Dict String ℚ) (sym : String) : ℚ := (d.get? sym).getD 0

/-- The sum of the values is the sum over the names. -/
lemma total_eq_sum (d : Dict String ℚ) : total d = ∑ sym ∈ d.keys.toFinset, weightIn d sym := by
  rw [Dict.keys, List.sum_toFinset _ d.nodup, total, List.map_map]
  refine congrArg List.sum (List.map_congr_left fun e he => ?_)
  have hget : d.get? e.1 = some e.2 := Dict.get?_eq_some_iff.mpr he
  simp [weightIn, hget]

lemma mem_keys_toFinset {d : Dict String ℚ} {sym : String} :
    sym ∈ d.keys.toFinset ↔ ∃ w, d.get? sym = some w := by
  rw [List.mem_toFinset, Dict.mem_keys_iff]

/-- What a lookup sees after names were capped. -/
lemma get?_capNames (cfg : StrategyConfig) (names : List String) (capped : Dict String ℚ)
    (sym : String) : (capNames cfg names capped).get? sym =
      if sym ∈ names then some cfg.maxPositionWeight else capped.get? sym := by
  unfold capNames
  induction names generalizing capped with
  | nil => simp
  | cons name names ih =>
    rw [List.foldl_cons, ih, Dict.get?_set]
    by_cases hmem : sym ∈ names
    · simp [hmem]
    · by_cases hname : sym = name <;> simp [hmem, hname]

/-- What a lookup sees after the proportional split. -/
lemma get?_splitRest (remBudget remTotal : ℚ) (capped remaining : Dict String ℚ) (sym : String) :
    (splitRest remBudget remTotal capped remaining).get? sym =
      match remaining.get? sym with
      | some w => some (remBudget * (w / remTotal))
      | none => capped.get? sym := by
  have hfold : splitRest remBudget remTotal capped remaining =
      (remaining.entries.map fun e => (e.1, remBudget * (e.2 / remTotal))).foldl
        (fun d e => d.set e.1 e.2) capped := by
    rw [splitRest, List.foldl_map]
  have hkeys : (remaining.entries.map fun e => (e.1, remBudget * (e.2 / remTotal))).map Prod.fst =
      remaining.keys := by
    rw [List.map_map]
    rfl
  rw [hfold]
  cases hget : remaining.get? sym with
  | some w =>
    refine Dict.get?_foldl_set_of_mem (hkeys ▸ remaining.nodup) ?_ capped
    exact List.mem_map.mpr ⟨(sym, w), Dict.get?_eq_some_iff.mp hget, rfl⟩
  | none =>
    refine Dict.get?_foldl_set_of_notMem (fun hmem => ?_) capped
    rw [hkeys, Dict.mem_keys_iff] at hmem
    simp [hget] at hmem

/-- The names that overflow. -/
lemma mem_newlyCapped {cfg : StrategyConfig} {capped remaining : Dict String ℚ} {sym : String} :
    sym ∈ newlyCapped cfg capped remaining ↔ ∃ w, remaining.get? sym = some w ∧
      cfg.maxPositionWeight + 1 / 10 ^ 12 <
        (cfg.grossExposure - total capped) * (w / total remaining) := by
  unfold newlyCapped overflowing
  rw [Dict.mem_keys_iff]
  simp [Dict.get?_filter, Option.filter_eq_some_iff]

/-! ## The invariant -/

/-- **The invariant of the loop.** The names capped so far have the cap, and they are those of
`raw` that are not left. -/
structure Rounds (cfg : StrategyConfig) (raw capped remaining : Dict String ℚ) (L : ℚ) :
    Prop where
  /-- The rounds so far. -/
  filling : Filling (weightIn raw) cfg.maxPositionWeight cfg.grossExposure raw.keys.toFinset
    remaining.keys.toFinset L
  /-- The names left have their raw weights. -/
  remaining_eq : ∀ sym w, remaining.get? sym = some w → raw.get? sym = some w
  /-- The other names have the cap. -/
  capped_iff : ∀ sym w, capped.get? sym = some w ↔
    sym ∈ raw.keys.toFinset \ remaining.keys.toFinset ∧ w = cfg.maxPositionWeight

section Rounds

variable {cfg : StrategyConfig} {raw capped remaining : Dict String ℚ} {L : ℚ}

/-- No name is capped at first. -/
lemma Rounds.start (hgross : 0 < cfg.grossExposure) : Rounds cfg raw .empty raw 0 where
  filling := Filling.start hgross
  remaining_eq := fun _ _ h => h
  capped_iff := by simp

section Round

variable (h : Rounds cfg raw capped remaining L)

include h

/-- The weight left. -/
lemma Rounds.total_remaining :
    total remaining = ∑ sym ∈ remaining.keys.toFinset, weightIn raw sym := by
  rw [total_eq_sum]
  refine Finset.sum_congr rfl fun sym hsym => ?_
  obtain ⟨w, hw⟩ := mem_keys_toFinset.mp hsym
  simp [weightIn, hw, h.remaining_eq sym w hw]

/-- The budget left. -/
lemma Rounds.budget_eq : cfg.grossExposure - total capped =
    left cfg.maxPositionWeight cfg.grossExposure raw.keys.toFinset remaining.keys.toFinset := by
  have hkeys : capped.keys.toFinset = raw.keys.toFinset \ remaining.keys.toFinset := by
    ext sym
    rw [mem_keys_toFinset]
    constructor
    · rintro ⟨w, hw⟩
      exact ((h.capped_iff sym w).mp hw).1
    · intro hsym
      exact ⟨_, (h.capped_iff sym _).mpr ⟨hsym, rfl⟩⟩
  have hvalue : ∀ sym ∈ capped.keys.toFinset, weightIn capped sym = cfg.maxPositionWeight := by
    intro sym hsym
    obtain ⟨w, hw⟩ := mem_keys_toFinset.mp hsym
    rw [weightIn, hw, Option.getD_some, ((h.capped_iff sym w).mp hw).2]
  rw [total_eq_sum, Finset.sum_congr rfl hvalue, Finset.sum_const, nsmul_eq_mul, hkeys, left]

/-- The share of a name is its raw weight at the level of the round. -/
lemma Rounds.share_eq (w : ℚ) : (cfg.grossExposure - total capped) * (w / total remaining) =
    level (weightIn raw) (left cfg.maxPositionWeight cfg.grossExposure raw.keys.toFinset
      remaining.keys.toFinset) remaining.keys.toFinset * w := by
  rw [h.budget_eq, h.total_remaining, level]
  ring

/-- The names that overflow are those of the water-filling. -/
lemma Rounds.overflow_eq : (newlyCapped cfg capped remaining).toFinset =
    overflow (weightIn raw) cfg.maxPositionWeight (1 / 10 ^ 12)
      (left cfg.maxPositionWeight cfg.grossExposure raw.keys.toFinset remaining.keys.toFinset)
      remaining.keys.toFinset := by
  ext sym
  rw [List.mem_toFinset, mem_newlyCapped, overflow, Finset.mem_filter, mem_keys_toFinset]
  constructor
  · rintro ⟨w, hw, hlt⟩
    refine ⟨⟨w, hw⟩, ?_⟩
    rwa [weightIn, h.remaining_eq sym w hw, Option.getD_some, ← h.share_eq]
  · rintro ⟨⟨w, hw⟩, hlt⟩
    rw [weightIn, h.remaining_eq sym w hw, Option.getD_some, ← h.share_eq] at hlt
    exact ⟨w, hw, hlt⟩

/-- **Round.** Capping the names that overflow keeps the invariant. -/
theorem Rounds.next (hraw : ∀ sym ∈ raw.keys.toFinset, 0 < weightIn raw sym)
    (hover : newlyCapped cfg capped remaining ≠ []) :
    Rounds cfg raw (capNames cfg (newlyCapped cfg capped remaining) capped)
      (remaining.filter fun sym _ => decide (sym ∉ newlyCapped cfg capped remaining))
      (level (weightIn raw) (left cfg.maxPositionWeight cfg.grossExposure raw.keys.toFinset
        remaining.keys.toFinset) remaining.keys.toFinset) := by
  set names := newlyCapped cfg capped remaining with hnames
  have hoverflow := h.overflow_eq
  rw [← hnames] at hoverflow
  have hkeys : (remaining.filter fun sym _ => decide (sym ∉ names)).keys.toFinset =
      remaining.keys.toFinset \ names.toFinset := by
    ext sym
    rw [Finset.mem_sdiff, mem_keys_toFinset, mem_keys_toFinset, List.mem_toFinset]
    simp [Dict.get?_filter, Option.filter_eq_some_iff]
  refine ⟨?_, fun sym w hw => ?_, fun sym w => ?_⟩
  · have hnonempty : (overflow (weightIn raw) cfg.maxPositionWeight (1 / 10 ^ 12)
        (left cfg.maxPositionWeight cfg.grossExposure raw.keys.toFinset remaining.keys.toFinset)
        remaining.keys.toFinset).Nonempty := by
      rw [← hoverflow, List.toFinset_nonempty_iff]
      exact hover
    have hround := h.filling.round hraw (by norm_num) hnonempty
    rw [← hoverflow] at hround
    rwa [hkeys]
  · rw [Dict.get?_filter, Option.filter_eq_some_iff] at hw
    exact h.remaining_eq sym w hw.1
  · rw [get?_capNames, hkeys, Finset.mem_sdiff, Finset.mem_sdiff, List.mem_toFinset]
    by_cases hmem : sym ∈ names
    · have hall : sym ∈ raw.keys := by
        obtain ⟨w', hw', -⟩ := mem_newlyCapped.mp hmem
        exact Dict.mem_keys_iff.mpr ⟨w', h.remaining_eq sym w' hw'⟩
      simp [hmem, hall, eq_comm]
    · rw [if_neg hmem, h.capped_iff, Finset.mem_sdiff]
      simp [hmem]

/-- **Last round.** When nothing overflows, the split is the water-filling. -/
theorem Rounds.final (hraw : ∀ sym ∈ raw.keys.toFinset, 0 < weightIn raw sym)
    (hne : remaining.entries ≠ []) (hover : newlyCapped cfg capped remaining = []) :
    ∃ L, Filled (weightIn raw) cfg.maxPositionWeight (1 / 10 ^ 12) cfg.grossExposure
      raw.keys.toFinset
      (weightIn (splitRest (cfg.grossExposure - total capped) (total remaining) capped remaining))
      L := by
  have hnonempty : remaining.keys.toFinset.Nonempty := by
    rw [List.toFinset_nonempty_iff, Dict.keys]
    simpa using hne
  have hoverflow := h.overflow_eq
  rw [hover, List.toFinset_nil] at hoverflow
  refine ⟨_, h.filling.final hraw hnonempty hoverflow.symm (fun sym hsym => ?_) fun sym hsym => ?_⟩
  · have hnone : remaining.get? sym = none := by
      have hnot := (Finset.mem_sdiff.mp hsym).2
      rw [mem_keys_toFinset, not_exists] at hnot
      exact Option.eq_none_iff_forall_ne_some.mpr hnot
    rw [weightIn, get?_splitRest, hnone, (h.capped_iff sym _).mpr ⟨hsym, rfl⟩, Option.getD_some]
  · obtain ⟨w, hw⟩ := mem_keys_toFinset.mp hsym
    rw [weightIn, get?_splitRest, hw, weightIn, h.remaining_eq sym w hw]
    exact h.share_eq w

/-- **No name left.** Every name has the cap. -/
theorem Rounds.exhausted (hnil : remaining.entries = []) :
    Filled (weightIn raw) cfg.maxPositionWeight (1 / 10 ^ 12) cfg.grossExposure
      raw.keys.toFinset (weightIn capped) L := by
  have hkeys : remaining.keys.toFinset = ∅ := by
    rw [Dict.keys, hnil]
    rfl
  have hfilling := h.filling
  rw [hkeys] at hfilling
  refine hfilling.exhausted fun sym hsym => ?_
  have hget := (h.capped_iff sym cfg.maxPositionWeight).mpr
    ⟨by rwa [hkeys, Finset.sdiff_empty], rfl⟩
  rw [weightIn, hget, Option.getD_some]

end Round

/-- **The loop** ends after at most as many rounds as names are left, with the water-filling.

Proof sketch. Induction on the number of names left. The budget and the weight left are positive
in every round, and a round that goes on caps a name. -/
theorem Rounds.ends (h : Rounds cfg raw capped remaining L)
    (hraw : ∀ sym ∈ raw.keys.toFinset, 0 < weightIn raw sym) :
    ∃ rounds result L', rounds ≤ remaining.entries.length ∧
      EndsAfter cfg rounds capped remaining result ∧
      Filled (weightIn raw) cfg.maxPositionWeight (1 / 10 ^ 12) cfg.grossExposure
        raw.keys.toFinset (weightIn result) L' := by
  induction hn : remaining.entries.length using Nat.strong_induction_on
    generalizing capped remaining L with
  | _ n ih =>
    by_cases hnil : remaining.entries = []
    · exact ⟨0, capped, L, Nat.zero_le _, .empty hnil, h.exhausted hnil⟩
    have hnonempty : remaining.keys.toFinset.Nonempty := by
      rw [List.toFinset_nonempty_iff, Dict.keys]
      simpa using hnil
    have hpos : 0 < n := by
      rw [← hn]
      exact List.length_pos_iff.mpr hnil
    have hleft : ¬(cfg.grossExposure - total capped ≤ 0 ∨ total remaining ≤ 0) := by
      rw [h.budget_eq, h.total_remaining, not_or, not_le, not_le]
      exact ⟨h.filling.left_pos, h.filling.sum_pos hraw hnonempty⟩
    by_cases hover : newlyCapped cfg capped remaining = []
    · obtain ⟨L', hfilled⟩ := h.final hraw hnil hover
      exact ⟨1, _, L', hpos, .final hnil hleft hover, hfilled⟩
    · have hlt : (remaining.filter fun sym _ =>
          decide (sym ∉ newlyCapped cfg capped remaining)).entries.length <
            remaining.entries.length :=
        length_filter_overflowing_lt cfg _ _ remaining hover
      obtain ⟨rounds, result, L', hle, hends, hfilled⟩ :=
        ih _ (by rwa [← hn]) (h.next hraw hover) rfl
      exact ⟨rounds + 1, result, L', by omega, .again hnil hleft hover hends, hfilled⟩

end Rounds

/-! ## The weights -/

/-- The raw weight of a pick. -/
def SymbolSignal.raw (cfg : StrategyConfig) (s : SymbolSignal) : ℚ :=
  1 / max s.volatility cfg.minVolatility

section Weights

variable {cfg : StrategyConfig} {picks : List SymbolSignal}

/-- The volatility of a pick, floored, is positive. -/
lemma max_volatility_pos (hvol : 0 < cfg.minVolatility) (s : SymbolSignal) :
    0 < max s.volatility cfg.minVolatility :=
  lt_max_of_lt_right hvol

/-- A less volatile pick is no lighter. -/
lemma SymbolSignal.raw_anti (hvol : 0 < cfg.minVolatility) {s t : SymbolSignal}
    (hle : s.volatility ≤ t.volatility) : t.raw cfg ≤ s.raw cfg :=
  one_div_le_one_div_of_le (max_volatility_pos hvol s) (max_le_max_right _ hle)

/-- The raw weights of distinct picks, in their order. -/
lemma exists_rawWeights (hvol : 0 < cfg.minVolatility)
    (hnodup : (picks.map SymbolSignal.symbol).Nodup) :
    ∃ raw, rawWeights picks cfg = some raw ∧
      raw.entries = picks.map fun s => (s.symbol, s.raw cfg) := by
  have hany : (picks.any fun s => decide (max s.volatility cfg.minVolatility = 0)) = false := by
    rw [List.any_eq_false]
    intro s _
    simpa using (max_volatility_pos hvol s).ne'
  refine ⟨_, by rw [rawWeights, hany]; rfl, ?_⟩
  have hfold : (picks.foldl (fun d s => d.set s.symbol (1 / max s.volatility cfg.minVolatility))
      Dict.empty).entries = ((picks.map fun s => (s.symbol, s.raw cfg)).foldl
        (fun d e => d.set e.1 e.2) Dict.empty).entries := by
    rw [List.foldl_map]
    rfl
  rw [hfold, Dict.entries_foldl_set]
  · rfl
  · rw [List.map_map]
    exact hnodup
  · simp [Dict.keys, Dict.empty]

section Raw

variable {raw : Dict String ℚ} (hentries : raw.entries = picks.map fun s => (s.symbol, s.raw cfg))

include hentries

/-- The raw weights are those of the picks. -/
lemma keys_raw : raw.keys = picks.map SymbolSignal.symbol := by
  rw [Dict.keys, hentries, List.map_map]
  rfl

/-- A pick is found under its symbol. -/
lemma mem_keys_raw {s : SymbolSignal} (hs : s ∈ picks) : s.symbol ∈ raw.keys.toFinset := by
  rw [List.mem_toFinset, keys_raw hentries]
  exact List.mem_map_of_mem hs

/-- The raw weight under the symbol of a pick is its own. -/
lemma weightIn_raw {s : SymbolSignal} (hs : s ∈ picks) : weightIn raw s.symbol = s.raw cfg := by
  have hget : raw.get? s.symbol = some (s.raw cfg) := by
    rw [Dict.get?_eq_some_iff, hentries]
    exact List.mem_map.mpr ⟨s, hs, rfl⟩
  rw [weightIn, hget, Option.getD_some]

/-- Raw weights are positive. -/
lemma weightIn_raw_pos (hvol : 0 < cfg.minVolatility) {sym : String}
    (hsym : sym ∈ raw.keys.toFinset) : 0 < weightIn raw sym := by
  rw [List.mem_toFinset, keys_raw hentries] at hsym
  obtain ⟨s, hs, rfl⟩ := List.mem_map.mp hsym
  rw [weightIn_raw hentries hs]
  exact one_div_pos.mpr (max_volatility_pos hvol s)

/-- A sum over the symbols is a sum over the picks. -/
lemma sum_keys_raw (hnodup : (picks.map SymbolSignal.symbol).Nodup) (result : Dict String ℚ) :
    ∑ sym ∈ raw.keys.toFinset, weightIn result sym =
      (picks.map fun s => weightIn result s.symbol).sum := by
  rw [keys_raw hentries, List.sum_toFinset _ hnodup, List.map_map]
  rfl

end Raw

/-- What the sizing returns when the loop ends and leaves every pick a positive weight. -/
lemma inverseVolWeights_eq (hne : picks ≠ []) {raw result : Dict String ℚ} {rounds : ℕ}
    (hraw : rawWeights picks cfg = some raw) (htotal : 0 < total raw)
    (hends : EndsAfter cfg rounds .empty raw result) (hle : rounds ≤ raw.entries.length)
    (hpos : ∀ s ∈ picks, 0 < weightIn result s.symbol) :
    inverseVolWeights picks cfg =
      some (picks.map fun s => ⟨s.symbol, weightIn result s.symbol⟩) := by
  have hloop : capLoop cfg raw.entries.length .empty raw = result := by
    have hfuel := hends.capLoop (raw.entries.length - rounds)
    rwa [Nat.add_sub_cancel' hle] at hfuel
  have hfilter : ∀ p ∈ picks.map fun s => Position.mk s.symbol (weightIn result s.symbol),
      decide (p.weight > 0) = true := by
    intro p hp
    obtain ⟨s, hs, rfl⟩ := List.mem_map.mp hp
    exact decide_eq_true (hpos s hs)
  unfold inverseVolWeights
  rw [if_neg hne, hraw, Option.map_some, if_neg (not_le.mpr htotal), hloop]
  exact congrArg some (List.filter_eq_self.mpr hfilter)

/-- **The weights** of distinct picks are those that the loop fills, and none is left out.

Proof sketch. The loop ends with a water-filling (`Rounds.ends`). It gives every pick a positive
weight, so the filter at the end keeps all of them. -/
theorem exists_filled (hne : picks ≠ []) (hnodup : (picks.map SymbolSignal.symbol).Nodup)
    (hvol : 0 < cfg.minVolatility) (hcap : 0 < cfg.maxPositionWeight)
    (hgross : 0 < cfg.grossExposure) :
    ∃ raw result rounds L, rawWeights picks cfg = some raw ∧
      (raw.entries = picks.map fun s => (s.symbol, s.raw cfg)) ∧
      EndsAfter cfg rounds .empty raw result ∧ rounds ≤ picks.length ∧
      Filled (weightIn raw) cfg.maxPositionWeight (1 / 10 ^ 12) cfg.grossExposure
        raw.keys.toFinset (weightIn result) L ∧
      inverseVolWeights picks cfg =
        some (picks.map fun s => ⟨s.symbol, weightIn result s.symbol⟩) := by
  obtain ⟨raw, hraw, hentries⟩ := exists_rawWeights hvol hnodup
  have hmem : ∀ s ∈ picks, s.symbol ∈ raw.keys.toFinset := fun s hs => mem_keys_raw hentries hs
  have hpos : ∀ sym ∈ raw.keys.toFinset, 0 < weightIn raw sym := fun sym hsym =>
    weightIn_raw_pos hentries hvol hsym
  obtain ⟨rounds, result, L, hle, hends, hfilled⟩ := (Rounds.start hgross).ends hpos
  have hlength : raw.entries.length = picks.length := by
    rw [hentries, List.length_map]
  obtain ⟨s, hs⟩ := List.exists_mem_of_ne_nil picks hne
  have htotal : 0 < total raw := by
    rw [total_eq_sum]
    exact Finset.sum_pos hpos ⟨s.symbol, hmem s hs⟩
  refine ⟨raw, result, rounds, L, hraw, hentries, hends, hlength ▸ hle, hfilled, ?_⟩
  exact inverseVolWeights_eq hne hraw htotal hends hle fun t ht =>
    hfilled.pos hcap hgross hpos (hmem t ht)

/-- **Inverse-volatility sizing is capped water-filling.** For distinct picks, with the floor of
the volatility, the cap and the gross exposure positive:

* the loop ends after at most as many rounds as there are picks;
* at some level, each pick is above the cap and gets the cap, or gets its share, which is not
  above the cap by more than `1e-12`;
* the weights sum to the gross exposure, unless every pick gets the cap, and these sum to less;
* no weight is above the cap by more than `1e-12`, the sum is not above the gross exposure, and
  a less volatile pick gets no less than a more volatile one, up to `1e-12`. -/
theorem inverseVolWeights_filled (cfg : StrategyConfig) (picks : List SymbolSignal)
    (hne : picks ≠ []) (hnodup : (picks.map SymbolSignal.symbol).Nodup)
    (hvol : 0 < cfg.minVolatility) (hcap : 0 < cfg.maxPositionWeight)
    (hgross : 0 < cfg.grossExposure) :
    ∃ raw result rounds, rawWeights picks cfg = some raw ∧
      EndsAfter cfg rounds .empty raw result ∧ rounds ≤ picks.length ∧
      ∃ (weight : SymbolSignal → ℚ) (L : ℚ),
        inverseVolWeights picks cfg = some (picks.map fun s => ⟨s.symbol, weight s⟩) ∧ 0 ≤ L ∧
        (∀ s ∈ picks, weight s = cfg.maxPositionWeight ∧ L * s.raw cfg > cfg.maxPositionWeight ∨
          weight s = L * s.raw cfg ∧ L * s.raw cfg ≤ cfg.maxPositionWeight + 1 / 10 ^ 12) ∧
        ((picks.map weight).sum = cfg.grossExposure ∨
          (∀ s ∈ picks, weight s = cfg.maxPositionWeight ∧
            L * s.raw cfg > cfg.maxPositionWeight) ∧
          (picks.map weight).sum = picks.length * cfg.maxPositionWeight ∧
          picks.length * cfg.maxPositionWeight < cfg.grossExposure) ∧
        (∀ s ∈ picks, weight s ≤ cfg.maxPositionWeight + 1 / 10 ^ 12) ∧
        (picks.map weight).sum ≤ cfg.grossExposure ∧
        ∀ s ∈ picks, ∀ t ∈ picks, s.volatility < t.volatility →
          weight s ≥ weight t - 1 / 10 ^ 12 := by
  obtain ⟨raw, result, rounds, L, hraw, hentries, hends, hle, hfilled, hresult⟩ :=
    exists_filled hne hnodup hvol hcap hgross
  have hweight : ∀ s ∈ picks, weightIn raw s.symbol = s.raw cfg := fun s hs =>
    weightIn_raw hentries hs
  have hmem : ∀ s ∈ picks, s.symbol ∈ raw.keys.toFinset := fun s hs => mem_keys_raw hentries hs
  have hsum := sum_keys_raw hentries hnodup result
  have hcard : raw.keys.toFinset.card = picks.length := by
    rw [keys_raw hentries, List.toFinset_card_of_nodup hnodup, List.length_map]
  refine ⟨raw, result, rounds, hraw, hends, hle, fun s => weightIn result s.symbol, L, hresult,
    hfilled.nonneg, fun s hs => ?_, ?_, fun s hs => ?_, ?_, fun s hs t ht hlt => ?_⟩
  · have hshare := hfilled.share s.symbol (hmem s hs)
    rwa [hweight s hs] at hshare
  · rw [← hsum, ← hcard]
    rcases hfilled.sum with h | ⟨hall, h⟩
    · exact .inl h
    · refine .inr ⟨fun s hs => ?_, h⟩
      have hs' := hall s.symbol (hmem s hs)
      rwa [hweight s hs] at hs'
  · exact hfilled.le_cap (by norm_num) (hmem s hs)
  · rw [← hsum]
    exact hfilled.sum_le
  · refine hfilled.mono (by norm_num) (hmem s hs) (hmem t ht) ?_
    rw [hweight s hs, hweight t ht]
    exact SymbolSignal.raw_anti hvol hlt.le

/-- Two picks, of which the calmer one overflows the cap of 34%. -/
theorem inverseVolWeights_filled_two :
    inverseVolWeights [⟨"A", 1, 1 / 1000⟩, ⟨"B", 1, 1 / 50⟩] {} =
      some [⟨"A", 34 / 100⟩, ⟨"B", 34 / 100⟩] ∧
    ∃ weight : SymbolSignal → ℚ,
      inverseVolWeights [⟨"A", 1, 1 / 1000⟩, ⟨"B", 1, 1 / 50⟩] {} =
        some ([⟨"A", 1, 1 / 1000⟩, ⟨"B", 1, 1 / 50⟩].map fun s => ⟨s.symbol, weight s⟩) ∧
      ([⟨"A", 1, 1 / 1000⟩, ⟨"B", 1, 1 / 50⟩].map weight).sum ≤ 1 := by
  refine ⟨by decide +kernel, ?_⟩
  obtain ⟨-, -, -, -, -, -, weight, -, hresult, -, -, -, -, hsum, -⟩ := inverseVolWeights_filled {}
    [⟨"A", 1, 1 / 1000⟩, ⟨"B", 1, 1 / 50⟩] (by simp) (by decide) (by norm_num) (by norm_num)
    (by norm_num)
  exact ⟨weight, hresult, hsum⟩

end Weights

end KeelTrader.Models
