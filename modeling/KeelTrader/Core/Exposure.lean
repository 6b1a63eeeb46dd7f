import KeelTrader.Core.PaperBook

set_option relaxedAutoImplicit false
set_option autoImplicit false

/-!
# The exposure of the paper book

`StrategyConfig` caps the number of concurrent names and the fraction of equity that is deployed.
A cycle sizes its targets within these limits, but looks at its targets alone: it enters them
next to the names that it keeps because they are targets still, are missing from the snapshot, or
cannot be filled. What a cycle leaves is known before it starts, so the cycles that stay within
the limits are known too.

## Main definitions

* `KeelTrader.Core.TraderState.exposure` — the cost of what is held, at the decision prices.
* `KeelTrader.Core.WithinLimits` — the limits of the configuration.
* `KeelTrader.Core.keptEntries`, `enteredTargets` — what a cycle keeps, and what it enters.
* `KeelTrader.Core.EntriesFit` — what a cycle enters fits next to what it keeps.

## Main results

* `KeelTrader.Core.step_held`, `step_exposure` — the holdings and the exposure after a cycle.
* `KeelTrader.Core.runTicks_withinLimits_iff` — a run stays within the limits exactly when every
  cycle's entries fit.
-/

namespace KeelTrader.Core

open Models

/-! ## The limits -/

/-- The decision price of the latest fill of a symbol; of a symbol that is held, this is the buy
that opened the position. -/
def entryPrice (record : List PaperFill) (sym : String) : ℚ :=
  ((lastFill sym record).map PaperFill.decisionPrice).getD 0

/-- The cost of some holdings, at the decision prices of their entries. -/
def costOf (record : List PaperFill) (entries : List (String × Held)) : ℚ :=
  (entries.map fun e => e.2.qty * entryPrice record e.1).sum

/-- The cost of what is held, at the decision prices of the entries. -/
def TraderState.exposure (st : TraderState) : ℚ := costOf st.fills st.held.entries

/-- The exposure is at most `gross_exposure` of the equity, in at most `max_positions` names. -/
def WithinLimits (cfg : TraderConfig) (st : TraderState) : Prop :=
  st.exposure ≤ cfg.strategyCfg.grossExposure * cfg.equity ∧
    (st.held.entries.length : ℤ) ≤ cfg.strategyCfg.maxPositions

instance (cfg : TraderConfig) (st : TraderState) : Decidable (WithinLimits cfg st) :=
  instDecidableAnd

/-! ## What a cycle keeps and enters -/

/-- The bar on which the cycle attempts to enter a target: the symbol is not held, and its bar has
a price and fills a buy. -/
def entryAttempt (cfg : TraderConfig) (tick : Tick) (st : TraderState) (sym : String) :
    Option Bar :=
  if sym ∈ st.held.keys then none
  else (tick.snapshot.get? sym).filter fun bar =>
    decide (0 < bar.close) && decide (0 < cfg.fill bar bar.close true)

/-- What the cycle keeps: the names that it does not attempt to exit. -/
def keptEntries (cfg : TraderConfig) (tick : Tick) (targets : Dict String ℚ) (st : TraderState) :
    List (String × Held) :=
  st.held.entries.filter fun e => (exitAttempt cfg tick targets e.1).isNone

/-- What the cycle enters: the targets that it attempts to enter. -/
def enteredTargets (cfg : TraderConfig) (tick : Tick) (targets : Dict String ℚ)
    (st : TraderState) : List (String × ℚ) :=
  targets.entries.filter fun t => (entryAttempt cfg tick st t.1).isSome

/-- What a cycle enters fits next to what it keeps, in exposure and in names. -/
def EntriesFit (cfg : TraderConfig) (tick : Tick) (st : TraderState) : Prop :=
  ∀ targets, targetsAt cfg tick st = some targets →
    costOf st.fills (keptEntries cfg tick targets st) +
        cfg.equity * ((enteredTargets cfg tick targets st).map Prod.snd).sum ≤
      cfg.strategyCfg.grossExposure * cfg.equity ∧
    ((keptEntries cfg tick targets st).length + (enteredTargets cfg tick targets st).length : ℤ) ≤
      cfg.strategyCfg.maxPositions

/-- The position that an entry opens. -/
def openedBy (cfg : TraderConfig) (target : String × ℚ) (bar : Bar) : String × Held :=
  (target.1, ⟨target.2 * cfg.equity / bar.close, cfg.fill bar bar.close true⟩)

/-- The fill of an entry. -/
def fillOf (cfg : TraderConfig) (tick : Tick) (target : String × ℚ) (bar : Bar) : PaperFill :=
  ⟨tick.fillTs target.1, target.1, "buy", target.2 * cfg.equity / bar.close, bar.close,
    cfg.fill bar bar.close true, 0⟩

/-- What the cycle opens, for some of the targets. -/
def opened (cfg : TraderConfig) (tick : Tick) (st : TraderState) (targets : List (String × ℚ)) :
    List (String × Held) :=
  targets.filterMap fun t => (entryAttempt cfg tick st t.1).map (openedBy cfg t)

/-- The fills of the entries of the cycle, for some of the targets. -/
def entryFills (cfg : TraderConfig) (tick : Tick) (st : TraderState)
    (targets : List (String × ℚ)) : List PaperFill :=
  targets.filterMap fun t => (entryAttempt cfg tick st t.1).map (fillOf cfg tick t)

/-! ## The exits of a cycle -/

section Cycle

variable {S : PyStr} {g : Guard} {cfg : TraderConfig} {tick : Tick} {targets : Dict String ℚ}
  {st : TraderState}

/-- During the exits of a cycle that starts in `st`, after some symbols: the names among them
that the cycle attempts to exit are gone. -/
structure Exiting (cfg : TraderConfig) (tick : Tick) (targets : Dict String ℚ) (st : TraderState)
    (seen : List String) (exits : List PaperFill) (s : TraderState) : Prop where
  fills_eq : s.fills = st.fills
  held_eq : s.held.entries = st.held.entries.filter fun e =>
    decide (e.1 ∉ seen) || (exitAttempt cfg tick targets e.1).isNone
  exited : ∀ f ∈ exits, (exitAttempt cfg tick targets f.symbol).isSome = true

/-- A round of the exit loop. -/
lemma exitRound_exiting (S : PyStr) (g : Guard) (cfg : TraderConfig) (tick : Tick)
    (targets : Dict String ℚ) (st : TraderState) (seen : List String) (sym : String)
    (exits : List PaperFill) :
    Raising.Spec (Exiting cfg tick targets st seen exits) (exitRound S g cfg tick targets sym)
      (fun ev => Exiting cfg tick targets st (seen ++ [sym]) (exits ++ ev.toList))
      (fun _ _ => True) := by
  rw [exitRound_eq]
  refine Raising.Spec.intro (fun s ev s' h hrun => ?_) (fun _ _ _ _ _ => trivial)
  cases hattempt : exitAttempt cfg tick targets sym with
  | none =>
    rw [hattempt] at hrun
    cases hrun
    refine ⟨h.fills_eq, ?_, by simpa using h.exited⟩
    rw [h.held_eq]
    refine List.filter_congr fun e _ => ?_
    by_cases he : e.1 = sym
    · simp [he, hattempt]
    · simp [he]
  | some bar =>
    rw [hattempt] at hrun
    obtain ⟨held, b, fill, -, rfl, hfill, -, rfl⟩ := bookExit_eq_ok hrun
    refine ⟨h.fills_eq, ?_, ?_⟩
    · show (s.held.erase sym).entries = _
      rw [Dict.entries_erase, h.held_eq, List.filter_filter]
      refine List.filter_congr fun e _ => ?_
      by_cases he : e.1 = sym
      · simp [he, hattempt]
      · simp [he]
    · intro f hf
      rcases List.mem_append.mp hf with hold | hnew
      · exact h.exited f hold
      · rw [List.mem_singleton.mp hnew, hfill]
        exact Option.isSome_iff_exists.mpr ⟨bar, hattempt⟩

/-- The exits of a cycle leave what it keeps. -/
lemma exits_kept {exits : List PaperFill} {s : TraderState}
    (hrun : Raising.forEach (exitRound S g cfg tick targets) st.held.keys st = .ok exits s) :
    s.fills = st.fills ∧ s.held.entries = keptEntries cfg tick targets st ∧
      ∀ f ∈ exits, (exitAttempt cfg tick targets f.symbol).isSome = true := by
  have hloop : Raising.Spec (Exiting cfg tick targets st [] [])
      (Raising.forEach (exitRound S g cfg tick targets) st.held.keys)
      (Exiting cfg tick targets st st.held.keys) (fun _ _ => True) :=
    Raising.Spec.forEach fun seen sym _ exits _ =>
      exitRound_exiting S g cfg tick targets st seen sym exits
  have hstart : Exiting cfg tick targets st [] [] st := by
    refine ⟨rfl, ?_, by simp⟩
    simp
  have hend := hloop.of_ok hstart hrun
  refine ⟨hend.fills_eq, ?_, hend.exited⟩
  rw [hend.held_eq, keptEntries]
  refine List.filter_congr fun e he => ?_
  have hmem : e.1 ∈ st.held.keys := List.mem_map_of_mem he
  simp [hmem]

/-! ## The entries of a cycle -/

/-- During the entries of a cycle that starts in `st`, after some targets: they are opened next
to what is kept. -/
structure Entering (cfg : TraderConfig) (tick : Tick) (targets : Dict String ℚ) (st : TraderState)
    (seen : List (String × ℚ)) (entries : List PaperFill) (s : TraderState) : Prop where
  fills_eq : s.fills = st.fills
  held_eq : s.held.entries = keptEntries cfg tick targets st ++ opened cfg tick st seen
  entries_eq : entries = entryFills cfg tick st seen

lemma filterMap_concat {α β : Type} (f : α → Option β) (as : List α) (a : α) :
    (as ++ [a]).filterMap f = as.filterMap f ++ (f a).toList := by
  rw [List.filterMap_append]
  cases h : f a with
  | none => rw [List.filterMap_cons_none h]; rfl
  | some b => rw [List.filterMap_cons_some h]; rfl

lemma opened_concat (seen : List (String × ℚ)) (t : String × ℚ) :
    opened cfg tick st (seen ++ [t]) =
      opened cfg tick st seen ++ ((entryAttempt cfg tick st t.1).map (openedBy cfg t)).toList :=
  filterMap_concat _ seen t

lemma entryFills_concat (seen : List (String × ℚ)) (t : String × ℚ) :
    entryFills cfg tick st (seen ++ [t]) =
      entryFills cfg tick st seen ++
        ((entryAttempt cfg tick st t.1).map (fillOf cfg tick t)).toList :=
  filterMap_concat _ seen t

/-- What is opened are targets. -/
lemma mem_keys_of_mem_opened {ts : List (String × ℚ)} {e : String × Held}
    (h : e ∈ opened cfg tick st ts) : e.1 ∈ ts.map Prod.fst := by
  obtain ⟨t, ht, hattempt⟩ := List.mem_filterMap.mp h
  obtain ⟨bar, -, rfl⟩ := Option.map_eq_some_iff.mp hattempt
  exact List.mem_map_of_mem ht

/-- A target that was not seen yet is held exactly when it was held before the cycle. -/
lemma Entering.mem_keys_iff {seen : List (String × ℚ)} {entries : List PaperFill}
    {s : TraderState} (h : Entering cfg tick targets st seen entries s) {sym : String}
    (htarget : sym ∈ targets.keys) (hseen : sym ∉ seen.map Prod.fst) :
    sym ∈ s.held.keys ↔ sym ∈ st.held.keys := by
  have hnone : exitAttempt cfg tick targets sym = none := by rw [exitAttempt, if_pos htarget]
  unfold Dict.keys
  rw [h.held_eq, List.map_append, List.mem_append]
  constructor
  · rintro (hkept | hopened)
    · obtain ⟨e, he, rfl⟩ := List.mem_map.mp hkept
      exact List.mem_map_of_mem (List.mem_of_mem_filter he)
    · obtain ⟨e, he, rfl⟩ := List.mem_map.mp hopened
      exact absurd (mem_keys_of_mem_opened he) hseen
  · intro hheld
    obtain ⟨e, he, rfl⟩ := List.mem_map.mp hheld
    refine Or.inl (List.mem_map_of_mem (List.mem_filter.mpr ⟨he, ?_⟩))
    rw [hnone]
    rfl

/-- A round of the entry loop that returns does what it attempts. -/
lemma enterRound_eq_ok {t : String × ℚ} {s s' : TraderState} {ev : Option PaperFill}
    (hheld : t.1 ∈ s.held.keys ↔ t.1 ∈ st.held.keys)
    (hrun : enterRound S g cfg tick t s = .ok ev s') :
    match entryAttempt cfg tick st t.1 with
    | none => ev = none ∧ s' = s
    | some bar => t.1 ∉ s.held.keys ∧ 0 < bar.close ∧ bookEntry S g tick t.1
        (t.2 * cfg.equity / bar.close) bar.close (cfg.fill bar bar.close true) s = .ok ev s' := by
  unfold enterRound at hrun
  rw [Raising.bind_of_eq_ok (Raising.get_run s)] at hrun
  unfold entryAttempt
  by_cases hmem : t.1 ∈ s.held.keys
  · rw [if_pos hmem] at hrun
    rw [if_pos (hheld.mp hmem)]
    cases hrun
    exact ⟨rfl, rfl⟩
  rw [if_neg hmem] at hrun
  rw [if_neg (mt hheld.mpr hmem)]
  cases hbar : tick.snapshot.get? t.1 with
  | none =>
    rw [hbar] at hrun
    cases hrun
  | some bar =>
    rw [hbar] at hrun
    dsimp only at hrun
    by_cases hclose : bar.close ≤ 0
    · rw [if_pos hclose] at hrun
      cases hrun
      rw [Option.filter_some, if_neg (by simp [hclose])]
      exact ⟨rfl, rfl⟩
    rw [if_neg hclose, simulateEntry] at hrun
    by_cases hfill : cfg.fill bar bar.close true ≤ 0
    · rw [if_pos hfill] at hrun
      cases hrun
      rw [Option.filter_some, if_neg (by simp [hfill])]
      exact ⟨rfl, rfl⟩
    · rw [if_neg hfill] at hrun
      rw [Option.filter_some, if_pos (by simp [not_le.mp hclose, not_le.mp hfill])]
      exact ⟨hmem, not_le.mp hclose, hrun⟩

/-- A round of the entry loop. -/
lemma enterRound_entering (S : PyStr) (g : Guard) (cfg : TraderConfig) (tick : Tick)
    (targets : Dict String ℚ) (st : TraderState) {seen post : List (String × ℚ)}
    {t : String × ℚ} (hsplit : targets.entries = seen ++ t :: post) (entries : List PaperFill) :
    Raising.Spec (Entering cfg tick targets st seen entries) (enterRound S g cfg tick t)
      (fun ev => Entering cfg tick targets st (seen ++ [t]) (entries ++ ev.toList))
      (fun _ _ => True) := by
  refine Raising.Spec.intro (fun s ev s' h hrun => ?_) (fun _ _ _ _ _ => trivial)
  have htarget : t.1 ∈ targets.keys := by
    rw [Dict.keys, hsplit]
    simp
  have hseen : t.1 ∉ seen.map Prod.fst := by
    have hnodup := targets.nodup
    rw [hsplit, List.map_append, List.map_cons] at hnodup
    exact fun hmem => (List.nodup_append.mp hnodup).2.2 _ hmem _ List.mem_cons_self rfl
  have hround := enterRound_eq_ok (h.mem_keys_iff htarget hseen) hrun
  cases hattempt : entryAttempt cfg tick st t.1 with
  | none =>
    rw [hattempt] at hround
    obtain ⟨rfl, rfl⟩ := hround
    refine ⟨h.fills_eq, ?_, ?_⟩
    · rw [opened_concat, hattempt, h.held_eq]
      simp
    · rw [entryFills_concat, hattempt, h.entries_eq]
      simp
  | some bar =>
    rw [hattempt] at hround
    obtain ⟨hnot, -, hbook⟩ := hround
    obtain ⟨b, fill, rfl, hfill, -, rfl⟩ := bookEntry_eq_ok hbook
    refine ⟨h.fills_eq, ?_, ?_⟩
    · rw [opened_concat, hattempt]
      show (s.held.set t.1 _).entries = _
      rw [Dict.entries_set_of_notMem hnot, h.held_eq, List.append_assoc]
      rfl
    · rw [entryFills_concat, hattempt, h.entries_eq, hfill]
      rfl

/-- The entries of a cycle open what it attempts to enter. -/
lemma entries_opened {s s' : TraderState} {entries : List PaperFill}
    (hfills : s.fills = st.fills) (hheld : s.held.entries = keptEntries cfg tick targets st)
    (hrun : Raising.forEach (enterRound S g cfg tick) targets.entries s = .ok entries s') :
    s'.fills = st.fills ∧
      s'.held.entries =
        keptEntries cfg tick targets st ++ opened cfg tick st targets.entries ∧
      entries = entryFills cfg tick st targets.entries := by
  have hloop : Raising.Spec (Entering cfg tick targets st [] [])
      (Raising.forEach (enterRound S g cfg tick) targets.entries)
      (Entering cfg tick targets st targets.entries) (fun _ _ => True) :=
    Raising.Spec.forEach fun seen t post entries hsplit =>
      enterRound_entering S g cfg tick targets st hsplit entries
  have hstart : Entering cfg tick targets st [] [] s :=
    ⟨hfills, by rw [hheld]; exact (List.append_nil _).symm, rfl⟩
  have hend := hloop.of_ok hstart hrun
  exact ⟨hend.fills_eq, hend.held_eq, hend.entries_eq⟩

/-- **Step.** What is held after a cycle that returns: what it kept, and what it opened. -/
theorem step_held {events : List PaperFill} {st' : TraderState}
    (hrun : step S g cfg tick st = .ok events st') :
    ∃ targets exits, targetsAt cfg tick st = some targets ∧
      (∀ f ∈ exits, (exitAttempt cfg tick targets f.symbol).isSome = true) ∧
      st'.fills = st.fills ++ exits ++ entryFills cfg tick st targets.entries ∧
      st'.held.entries =
        keptEntries cfg tick targets st ++ opened cfg tick st targets.entries := by
  rw [step_run] at hrun
  cases htargets : targetsAt cfg tick st with
  | none =>
    rw [htargets] at hrun
    cases hrun
  | some targets =>
    rw [htargets] at hrun
    dsimp only at hrun
    unfold trade at hrun
    rw [Raising.bind_of_eq_ok (Raising.get_run _)] at hrun
    obtain ⟨exits, s, hexits, hrest⟩ := Raising.bind_eq_ok.mp hrun
    obtain ⟨entries, t, hentries, hcommit⟩ := Raising.bind_eq_ok.mp hrest
    cases hcommit
    obtain ⟨hfills, hkept, hexited⟩ := exits_kept hexits
    obtain ⟨hfills', hheld, rfl⟩ := entries_opened hfills hkept hentries
    refine ⟨targets, exits, rfl, hexited, ?_, hheld⟩
    show t.fills ++ (exits ++ _) = _
    rw [hfills', ← List.append_assoc]
    rfl

/-! ## The exposure after a cycle -/

/-- What a target's position costs is its weight of the equity. -/
lemma costOf_opened {record : List PaperFill} {ts : List (String × ℚ)}
    (hprice : ∀ t ∈ ts, ∀ bar, entryAttempt cfg tick st t.1 = some bar →
      entryPrice record t.1 = bar.close) :
    costOf record (opened cfg tick st ts) =
        cfg.equity * ((ts.filter fun t => (entryAttempt cfg tick st t.1).isSome).map
          Prod.snd).sum ∧
      (opened cfg tick st ts).length =
        (ts.filter fun t => (entryAttempt cfg tick st t.1).isSome).length := by
  induction ts with
  | nil => simp [costOf, opened]
  | cons t ts ih =>
    obtain ⟨hcost, hlength⟩ := ih fun u hu => hprice u (List.mem_cons_of_mem t hu)
    cases hattempt : entryAttempt cfg tick st t.1 with
    | none =>
      have hopened : opened cfg tick st (t :: ts) = opened cfg tick st ts :=
        List.filterMap_cons_none (by rw [hattempt]; rfl)
      rw [hopened, List.filter_cons_of_neg (by rw [hattempt]; decide)]
      exact ⟨hcost, hlength⟩
    | some bar =>
      have hopened : opened cfg tick st (t :: ts) = openedBy cfg t bar :: opened cfg tick st ts :=
        List.filterMap_cons_some (by rw [hattempt]; rfl)
      have hclose : 0 < bar.close := by
        unfold entryAttempt at hattempt
        split at hattempt
        · cases hattempt
        · have hfilter := (Option.filter_eq_some_iff.mp hattempt).2
          exact of_decide_eq_true (Bool.and_eq_true_iff.mp hfilter).1
      have hentry := hprice t List.mem_cons_self bar hattempt
      have hvalue : t.2 * cfg.equity / bar.close * bar.close = cfg.equity * t.2 := by
        rw [div_mul_cancel₀ _ hclose.ne', mul_comm]
      rw [hopened, List.filter_cons_of_pos (by rw [hattempt]; rfl)]
      refine ⟨?_, by rw [List.length_cons, List.length_cons, hlength]⟩
      calc costOf record (openedBy cfg t bar :: opened cfg tick st ts)
          = t.2 * cfg.equity / bar.close * entryPrice record t.1 +
              costOf record (opened cfg tick st ts) := rfl
        _ = _ := by rw [hentry, hvalue, hcost, List.map_cons, List.sum_cons, mul_add]

/-- The fill of an entry is that of its target. -/
lemma symbol_mem_of_mem_entryFills {ts : List (String × ℚ)} {f : PaperFill}
    (h : f ∈ entryFills cfg tick st ts) :
    ∃ t ∈ ts, ∃ bar, entryAttempt cfg tick st t.1 = some bar ∧ f = fillOf cfg tick t bar := by
  obtain ⟨t, ht, hattempt⟩ := List.mem_filterMap.mp h
  obtain ⟨bar, hbar, rfl⟩ := Option.map_eq_some_iff.mp hattempt
  exact ⟨t, ht, bar, hbar, rfl⟩

lemma entryFills_nodup (ts : List (String × ℚ)) (h : (ts.map Prod.fst).Nodup) :
    ((entryFills cfg tick st ts).map PaperFill.symbol).Nodup := by
  refine List.Nodup.sublist ?_ h
  induction ts with
  | nil => exact List.Sublist.refl _
  | cons t ts ih =>
    have ih := ih (List.nodup_cons.mp h).2
    cases hattempt : entryAttempt cfg tick st t.1 with
    | none =>
      rw [entryFills, List.filterMap_cons_none (by rw [hattempt]; rfl)]
      exact ih.cons _
    | some bar =>
      rw [entryFills, List.filterMap_cons_some (by rw [hattempt]; rfl)]
      exact ih.cons_cons _

/-- **Exposure.** After a cycle that returns, the exposure is what the kept names cost, and the
weights of the entered targets of the equity. -/
theorem step_exposure {events : List PaperFill} {st' : TraderState}
    (hrun : step S g cfg tick st = .ok events st') :
    ∃ targets, targetsAt cfg tick st = some targets ∧
      st'.exposure = costOf st.fills (keptEntries cfg tick targets st) +
        cfg.equity * ((enteredTargets cfg tick targets st).map Prod.snd).sum ∧
      st'.held.entries.length =
        (keptEntries cfg tick targets st).length + (enteredTargets cfg tick targets st).length := by
  obtain ⟨targets, exits, htargets, hexited, hfills, hheld⟩ := step_held hrun
  -- no fill of the cycle is in a symbol that it kept
  have hkept : ∀ e ∈ keptEntries cfg tick targets st,
      entryPrice st'.fills e.1 = entryPrice st.fills e.1 := by
    intro e he
    obtain ⟨hmem, hnone⟩ := List.mem_filter.mp he
    have hsold : ∀ f ∈ exits, f.symbol ≠ e.1 := by
      rintro f hf heq
      have hsome := hexited f hf
      rw [heq, Option.isNone_iff_eq_none.mp hnone] at hsome
      cases hsome
    have hbought : ∀ f ∈ entryFills cfg tick st targets.entries, f.symbol ≠ e.1 := by
      intro f hf heq
      obtain ⟨t, -, bar, hattempt, rfl⟩ := symbol_mem_of_mem_entryFills hf
      have hheldSym : t.1 ∈ st.held.keys := by
        rw [show t.1 = e.1 from heq]
        exact List.mem_map_of_mem hmem
      rw [entryAttempt, if_pos hheldSym] at hattempt
      cases hattempt
    rw [entryPrice, entryPrice, hfills, lastFill,
      lastOf_append_of_forall_ne PaperFill.symbol _ hbought,
      lastOf_append_of_forall_ne PaperFill.symbol _ hsold, lastFill]
  have hopened : ∀ t ∈ targets.entries, ∀ bar, entryAttempt cfg tick st t.1 = some bar →
      entryPrice st'.fills t.1 = bar.close := by
    intro t ht bar hattempt
    have hmem : fillOf cfg tick t bar ∈ entryFills cfg tick st targets.entries :=
      List.mem_filterMap.mpr ⟨t, ht, by rw [hattempt]; rfl⟩
    have hlast := lastOf_append_of_mem PaperFill.symbol (st.fills ++ exits)
      (entryFills_nodup targets.entries targets.nodup) hmem
    rw [entryPrice, hfills, lastFill]
    exact congrArg (fun f => (Option.map PaperFill.decisionPrice f).getD 0) hlast
  obtain ⟨hcost, hlength⟩ := costOf_opened hopened
  refine ⟨targets, htargets, ?_, ?_⟩
  · rw [TraderState.exposure, hheld, costOf, List.map_append, List.sum_append]
    refine congrArg₂ (· + ·) ?_ hcost
    exact congrArg List.sum (List.map_congr_left fun e he => by rw [hkept e he])
  · rw [hheld, List.length_append, hlength]
    rfl

/-- A cycle that returns ends within the limits exactly when its entries fit. -/
theorem step_withinLimits_iff {events : List PaperFill} {st' : TraderState}
    (hrun : step S g cfg tick st = .ok events st') :
    WithinLimits cfg st' ↔ EntriesFit cfg tick st := by
  obtain ⟨targets, htargets, hexposure, hlength⟩ := step_exposure hrun
  unfold WithinLimits EntriesFit
  rw [htargets, hexposure, hlength]
  push_cast
  constructor
  · rintro h _ ⟨⟩
    exact h
  · intro h
    exact h targets rfl

end Cycle

/-! ## Runs -/

section Runs

variable {S : PyStr} {g : Guard} {cfg : TraderConfig}

lemma runTicks_append {pre post : List Tick} {st st' : TraderState} :
    runTicks S g cfg (pre ++ post) st = .ok () st' ↔
      ∃ s, runTicks S g cfg pre st = .ok () s ∧ runTicks S g cfg post s = .ok () st' := by
  induction pre generalizing st with
  | nil =>
    constructor
    · intro h
      exact ⟨st, rfl, h⟩
    · rintro ⟨s, hs, h⟩
      cases hs
      exact h
  | cons tick pre ih =>
    rw [List.cons_append, runTicks, runTicks]
    constructor
    · intro h
      obtain ⟨events, t, hstep, hrest⟩ := Raising.bind_eq_ok.mp h
      obtain ⟨s, hs, hpost⟩ := ih.mp hrest
      exact ⟨s, Raising.bind_eq_ok.mpr ⟨events, t, hstep, hs⟩, hpost⟩
    · rintro ⟨s, hs, hpost⟩
      obtain ⟨events, t, hstep, hrest⟩ := Raising.bind_eq_ok.mp hs
      exact Raising.bind_eq_ok.mpr ⟨events, t, hstep, ih.mpr ⟨s, hrest, hpost⟩⟩

/-- A run of one more cycle. -/
lemma runTicks_concat {pre : List Tick} {tick : Tick} {st st' : TraderState} :
    runTicks S g cfg (pre ++ [tick]) st = .ok () st' ↔
      ∃ s events, runTicks S g cfg pre st = .ok () s ∧ step S g cfg tick s = .ok events st' := by
  rw [runTicks_append]
  constructor
  · rintro ⟨s, hs, hlast⟩
    obtain ⟨events, t, hstep, hnil⟩ := Raising.bind_eq_ok.mp hlast
    cases hnil
    exact ⟨s, events, hs, hstep⟩
  · rintro ⟨s, events, hs, hstep⟩
    exact ⟨s, hs, Raising.bind_eq_ok.mpr ⟨events, st', hstep, rfl⟩⟩

end Runs

/-- **The exposure of the paper book.** In a run of cycles that all return, the book is within
the exposure limits after every cycle exactly when in every cycle the new entries fit next to the
names that the cycle keeps. -/
theorem runTicks_withinLimits_iff (S : PyStr) (g : Guard) (cfg : TraderConfig) (disk : Disk)
    (ticks : List Tick) (st : TraderState)
    (hrun : runTicks S g cfg ticks (TraderState.start disk) = .ok () st) :
    (∀ pre tick post s, ticks = pre ++ tick :: post →
        runTicks S g cfg (pre ++ [tick]) (TraderState.start disk) = .ok () s →
        WithinLimits cfg s) ↔
      ∀ pre tick post s, ticks = pre ++ tick :: post →
        runTicks S g cfg pre (TraderState.start disk) = .ok () s → EntriesFit cfg tick s := by
  constructor
  · intro h pre tick post s hsplit hpre
    have hall := hrun
    rw [hsplit, runTicks_append] at hall
    obtain ⟨s', hpre', hrest⟩ := hall
    obtain rfl : s = s' := by
      rw [hpre] at hpre'
      cases hpre'
      rfl
    obtain ⟨events, t, hstep, -⟩ := Raising.bind_eq_ok.mp hrest
    refine (step_withinLimits_iff hstep).mp (h pre tick post t hsplit ?_)
    exact runTicks_concat.mpr ⟨s, events, hpre, hstep⟩
  · intro h pre tick post s hsplit hpre
    obtain ⟨s', events, hpre', hstep⟩ := runTicks_concat.mp hpre
    exact (step_withinLimits_iff hstep).mpr (h pre tick post s' hsplit hpre')

/-- BTC is bought, then kept while ETH is bought next to it: both entries fit. -/
theorem runTicks_withinLimits_iff_second :
    let buy := Tick.at 0 ⟨[("BTC/USD", ⟨100, 101, 99, 100⟩)], by decide⟩ fun _ _ => (1, 1 / 50)
    let add := Tick.at 3600
      ⟨[("BTC/USD", ⟨100, 101, 99, 100⟩), ("ETH/USD", ⟨50, 51, 49, 50⟩)], by decide⟩
      fun _ _ => (1, 1 / 50)
    ∃ s st, runTicks .ascii ⟨false, none⟩ {} [buy] (TraderState.start ⟨none, []⟩) = .ok () s ∧
      s.held.keys = ["BTC/USD"] ∧
      runTicks .ascii ⟨false, none⟩ {} [buy, add] (TraderState.start ⟨none, []⟩) = .ok () st ∧
      st.held.keys = ["BTC/USD", "ETH/USD"] ∧
      EntriesFit {} buy (TraderState.start ⟨none, []⟩) ∧ EntriesFit {} add s := by
  intro buy add
  obtain ⟨_, s, hbuy, htest⟩ := Raising.exists_of_returnsWith
    (show Raising.returnsWith (runTicks .ascii ⟨false, none⟩ {} [buy])
      (TraderState.start ⟨none, []⟩) (fun _ s => decide (s.held.keys = ["BTC/USD"] ∧
        WithinLimits {} s)) = true by decide +kernel)
  obtain ⟨_, st, hrun, htest'⟩ := Raising.exists_of_returnsWith
    (show Raising.returnsWith (runTicks .ascii ⟨false, none⟩ {} [buy, add])
      (TraderState.start ⟨none, []⟩) (fun _ st => decide (st.held.keys = ["BTC/USD", "ETH/USD"] ∧
        WithinLimits {} st)) = true by decide +kernel)
  obtain ⟨hheld, hfirst⟩ := of_decide_eq_true htest
  obtain ⟨hheld', hsecond⟩ := of_decide_eq_true htest'
  have hwithin : ∀ pre tick post s', [buy, add] = pre ++ tick :: post →
      runTicks .ascii ⟨false, none⟩ {} (pre ++ [tick]) (TraderState.start ⟨none, []⟩) =
        .ok () s' → WithinLimits {} s' := by
    intro pre tick post s' hsplit hpre
    match pre, hsplit with
    | [], hsplit =>
      cases hsplit
      rw [List.nil_append, hbuy] at hpre
      cases hpre
      exact hfirst
    | [_], hsplit =>
      cases hsplit
      rw [List.cons_append, List.nil_append, hrun] at hpre
      cases hpre
      exact hsecond
    | _ :: _ :: pre, hsplit => simp at hsplit
  have hfit := (runTicks_withinLimits_iff .ascii ⟨false, none⟩ {} ⟨none, []⟩ [buy, add] st
    hrun).mp hwithin
  exact ⟨s, st, hbuy, hheld, hrun, hheld', hfit [] buy [add] _ rfl rfl,
    hfit [buy] add [] s rfl hbuy⟩

/-- At most one name: after BTC is bought, ETH becomes the target at a bar on whose close BTC
cannot be sold, and both are held, at twice the equity. -/
theorem exceeds_limits_unfilled_exit :
    let cfg : TraderConfig := { strategyCfg := { maxPositions := 1, maxPositionWeight := 1 } }
    let buy := Tick.at 0 ⟨[("BTC/USD", ⟨100, 101, 99, 100⟩)], by decide⟩ fun _ _ => (1, 1 / 50)
    let rotate := Tick.at 3600
      ⟨[("BTC/USD", ⟨100, 101, 99, 99⟩), ("ETH/USD", ⟨50, 51, 49, 50⟩)], by decide⟩
      fun sym _ => (if sym = "ETH/USD" then 1 else -1, 1 / 50)
    (0 < cfg.strategyCfg.grossExposure ∧ 0 < cfg.strategyCfg.maxPositionWeight ∧
      1 ≤ cfg.strategyCfg.maxPositions) ∧
    ∃ st, runTicks .ascii ⟨false, none⟩ cfg [buy, rotate] (TraderState.start ⟨none, []⟩) =
        .ok () st ∧
      st.exposure = 2 * cfg.equity ∧ st.held.entries.length = 2 ∧ ¬WithinLimits cfg st := by
  intro cfg buy rotate
  refine ⟨by decide +kernel, ?_⟩
  obtain ⟨_, st, hrun, htest⟩ := Raising.exists_of_returnsWith
    (show Raising.returnsWith (runTicks .ascii ⟨false, none⟩ cfg [buy, rotate])
      (TraderState.start ⟨none, []⟩)
      (fun _ st => decide (st.exposure = 2 * cfg.equity ∧ st.held.entries.length = 2 ∧
        ¬WithinLimits cfg st)) = true by decide +kernel)
  exact ⟨st, hrun, of_decide_eq_true htest⟩

end KeelTrader.Core
