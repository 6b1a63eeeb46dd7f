import KeelTrader.Core.PaperBook

set_option relaxedAutoImplicit false
set_option autoImplicit false

/-!
# Refused sells

What a cycle of the paper trader leaves behind when the death-spiral guard refuses one of its
sells. The broker, the holdings and the realized profit change leg by leg, while fills and
ledger are only committed at the end of the cycle: the record stays consistent exactly when the
refused exit is the first one that the cycle attempts.

## Main definitions

* `KeelTrader.Core.Consistent` — fills, ledger, executor log, profit and holdings agree.
* `KeelTrader.Core.firstExit`, `FirstExitRefused` — the first exit a cycle attempts, and that
  the guard refuses it; both are decided in the state before the cycle.
* `KeelTrader.Core.Reaches` — the states that a trader reaches when every cycle returns, or
  raises before any of its orders is executed.

## Main results

* `KeelTrader.Core.step_refused_iff` — a refused cycle leaves a consistent record if and only if
  its first exit was the refused one.
* `KeelTrader.Core.reaches_consistent` — along every run whose refused cycles are of this kind,
  the record stays consistent, and the next refused cycle keeps it so if and only if it is.
* `KeelTrader.Core.refused_second_exit` — two held symbols, of which the first is sold before
  the guard refuses the second.
-/

namespace KeelTrader.Core

/-! ## Consistent records -/

/-- The paper record is consistent: the ledger and the executor's log have the fills in their
order, the realized profit is the sum over the fills, and what is held are the symbols with an
unmatched buy. -/
structure Consistent (st : TraderState) : Prop where
  ledger_eq : st.ledger = st.fills
  filled_eq : st.broker.filled = st.fills.map PaperFill.order
  realized_eq : st.realizedPnl = (st.fills.map PaperFill.realizedPnl).sum
  held_iff : ∀ sym, sym ∈ st.held.keys ↔ ∃ b, lastFill sym st.fills = some b ∧ b.IsBuy

lemma TraderState.Ok.consistent {feeRate : ℚ} {st : TraderState} (h : st.Ok feeRate) :
    Consistent st where
  ledger_eq := h.ledger_eq
  filled_eq := h.filled_eq
  realized_eq := h.book.realized_eq
  held_iff := by
    intro sym
    rw [Dict.mem_keys_iff]
    constructor
    · rintro ⟨held, hheld⟩
      obtain ⟨b, hb, hbuy, -⟩ := (h.book.held_iff sym held).mp hheld
      exact ⟨b, hb, hbuy⟩
    · rintro ⟨b, hb, hbuy⟩
      exact ⟨⟨b.qty, b.fillPrice⟩, (h.book.held_iff sym _).mpr ⟨b, hb, hbuy, rfl⟩⟩

/-! ## The first exit -/

section FirstExit

variable (S : PyStr) (g : Guard) (cfg : TraderConfig) (tick : Tick)

/-- The first of the symbols that the cycle attempts to exit, with its bar. -/
def firstExit (targets : Dict String ℚ) (syms : List String) : Option (String × Bar) :=
  syms.findSome? fun sym => (exitAttempt cfg tick targets sym).map fun bar => (sym, bar)

/-- The call that an exit of `sym` makes. -/
def exitCall (sym : String) (held : Held) (bar : Bar) : Call :=
  ⟨sym, "sell", .fin held.qty, .fin bar.close, tick.env sym⟩

/-- With these targets, the guard refuses the first exit that is attempted from `st`. -/
def FirstRefused (targets : Dict String ℚ) (st : TraderState) : Prop :=
  ∃ sym bar held, firstExit cfg tick targets st.held.keys = some (sym, bar) ∧
    st.held.get? sym = some held ∧
    guardRefuses S g (exitCall tick sym held bar) st.broker.disk = true

/-- The guard refuses the first exit that a cycle attempts from `st`. -/
def FirstExitRefused (st : TraderState) : Prop :=
  ∃ targets, targetsAt cfg tick st = some targets ∧ FirstRefused S g cfg tick targets st

variable {S g cfg tick} {targets : Dict String ℚ}

lemma firstExit_concat_none {syms : List String} {sym : String}
    (h : firstExit cfg tick targets syms = none)
    (hsym : exitAttempt cfg tick targets sym = none) :
    firstExit cfg tick targets (syms ++ [sym]) = none := by
  unfold firstExit at h ⊢
  rw [List.findSome?_append, h]
  simp [hsym]

lemma firstExit_append_cons {before after : List String} {sym : String} {bar : Bar}
    (h : firstExit cfg tick targets before = none)
    (hsym : exitAttempt cfg tick targets sym = some bar) :
    firstExit cfg tick targets (before ++ sym :: after) = some (sym, bar) := by
  unfold firstExit at h ⊢
  rw [List.findSome?_append, h]
  simp [hsym]

end FirstExit

/-! ## The loops -/

section Loops

variable {S : PyStr} {g : Guard} {cfg : TraderConfig} {tick : Tick} {targets : Dict String ℚ}
  {fills ledger : List PaperFill} {st : TraderState}

/-- An exit that returned was not refused. -/
lemma not_refuses_of_ok {sym : String} {bar : Bar} {held : Held} {sellFill : ℚ}
    {ev : Option PaperFill} {st' : TraderState} (hheld : st.held.get? sym = some held)
    (h : bookExit S g cfg tick sym bar.close sellFill st = .ok ev st') :
    guardRefuses S g (exitCall tick sym held bar) st.broker.disk = false := by
  unfold bookExit at h
  rw [Raising.bind_of_eq_ok (Raising.get_run st), hheld] at h
  obtain ⟨o, t, horder, -⟩ := Raising.bind_eq_ok.mp h
  obtain ⟨b, hb, -⟩ := onBroker_eq_ok.mp horder
  obtain ⟨rfl, hvalid, -⟩ := submitOrder_eq_ok hb
  by_contra hrefuses
  rw [Bool.not_eq_false] at hrefuses
  obtain ⟨e, disk, herr, -⟩ := error_of_guardRefuses (s := st.broker) hvalid hrefuses
  rw [hb] at herr
  cases herr

/-- What is known during the exit loop, after the symbols `before` and the events `out`: as long
as nothing was booked, the state is that of the start and no exit was attempted; once something
was booked, the first exit was not refused. -/
structure ExitsSoFar (S : PyStr) (g : Guard) (cfg : TraderConfig) (tick : Tick)
    (targets : Dict String ℚ) (start : TraderState) (before : List String)
    (out : List PaperFill) (st : TraderState) : Prop where
  mid : Mid cfg.feeRate start.fills start.ledger out st
  untouched : out = [] → st = start ∧ firstExit cfg tick targets before = none
  passed : out ≠ [] → ¬FirstRefused S g cfg tick targets start

/-- What is known when a cycle has raised `e` out of its loops: a refusal left nothing booked
exactly when it met the first exit. -/
def Left (S : PyStr) (g : Guard) (cfg : TraderConfig) (tick : Tick) (targets : Dict String ℚ)
    (start : TraderState) (e : StepError) (st : TraderState) : Prop :=
  ∃ events, AbortedAfter cfg.feeRate start.fills start.ledger events e st ∧
    (e.isDeathSpiral = true → (events = [] ↔ FirstRefused S g cfg tick targets start))

/-- One round of the exit loop. -/
lemma exitRound_first (start : TraderState) {before after : List String} {sym : String}
    (out : List PaperFill) (hsyms : start.held.keys = before ++ sym :: after) :
    Raising.Spec (ExitsSoFar S g cfg tick targets start before out)
      (exitRound S g cfg tick targets sym)
      (fun ev => ExitsSoFar S g cfg tick targets start (before ++ [sym]) (out ++ ev.toList))
      (Left S g cfg tick targets start) := by
  have hbook := exitRound_spec S g cfg tick targets start.fills start.ledger out sym
  refine Raising.Spec.intro (fun st ev st' h hrun => ?_) (fun st e st' h hrun => ?_)
  · refine ⟨hbook.of_ok h.mid hrun, fun hnil => ?_, fun hne => ?_⟩
    · -- nothing booked so far, so this round did nothing either
      obtain ⟨hout, hev⟩ := List.append_eq_nil_iff.mp hnil
      obtain ⟨rfl, hfirst⟩ := h.untouched hout
      rw [exitRound_eq] at hrun
      cases hattempt : exitAttempt cfg tick targets sym with
      | none =>
        rw [hattempt] at hrun
        cases hrun
        exact ⟨rfl, firstExit_concat_none hfirst hattempt⟩
      | some bar =>
        rw [hattempt] at hrun
        obtain ⟨held, b, fill, -, rfl, -⟩ := bookExit_eq_ok hrun
        cases hev
    · by_cases hout : out = []
      · -- this round booked the first exit
        obtain ⟨rfl, hfirst⟩ := h.untouched hout
        rw [exitRound_eq] at hrun
        cases hattempt : exitAttempt cfg tick targets sym with
        | none =>
          rw [hattempt] at hrun
          cases hrun
          exact absurd (by simp [hout]) hne
        | some bar =>
          rw [hattempt] at hrun
          rintro ⟨sym', bar', held', hfirst', hheld', hrefuses⟩
          rw [hsyms, firstExit_append_cons hfirst hattempt] at hfirst'
          cases hfirst'
          rw [not_refuses_of_ok hheld' hrun] at hrefuses
          cases hrefuses
      · exact h.passed hout
  · refine ⟨out, hbook.of_error h.mid hrun, fun he => ⟨fun hout => ?_, fun hfirst => ?_⟩⟩
    · obtain ⟨rfl, hfirst⟩ := h.untouched hout
      rw [exitRound_eq] at hrun
      cases hattempt : exitAttempt cfg tick targets sym with
      | none =>
        rw [hattempt] at hrun
        cases hrun
      | some bar =>
        rw [hattempt] at hrun
        rcases bookExit_eq_error hrun with ⟨rfl, -⟩ | ⟨held, e', b, hheld, hraise, rfl, -⟩
        · cases he
        · refine ⟨sym, bar, held, ?_, hheld, (refused_of_error hraise he).1⟩
          rw [hsyms]
          exact firstExit_append_cons hfirst hattempt
    · by_contra hout
      exact h.passed hout hfirst

/-- The exit loop: when it returns, the first exit was not refused. -/
lemma exitLoop_first (h : st.Ok cfg.feeRate) :
    Raising.Spec (· = st) (Raising.forEach (exitRound S g cfg tick targets) st.held.keys)
      (fun exits st' => Mid cfg.feeRate st.fills st.ledger exits st' ∧
        ¬FirstRefused S g cfg tick targets st)
      (Left S g cfg tick targets st) := by
  have hloop := Raising.Spec.forEach (I := ExitsSoFar S g cfg tick targets st)
    fun before sym after out hsyms => exitRound_first (S := S) (g := g) st out hsyms
  refine hloop.conseq ?_ ?_ fun _ _ h => h
  · rintro _ rfl
    exact ⟨⟨rfl, rfl, by simpa using h.book, by simpa using h.filled_eq⟩,
      fun _ => ⟨rfl, rfl⟩, fun hne => absurd rfl hne⟩
  · intro exits st' hst'
    refine ⟨hst'.mid, ?_⟩
    by_cases hexits : exits = []
    · rintro ⟨sym, bar, held, hfirst, -⟩
      rw [(hst'.untouched hexits).2] at hfirst
      cases hfirst
    · exact hst'.passed hexits

/-- The entry loop is never refused: the guard lets every buy through. -/
lemma entryLoop_not_refused (targets : List (String × ℚ)) :
    Raising.Spec (fun _ => True) (Raising.forEach (enterRound S g cfg tick) targets)
      (fun _ _ => True) (fun e _ => e.isDeathSpiral = false) := by
  refine Raising.Spec.forEach (I := fun _ _ _ => True) fun _ target _ _ _ => ?_
  refine Raising.Spec.intro (fun _ _ _ _ _ => trivial) fun st e st' _ hrun => ?_
  rcases enterRound_eq S g cfg tick target st with heq | heq | ⟨-, qty, price, fill, heq⟩
  · rw [heq] at hrun
    cases hrun
  · rw [heq] at hrun
    cases hrun
    rfl
  · rw [heq] at hrun
    obtain ⟨e', b, hraise, rfl, -⟩ := bookEntry_eq_error hrun
    show e'.isDeathSpiral = false
    by_contra he
    rw [Bool.not_eq_false] at he
    have hrefuses := (refused_of_error hraise he).1
    rw [guardRefuses_buy _ S.norm_buy] at hrefuses
    cases hrefuses

/-- A cycle that raises out of its trades. -/
lemma trade_left (h : st.Ok cfg.feeRate) {e : StepError} {st' : TraderState}
    (hrun : trade S g cfg tick targets st = .error e st') :
    Left S g cfg tick targets st e st' := by
  unfold trade at hrun
  rw [Raising.bind_of_eq_ok (Raising.get_run st)] at hrun
  have hexits : Raising.Spec (· = st)
      (Raising.forEach (exitRound S g cfg tick targets) st.held.keys)
      (fun exits st' => Mid cfg.feeRate st.fills st.ledger exits st' ∧
        ¬FirstRefused S g cfg tick targets st) (Left S g cfg tick targets st) := exitLoop_first h
  rcases Raising.bind_eq_error.mp hrun with hraise | ⟨exits, t, hok, hrest⟩
  · exact hexits.of_error rfl hraise
  obtain ⟨hmid, hnot⟩ := hexits.of_ok rfl hok
  rcases Raising.bind_eq_error.mp hrest with hraise | ⟨entries, u, -, hcommit⟩
  · obtain ⟨events, haborted⟩ := (entryLoop_spec S g cfg tick st.fills st.ledger exits
      targets.entries).of_error hmid hraise
    refine ⟨events, haborted, fun he => ?_⟩
    have hbuy := (entryLoop_not_refused targets.entries).of_error trivial hraise
    rw [hbuy] at he
    cases he
  · cases hcommit

end Loops

/-! ## Refused cycles -/

section Step

variable {S : PyStr} {g : Guard} {cfg : TraderConfig} {tick : Tick} {st st' : TraderState}
  {e : StepError}

/-- When nothing was booked, the invariant survived the exception. -/
lemma AbortedAfter.ok (h : AbortedAfter cfg.feeRate st.fills st.ledger [] e st')
    (hst : st.Ok cfg.feeRate) (hfilled : st'.broker.filled = st.broker.filled) :
    st'.Ok cfg.feeRate := by
  have hfills := h.fills_eq
  refine ⟨?_, ?_, ?_⟩
  · rw [h.ledger_eq, hfills, hst.ledger_eq]
  · rw [hfills]
    simpa using h.book
  · rw [hfilled, hfills, hst.filled_eq]

/-- The events that a refused cycle booked are what the executor's log has over the fills. -/
lemma AbortedAfter.eq_nil_of_filled {events : List PaperFill}
    (h : AbortedAfter cfg.feeRate st.fills st.ledger events e st')
    (hfilled : st'.broker.filled.length ≤ st.fills.length) : events = [] := by
  have hlength := h.filled_prefix.length_le
  rw [List.length_map, List.length_append] at hlength
  exact List.length_eq_zero_iff.mp (by omega)

/-- A refused cycle, in a state that satisfies the invariant: what it booked, and that it booked
nothing exactly when its first exit was the refused one. -/
lemma step_left (hst : st.Ok cfg.feeRate) (hrun : step S g cfg tick st = .error e st')
    (he : e.isDeathSpiral = true) :
    ∃ events, AbortedAfter cfg.feeRate st.fills st.ledger events e st' ∧
      (events = [] ↔ FirstExitRefused S g cfg tick st) := by
  rw [step_run] at hrun
  cases htargets : targetsAt cfg tick st with
  | none =>
    rw [htargets] at hrun
    cases hrun
    cases he
  | some targets =>
    rw [htargets] at hrun
    have hpushed : TraderState.Ok cfg.feeRate
        { st with bars := pushBars cfg.history tick.snapshot st.bars } :=
      ⟨hst.ledger_eq, hst.book, hst.filled_eq⟩
    obtain ⟨events, haborted, hfirst⟩ := trade_left hpushed hrun
    refine ⟨events, haborted, (hfirst he).trans ⟨fun h => ⟨targets, htargets, h⟩, ?_⟩⟩
    rintro ⟨targets', htargets', h⟩
    rw [htargets] at htargets'
    cases htargets'
    exact h

/-- **A refused cycle leaves a consistent record if and only if its first exit was the refused
one**: any exit before it was executed, and is missing in fills and ledger. -/
theorem step_refused_iff (hst : st.Ok cfg.feeRate) (hrun : step S g cfg tick st = .error e st')
    (he : e.isDeathSpiral = true) :
    Consistent st' ↔ FirstExitRefused S g cfg tick st := by
  obtain ⟨events, haborted, hfirst⟩ := step_left hst hrun he
  rw [← hfirst]
  constructor
  · intro h
    apply haborted.eq_nil_of_filled
    rw [h.filled_eq, List.length_map, haborted.fills_eq]
  · rintro rfl
    apply TraderState.Ok.consistent
    apply haborted.ok hst
    rw [haborted.filled_of_refused he, List.append_nil, hst.filled_eq]

end Step

/-! ## Runs -/

/-- The states that a new trader reaches when every cycle returns, is refused at its first exit,
or raises something else before any of its orders is executed. -/
inductive Reaches (S : PyStr) (g : Guard) (cfg : TraderConfig) (disk : Disk) : TraderState → Prop
  /-- A new trader. -/
  | start : Reaches S g cfg disk (TraderState.start disk)
  /-- The cycle returns. -/
  | returned {st st' : TraderState} {tick : Tick} {events : List PaperFill}
      (h : Reaches S g cfg disk st) (hrun : step S g cfg tick st = .ok events st') :
      Reaches S g cfg disk st'
  /-- The guard refuses the first exit that the cycle attempts. -/
  | refused {st st' : TraderState} {tick : Tick} {e : StepError}
      (h : Reaches S g cfg disk st) (hfirst : FirstExitRefused S g cfg tick st)
      (hrun : step S g cfg tick st = .error e st') (he : e.isDeathSpiral = true) :
      Reaches S g cfg disk st'
  /-- The cycle raises something else, before an order is executed. -/
  | aborted {st st' : TraderState} {tick : Tick} {e : StepError}
      (h : Reaches S g cfg disk st) (hrun : step S g cfg tick st = .error e st')
      (he : e.isDeathSpiral = false) (hfilled : st'.broker.filled = st.broker.filled) :
      Reaches S g cfg disk st'

/-- **Run.** The invariant holds in every state that is reached. -/
theorem Reaches.ok {S : PyStr} {g : Guard} {cfg : TraderConfig} {disk : Disk} {st : TraderState}
    (h : Reaches S g cfg disk st) : st.Ok cfg.feeRate := by
  induction h with
  | start => exact TraderState.Ok.start cfg.feeRate disk
  | @returned st st' tick events h hrun ih =>
    exact (step_spec S g cfg tick st.fills).of_ok ⟨ih, rfl⟩ hrun
  | @refused st st' tick e h hfirst hrun he ih =>
    obtain ⟨events, haborted, hiff⟩ := step_left ih hrun he
    obtain rfl := hiff.mpr hfirst
    apply haborted.ok ih
    rw [haborted.filled_of_refused he, List.append_nil, ih.filled_eq]
  | @aborted st st' tick e h hrun he hfilled ih =>
    obtain ⟨events, hraised⟩ := (step_spec S g cfg tick st.fills).of_error ⟨ih, rfl⟩ hrun
    have haborted : AbortedAfter cfg.feeRate st.fills st.ledger events e st' := by
      rw [ih.ledger_eq]
      exact hraised
    have hnil : events = [] := by
      apply haborted.eq_nil_of_filled
      rw [hfilled, ih.filled_eq, List.length_map]
    subst hnil
    exact haborted.ok ih hfilled

/-- **A refused sell and the paper record.** In every state reached by cycles that return, are
refused at the first exit they attempt, or raise before any order is executed, the record is
consistent; and a further cycle that the guard refuses leaves it consistent if and only if the
refused exit is the first one it attempts. -/
theorem reaches_consistent (S : PyStr) (g : Guard) (cfg : TraderConfig) (disk : Disk)
    (st : TraderState) (h : Reaches S g cfg disk st) :
    Consistent st ∧ ∀ tick e st', step S g cfg tick st = .error e st' →
      e.isDeathSpiral = true → (Consistent st' ↔ FirstExitRefused S g cfg tick st) :=
  ⟨h.ok.consistent, fun _ _ _ hrun he => step_refused_iff h.ok hrun he⟩

/-- Two symbols are bought at 100. An hour later neither is wanted: the first is sold at 99,
then the guard refuses to sell the second at 90. The sell of the first is in the executor's log
and no longer held, but neither in the fills nor in the ledger. -/
theorem refused_second_exit :
    let enter := Tick.at 0
      ⟨[("BTC/USD", ⟨100, 101, 99, 100⟩), ("ETH/USD", ⟨100, 101, 99, 100⟩)], by decide⟩
      fun _ _ => (1, 1 / 50)
    let leave := Tick.at 3600
      ⟨[("BTC/USD", ⟨99, 100, 98, 99⟩), ("ETH/USD", ⟨90, 91, 89, 90⟩)], by decide⟩
      fun _ _ => (-1, 1 / 50)
    ∃ events st e st',
      step .ascii ⟨false, none⟩ {} enter (TraderState.start ⟨none, []⟩) = .ok events st ∧
      step .ascii ⟨false, none⟩ {} leave st = .error e st' ∧ e.isDeathSpiral = true ∧
      st'.fills.map PaperFill.side = ["buy", "buy"] ∧
      st'.broker.filled.map Order.side = ["buy", "buy", "sell"] ∧
      st'.held.keys = ["ETH/USD"] ∧ ¬Consistent st' := by
  intro enter leave
  obtain ⟨events, st, hrun, htest⟩ := Raising.exists_of_returnsWith
    (show Raising.returnsWith (step .ascii ⟨false, none⟩ {} enter) (TraderState.start ⟨none, []⟩)
      (fun _ st => Raising.raisesWith (step .ascii ⟨false, none⟩ {} leave) st fun e st' =>
        e.isDeathSpiral && decide (st'.fills.map PaperFill.side = ["buy", "buy"] ∧
          st'.broker.filled.map Order.side = ["buy", "buy", "sell"] ∧
          st'.held.keys = ["ETH/USD"])) = true by decide +kernel)
  obtain ⟨e, st', hraise, htest'⟩ := Raising.exists_of_raisesWith htest
  rw [Bool.and_eq_true, decide_eq_true_eq] at htest'
  obtain ⟨he, hfills, hfilled, hheld⟩ := htest'
  refine ⟨events, st, e, st', hrun, hraise, he, hfills, hfilled, hheld, fun h => ?_⟩
  have hlength := congrArg List.length hfilled
  rw [h.filled_eq, List.length_map, List.length_map] at hlength
  rw [← List.length_map PaperFill.side, hfills] at hlength
  simp at hlength

/-- Two symbols are bought at 100. An hour later neither is wanted, and the guard refuses to sell
the first at 90: the second is not sold either, and the record is as it was. -/
theorem reaches_consistent_two :
    let enter := Tick.at 0
      ⟨[("BTC/USD", ⟨100, 101, 99, 100⟩), ("ETH/USD", ⟨100, 101, 99, 100⟩)], by decide⟩
      fun _ _ => (1, 1 / 50)
    let leave := Tick.at 3600
      ⟨[("BTC/USD", ⟨90, 91, 89, 90⟩), ("ETH/USD", ⟨99, 100, 98, 99⟩)], by decide⟩
      fun _ _ => (-1, 1 / 50)
    ∃ events st e st',
      step .ascii ⟨false, none⟩ {} enter (TraderState.start ⟨none, []⟩) = .ok events st ∧
      st.held.keys = ["BTC/USD", "ETH/USD"] ∧
      step .ascii ⟨false, none⟩ {} leave st = .error e st' ∧ e.isDeathSpiral = true ∧
      st'.held.keys = ["BTC/USD", "ETH/USD"] ∧
      st'.broker.filled.map Order.side = ["buy", "buy"] ∧
      Consistent st ∧ (Consistent st' ↔ FirstExitRefused .ascii ⟨false, none⟩ {} leave st) := by
  intro enter leave
  obtain ⟨events, st, hrun, htest⟩ := Raising.exists_of_returnsWith
    (show Raising.returnsWith (step .ascii ⟨false, none⟩ {} enter) (TraderState.start ⟨none, []⟩)
      (fun _ st => decide (st.held.keys = ["BTC/USD", "ETH/USD"]) &&
        Raising.raisesWith (step .ascii ⟨false, none⟩ {} leave) st fun e st' =>
          e.isDeathSpiral && decide (st'.held.keys = ["BTC/USD", "ETH/USD"] ∧
            st'.broker.filled.map Order.side = ["buy", "buy"])) = true by decide +kernel)
  rw [Bool.and_eq_true, decide_eq_true_eq] at htest
  obtain ⟨e, st', hraise, htest'⟩ := Raising.exists_of_raisesWith htest.2
  rw [Bool.and_eq_true, decide_eq_true_eq] at htest'
  obtain ⟨he, hheld, hfilled⟩ := htest'
  have hreach : Reaches .ascii ⟨false, none⟩ {} ⟨none, []⟩ st := Reaches.start.returned hrun
  have hrecord := reaches_consistent .ascii ⟨false, none⟩ {} ⟨none, []⟩ st hreach
  exact ⟨events, st, e, st', hrun, htest.1, hraise, he, hheld, hfilled, hrecord.1,
    hrecord.2 leave e st' hraise he⟩

end KeelTrader.Core
