import Mathlib.Logic.Function.Basic
import Mathlib.Logic.Relation
import Mathlib.Tactic.Lemma

set_option relaxedAutoImplicit false
set_option autoImplicit false

/-!
# Interleaved threads

Threads with a local state each and one shared state, stepping one at a time in any order, and
an environment that changes the shared state between their steps. A proof outline attaches an
assertion to every local state. It is checked one step at a time: a step establishes the
assertion of its own thread and changes the shared state no more than every other thread relies
on, and assertions are stable under what their thread relies on.

## Main definitions

* `Interleaving` — the steps of the threads and of the environment.
* `Interleaving.Step`, `Interleaving.Reachable` — the steps and the runs of the whole.
* `Interleaving.Outline` — a proof outline.
* `Actors` — threads that do what they are asked, whose runs can be computed.

## Main results

* `Interleaving.Outline.reachable` — the assertions of an outline hold in every reachable
  configuration.
* `Actors.reachable_of_performAll` — what a computed run leads to is reachable.
-/

/-- The steps of threads `Θ` with local states `L` over a shared state `σ`. -/
structure Interleaving (Θ L σ : Type) where
  /-- `thread θ l s l' s'`: `θ` can move from `l` to `l'` and change `s` into `s'`. -/
  thread : Θ → L → σ → L → σ → Prop
  /-- A change of the shared state that no thread makes. -/
  environment : σ → σ → Prop

namespace Interleaving

variable {Θ L σ : Type}

/-- A shared state and a local state for every thread. -/
structure Config (Θ L σ : Type) where
  shared : σ
  localOf : Θ → L

variable [DecidableEq Θ]

/-- One step of the whole. -/
inductive Step (I : Interleaving Θ L σ) : Config Θ L σ → Config Θ L σ → Prop
  | thread {c : Config Θ L σ} {l' : L} {s' : σ} (θ : Θ)
      (h : I.thread θ (c.localOf θ) c.shared l' s') :
      Step I c ⟨s', Function.update c.localOf θ l'⟩
  | environment {c : Config Θ L σ} {s' : σ} (h : I.environment c.shared s') :
      Step I c ⟨s', c.localOf⟩

/-- `c` is reached from `c₀` by some interleaving. -/
def Reachable (I : Interleaving Θ L σ) (c₀ c : Config Θ L σ) : Prop :=
  Relation.ReflTransGen I.Step c₀ c

/-- A proof outline. -/
structure Outline (I : Interleaving Θ L σ) where
  /-- What holds of the shared state throughout. -/
  inv : σ → Prop
  /-- What a thread knows of the shared state. -/
  assertion : Θ → L → σ → Prop
  /-- What a thread allows the others to do. -/
  rely : Θ → σ → σ → Prop
  /-- A step establishes its own assertion, and respects what the other threads rely on. -/
  thread_ok : ∀ {θ l s l' s'}, inv s → assertion θ l s → I.thread θ l s l' s' →
    inv s' ∧ assertion θ l' s' ∧ ∀ θ', θ' ≠ θ → rely θ' s s'
  /-- So does the environment. -/
  environment_ok : ∀ {s s'}, inv s → I.environment s s' → inv s' ∧ ∀ θ, rely θ s s'
  /-- Assertions are stable. -/
  stable : ∀ {θ l s s'}, rely θ s s' → assertion θ l s → assertion θ l s'

namespace Outline

variable {I : Interleaving Θ L σ} (O : I.Outline)

/-- The outline holds of a configuration. -/
def Holds (c : Config Θ L σ) : Prop :=
  O.inv c.shared ∧ ∀ θ, O.assertion θ (c.localOf θ) c.shared

/-- A step preserves the outline. -/
lemma holds_step {c c' : Config Θ L σ} (h : O.Holds c) (hstep : I.Step c c') : O.Holds c' := by
  obtain ⟨hinv, hassert⟩ := h
  cases hstep with
  | thread θ hthread =>
    obtain ⟨hinv', hown, hothers⟩ := O.thread_ok hinv (hassert θ) hthread
    refine ⟨hinv', fun θ' => ?_⟩
    by_cases hθ : θ' = θ
    · subst hθ
      simpa using hown
    · simpa [Function.update_of_ne hθ] using O.stable (hothers θ' hθ) (hassert θ')
  | environment henv =>
    obtain ⟨hinv', hall⟩ := O.environment_ok hinv henv
    exact ⟨hinv', fun θ => O.stable (hall θ) (hassert θ)⟩

/-- **Soundness of proof outlines.** The assertions of an outline that holds initially hold in
every reachable configuration. -/
theorem reachable {c₀ c : Config Θ L σ} (h₀ : O.Holds c₀) (h : I.Reachable c₀ c) :
    O.Holds c := by
  induction h with
  | refl => exact h₀
  | tail _ hstep ih => exact O.holds_step ih hstep

end Outline

end Interleaving

/-! ## Runs that are computed -/

/-- Threads that do what they are asked, if they can, and the events of their environment. -/
structure Actors (Θ L σ R E : Type) where
  act : Θ → σ → L → R → Option (L × σ)
  event : E → σ → σ

namespace Actors

variable {Θ L σ R E : Type}

/-- The interleavings of the requests and the events. -/
def interleaving (A : Actors Θ L σ R E) : Interleaving Θ L σ where
  thread θ l s l' s' := ∃ r, A.act θ s l r = some (l', s')
  environment s s' := ∃ e, s' = A.event e s

/-- One thing that happens. -/
inductive Move (Θ R E : Type) where
  | ask (θ : Θ) (r : R)
  | event (e : E)

variable [DecidableEq Θ]

/-- What a move leads to, if it is possible. -/
def perform (A : Actors Θ L σ R E) (c : Interleaving.Config Θ L σ) :
    Move Θ R E → Option (Interleaving.Config Θ L σ)
  | .ask θ r => (A.act θ c.shared (c.localOf θ) r).map fun result =>
      ⟨result.2, Function.update c.localOf θ result.1⟩
  | .event e => some ⟨A.event e c.shared, c.localOf⟩

/-- What a list of moves leads to. -/
def performAll (A : Actors Θ L σ R E) (c : Interleaving.Config Θ L σ) (moves : List (Move Θ R E)) :
    Option (Interleaving.Config Θ L σ) :=
  moves.foldlM A.perform c

lemma step_of_perform {A : Actors Θ L σ R E} {c c' : Interleaving.Config Θ L σ}
    {move : Move Θ R E} (h : A.perform c move = some c') : A.interleaving.Step c c' := by
  cases move with
  | ask θ r =>
    obtain ⟨⟨l', s'⟩, hact, rfl⟩ := Option.map_eq_some_iff.mp h
    exact .thread θ ⟨r, hact⟩
  | event e =>
    cases h
    exact .environment ⟨e, rfl⟩

/-- What a computed run leads to is reachable. -/
theorem reachable_of_performAll {A : Actors Θ L σ R E} {moves : List (Move Θ R E)}
    {c c' : Interleaving.Config Θ L σ} (h : A.performAll c moves = some c') :
    A.interleaving.Reachable c c' := by
  induction moves generalizing c with
  | nil =>
    cases h
    exact Relation.ReflTransGen.refl
  | cons move rest ih =>
    obtain ⟨c₁, hfirst, hrest⟩ := Option.bind_eq_some_iff.mp h
    exact Relation.ReflTransGen.head (step_of_perform hfirst) (ih hrest)

end Actors
