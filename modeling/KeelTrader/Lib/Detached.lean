import Mathlib.Data.List.Induction
import KeelTrader.Lib.Interleaving

set_option relaxedAutoImplicit false
set_option autoImplicit false

/-!
# Threads that leave the shared state alone

Threads share a state. One of them is *detached* when, as long as its local state and its requests
are of a certain kind, it neither reads the shared state nor changes it. Then the others cannot be
noticed by it: in every interleaving it ends where its own requests alone would have led it, from
any shared state. The second rule is about all threads: what every request keeps of the local
states holds after every run, and a run that asks only for what can be done does not get stuck.

## Main definitions

* `Actors.Detached` — a thread leaves the shared state alone.
* `Actors.ownMoves` — the moves of one thread.

## Main results

* `Actors.Detached.performAll` — what the others do makes no difference.
* `Actors.performAll_returns` — the run rule for what each request keeps.
-/

namespace Actors

variable {Θ L σ R E : Type}

/-- While its local state satisfies `I` and its requests `K`, thread `θ` does the same in every
shared state, and leaves it as it is. -/
structure Detached (A : Actors Θ L σ R E) (θ : Θ) (I : L → Prop) (K : R → Prop) : Prop where
  keeps : ∀ {r s l l' s'}, I l → K r → A.act θ s l r = some (l', s') → s' = s ∧ I l'
  same : ∀ {r s l l' s'}, I l → K r → A.act θ s l r = some (l', s') →
    ∀ g, A.act θ g l r = some (l', g)

variable [DecidableEq Θ]

/-- Whether a move is a request to `θ`. -/
def Move.isOf (θ : Θ) : Move Θ R E → Bool
  | .ask θ' _ => decide (θ' = θ)
  | .event _ => false

/-- The requests to one thread. -/
def ownMoves (θ : Θ) (moves : List (Move Θ R E)) : List (Move Θ R E) := moves.filter (Move.isOf θ)

variable {A : Actors Θ L σ R E} {θ : Θ} {I : L → Prop} {K : R → Prop}

/-- A move of another thread leaves the local state of this one as it is. -/
lemma perform_other {c c' : Interleaving.Config Θ L σ} {move : Move Θ R E}
    (hmove : Move.isOf θ move = false) (h : A.perform c move = some c') :
    c'.localOf θ = c.localOf θ := by
  cases move with
  | ask θ' r =>
    have hne : θ ≠ θ' := fun heq => by simp [Move.isOf, heq] at hmove
    obtain ⟨⟨l', s'⟩, -, rfl⟩ := Option.map_eq_some_iff.mp h
    exact Function.update_of_ne hne _ _
  | event e =>
    cases h
    rfl

/-- **Isolation.** After any interleaving, a detached thread is where its own requests alone lead
it, from any shared state; and they leave that state as it is. -/
theorem Detached.performAll (hA : A.Detached θ I K) {moves : List (Move Θ R E)}
    (hK : ∀ r, .ask θ r ∈ moves → K r) {c c' : Interleaving.Config Θ L σ}
    (h : A.performAll c moves = some c') (hI : I (c.localOf θ))
    {d : Interleaving.Config Θ L σ} (hd : d.localOf θ = c.localOf θ) :
    ∃ d', A.performAll d (ownMoves θ moves) = some d' ∧ d'.shared = d.shared ∧
      d'.localOf θ = c'.localOf θ := by
  induction moves generalizing c d with
  | nil =>
    cases h
    exact ⟨d, rfl, rfl, hd⟩
  | cons move moves ih =>
    obtain ⟨c₁, hfirst, hrest⟩ := Option.bind_eq_some_iff.mp h
    have hK' : ∀ r, .ask θ r ∈ moves → K r := fun r hr => hK r (List.mem_cons_of_mem _ hr)
    cases hmove : Move.isOf θ move with
    | false =>
      have hlocal := perform_other hmove hfirst
      rw [ownMoves, List.filter_cons_of_neg (by rw [hmove]; simp)]
      exact ih hK' hrest (by rwa [hlocal]) (by rw [hlocal, hd])
    | true =>
      cases move with
      | event e => cases hmove
      | ask θ' r =>
        obtain rfl : θ' = θ := by simpa [Move.isOf] using hmove
        obtain ⟨⟨l', s'⟩, hact, rfl⟩ := Option.map_eq_some_iff.mp hfirst
        have hr := hK r List.mem_cons_self
        obtain ⟨-, hI'⟩ := hA.keeps hI hr hact
        have hsame := hA.same hI hr hact d.shared
        obtain ⟨d', hd', hshared, hend⟩ := ih hK' hrest
          (d := ⟨d.shared, Function.update d.localOf θ' l'⟩)
          (by simpa using hI') (by simp)
        refine ⟨d', ?_, hshared, hend⟩
        rw [ownMoves, List.filter_cons_of_pos hmove]
        refine Option.bind_eq_some_iff.mpr ⟨_, ?_, hd'⟩
        simp only [perform]
        rw [hd, hsame]
        rfl

/-- **Run rule.** When every request of a run can be done from the local states that are reached,
and keeps what is to hold of them, the run does not get stuck, and it holds at its end. -/
theorem performAll_returns {J : List (Move Θ R E) → Θ → L → Prop} {moves : List (Move Θ R E)}
    {c : Interleaving.Config Θ L σ} (hinit : ∀ θ, J [] θ (c.localOf θ))
    (hask : ∀ past θ r rest, moves = past ++ .ask θ r :: rest → ∀ s l, J past θ l →
      ∃ l' s', A.act θ s l r = some (l', s') ∧ J (past ++ [.ask θ r]) θ l')
    (hother : ∀ past move θ l, Move.isOf θ move = false → J past θ l → J (past ++ [move]) θ l) :
    ∃ c', A.performAll c moves = some c' ∧ ∀ θ, J moves θ (c'.localOf θ) := by
  induction moves using List.reverseRecOn with
  | nil => exact ⟨c, rfl, hinit⟩
  | append_singleton past move ih =>
    obtain ⟨c₁, hpast, hJ⟩ := ih fun past' θ r rest heq =>
      hask past' θ r (rest ++ [move]) (by rw [heq]; simp)
    have hlast (c₂ : Interleaving.Config Θ L σ) (h : A.perform c₁ move = some c₂) :
        A.performAll c (past ++ [move]) = some c₂ := by
      unfold performAll at hpast ⊢
      rw [List.foldlM_append, hpast]
      simp [h]
    cases move with
    | event e =>
      exact ⟨_, hlast _ rfl, fun θ => hother past _ θ _ rfl (hJ θ)⟩
    | ask θ r =>
      obtain ⟨l', s', hact, hJ'⟩ := hask past θ r [] (by simp) c₁.shared _ (hJ θ)
      refine ⟨⟨s', Function.update c₁.localOf θ l'⟩, hlast _ (by simp [perform, hact]), ?_⟩
      intro θ'
      by_cases hθ : θ' = θ
      · subst hθ
        simpa using hJ'
      · have hne : Move.isOf θ' (.ask θ r : Move Θ R E) = false := by
          simp [Move.isOf, Ne.symm hθ]
        simpa [Function.update_of_ne hθ] using hother past _ θ' _ hne (hJ θ')

end Actors
