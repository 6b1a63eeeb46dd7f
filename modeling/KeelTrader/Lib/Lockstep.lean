import KeelTrader.Lib.Checked

set_option relaxedAutoImplicit false
set_option autoImplicit false

/-!
# Two computations in lockstep

`Checked.Rel` relates the values of two computations when both return. Here the two agree on more:
either both fault, with the same fault, or both return, with related values. The rules follow the
program text of both, one bind and one branch at a time, and a loop over two related lists is
related round by round.

## Main definitions

* `Checked.Lockstep R x y` — the same fault, or values related by `R`.

## Main results

* `Checked.Lockstep.bind`, `Checked.Lockstep.ite`, `Checked.Lockstep.foldlM` — sequencing,
  branching and loops.
* `Checked.Lockstep.returns` — a postcondition carried over.
-/

namespace Checked

variable {α β γ δ : Type}

/-- Both computations fault with the same fault, or both return values related by `R`. -/
def Lockstep (R : α → β → Prop) : Checked α → Checked β → Prop
  | .ok a, .ok b => R a b
  | .error e, .error f => e = f
  | _, _ => False

namespace Lockstep

variable {R : α → β → Prop} {x : Checked α} {y : Checked β}

/-- Related values are in lockstep as computations. -/
lemma pure {a : α} {b : β} (h : R a b) : Lockstep R (Pure.pure a) (Pure.pure b) := h

/-- **Sequencing.** Two sequences are in lockstep when their first halves are, and their second
halves are on related values. -/
theorem bind {S : γ → δ → Prop} {f : α → Checked γ} {g : β → Checked δ} (h : Lockstep R x y)
    (hfg : ∀ a b, R a b → Lockstep S (f a) (g b)) : Lockstep S (x >>= f) (y >>= g) := by
  cases x with
  | error e =>
    cases y with
    | error e' => exact h
    | ok b => exact h.elim
  | ok a =>
    cases y with
    | error e' => exact h.elim
    | ok b => exact hfg a b h

/-- A computation is in lockstep with itself. -/
lemma refl {R : α → α → Prop} (hR : ∀ a, R a a) (x : Checked α) : Lockstep R x x := by
  cases x with
  | error e => rfl
  | ok a => exact hR a

/-- Both sequences start with one computation: the values it returns are the same. -/
lemma bind_same {x : Checked α} {S : γ → δ → Prop} {f : α → Checked γ} {g : α → Checked δ}
    (h : ∀ a, x = .ok a → Lockstep S (f a) (g a)) : Lockstep S (x >>= f) (x >>= g) := by
  cases x with
  | error e => rfl
  | ok a => exact h a rfl

/-- Two conditionals on equivalent conditions are in lockstep branch by branch. -/
lemma ite {c d : Prop} [Decidable c] [Decidable d] {x x' : Checked α} {y y' : Checked β}
    (hcd : c ↔ d) (ht : c → Lockstep R x y) (he : ¬c → Lockstep R x' y') :
    Lockstep R (if c then x else x') (if d then y else y') := by
  by_cases h : c
  · rw [if_pos h, if_pos (hcd.mp h)]
    exact ht h
  · rw [if_neg h, if_neg fun hd => h (hcd.mpr hd)]
    exact he h

/-- The relation may be weakened. -/
theorem mono {S : α → β → Prop} (h : Lockstep R x y) (hRS : ∀ a b, R a b → S a b) :
    Lockstep S x y := by
  cases x with
  | error e =>
    cases y with
    | error e' => exact h
    | ok b => exact h.elim
  | ok a =>
    cases y with
    | error e' => exact h.elim
    | ok b => exact hRS a b h

/-- **Loops.** Two loops over related lists, from related states, are in lockstep when one round
of each is. -/
theorem foldlM {ι κ : Type} {Q : ι → κ → Prop} {f : α → ι → Checked α} {g : β → κ → Checked β}
    (hfg : ∀ a b i j, R a b → Q i j → Lockstep R (f a i) (g b j)) {is : List ι} {js : List κ}
    (hl : List.Forall₂ Q is js) {a : α} {b : β} (hab : R a b) :
    Lockstep R (is.foldlM f a) (js.foldlM g b) := by
  induction hl generalizing a b with
  | nil => exact hab
  | cons hij _ ih => exact (hfg _ _ _ _ hab hij).bind fun _ _ hab' => ih hab'

/-- A computation in lockstep with one that returns returns too. -/
lemma returns {P : α → Prop} (h : Lockstep R x y) (hx : Returns x P) :
    Returns y fun b => ∃ a, P a ∧ R a b := by
  obtain ⟨a, rfl, hP⟩ := hx
  cases y with
  | error e => exact h.elim
  | ok b => exact ⟨b, rfl, a, hP, h⟩

end Lockstep

/-- Two conditionals on equivalent conditions, of which the values are related branch by
branch. -/
lemma Rel.ite_iff {R : α → β → Prop} {c d : Prop} [Decidable c] [Decidable d]
    {x x' : Checked α} {y y' : Checked β} (hcd : c ↔ d) (ht : c → Rel R x y)
    (he : ¬c → Rel R x' y') : Rel R (if c then x else x') (if d then y else y') := by
  by_cases h : c
  · rw [if_pos h, if_pos (hcd.mp h)]
    exact ht h
  · rw [if_neg h, if_neg fun hd => h (hcd.mpr hd)]
    exact he h

end Checked
