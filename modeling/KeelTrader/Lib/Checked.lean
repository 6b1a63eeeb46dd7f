import Mathlib.Tactic
import Mathlib.Algebra.Order.Field.Rat

set_option relaxedAutoImplicit false
set_option autoImplicit false

/-!
# Checked computations

Imperative code that reads arrays and divides is embedded as an `Except` computation whose
error is a *run-time fault*: an index outside its array, or a division by zero. A computation
that returns normally has therefore performed no such access, and the rules below prove this
from pre- and postconditions, one bind at a time.

## Main definitions

* `Checked.Fault`, `Checked` — faults, and computations that may fault.
* `Checked.index`, `Checked.fdiv`, `Checked.cdiv`, `Checked.cmod` — a guarded array index, and
  guarded divisions (`cdiv` and `cmod` truncate towards zero, as C does).
* `Checked.Returns x P` — `x` does not fault and its value satisfies `P`.
* `Checked.Ensures x P` — the value of `x`, if it returns, satisfies `P`.
* `Checked.Rel R x y` — whenever both `x` and `y` return, their values are related by `R`.

## Main results

* `Checked.Returns.bind`, `Checked.Returns.mono` — the sequencing and consequence rules.
* `Checked.Returns.bind_iff`, `Checked.Returns.mapM_iff` — the weakest preconditions of a sequence
  and of a loop.
* `Checked.Ensures.bind`, `Checked.Ensures.mono` — the same for partial correctness.
* `Checked.Rel.bind` — the sequencing rule for two runs.
* `Checked.bind_eq_ok` — inversion of a sequenced computation that returned.
-/

/-- A run-time fault of array- and division-level code. -/
inductive Checked.Fault where
  /-- An access at `index` to an array of `bound` entries. -/
  | outOfRange (index : ℤ) (bound : ℕ)
  /-- A division or remainder whose right operand is zero. -/
  | divByZero
  deriving DecidableEq, Repr

/-- A computation that may fault. -/
abbrev Checked (α : Type) : Type := Except Checked.Fault α

namespace Checked

variable {α β γ δ : Type}

/-! ## Inversion -/

/-- A sequenced computation returns `b` exactly when its first half returns some `a` from
which the second half returns `b`. -/
theorem bind_eq_ok {x : Checked α} {f : α → Checked β} {b : β} :
    (x >>= f) = .ok b ↔ ∃ a, x = .ok a ∧ f a = .ok b := by
  cases x <;> simp [bind, Except.bind]

/-- `pure a` returns `b` exactly when `a = b`. -/
lemma pure_eq_ok {a b : α} : (pure a : Checked α) = .ok b ↔ a = b := by
  simp [pure, Except.pure]

/-- Sequencing after a computation known to return. -/
lemma bind_of_eq_ok {x : Checked α} {a : α} (h : x = .ok a) (f : α → Checked β) :
    (x >>= f) = f a := by
  subst h; rfl

/-- Two continuations may be exchanged when they agree on the value the first half returns. -/
lemma bind_congr_ok {x : Checked α} {f g : α → Checked β} (h : ∀ a, x = .ok a → f a = g a) :
    (x >>= f) = (x >>= g) := by
  cases x with
  | error e => rfl
  | ok a => exact h a rfl

/-- A loop that collects values returns when each of its rounds does. -/
lemma mapM_eq_ok {ε : Type} {f : α → Except ε β} {g : α → β} {l : List α}
    (h : ∀ a ∈ l, f a = .ok (g a)) : l.mapM f = .ok (l.map g) := by
  induction l with
  | nil => rfl
  | cons a l ih =>
    rw [List.mapM_cons, h a List.mem_cons_self, ih fun b hb => h b (List.mem_cons_of_mem _ hb)]
    rfl

/-- What a loop collects are the values of its rounds. -/
lemma forall₂_of_mapM_eq_ok {ε : Type} {f : α → Except ε β} {l : List α} {l' : List β}
    (h : l.mapM f = .ok l') : List.Forall₂ (fun a b => f a = .ok b) l l' := by
  induction l generalizing l' with
  | nil =>
    cases h
    exact .nil
  | cons a l ih =>
    rw [List.mapM_cons] at h
    cases ha : f a with
    | error e =>
      rw [ha] at h
      cases h
    | ok b =>
      cases hl : l.mapM f with
      | error e =>
        rw [ha, hl] at h
        cases h
      | ok bs =>
        rw [ha, hl] at h
        cases h
        exact .cons ha (ih hl)

/-- A loop with an accumulator returns when each of its rounds does. -/
lemma foldlM_eq_ok {ε : Type} {f : β → α → Except ε β} {g : β → α → β} {l : List α}
    (h : ∀ b, ∀ a ∈ l, f b a = .ok (g b a)) (b : β) : l.foldlM f b = .ok (l.foldl g b) := by
  induction l generalizing b with
  | nil => rfl
  | cons a l ih =>
    rw [List.foldlM_cons, h b a List.mem_cons_self]
    exact ih (fun b a ha => h b a (List.mem_cons_of_mem _ ha)) (g b a)

/-! ## Pre- and postconditions -/

/-- `x` does not fault, and its value satisfies `P`. -/
def Returns (x : Checked α) (P : α → Prop) : Prop := ∃ a, x = .ok a ∧ P a

namespace Returns

variable {x : Checked α} {f : α → Checked β} {P Q : α → Prop} {R : β → Prop}

/-- A pure value satisfies whatever holds of it. -/
lemma pure {a : α} (h : P a) : Returns (Pure.pure a : Checked α) P := ⟨a, rfl, h⟩

/-- **Sequencing.** The postcondition of the first half is the precondition of the second. -/
theorem bind (hx : Returns x P) (hf : ∀ a, P a → Returns (f a) R) : Returns (x >>= f) R := by
  obtain ⟨a, ha, hP⟩ := hx
  rw [bind_of_eq_ok ha]
  exact hf a hP

/-- **Consequence.** A postcondition may be weakened. -/
theorem mono (hx : Returns x P) (h : ∀ a, P a → Q a) : Returns x Q := by
  obtain ⟨a, ha, hP⟩ := hx
  exact ⟨a, ha, h a hP⟩

/-- A computation that does not fault meets every postcondition its values are known to
have. -/
lemma of_values (hx : Returns x P) (h : ∀ a, x = .ok a → Q a) : Returns x Q := by
  obtain ⟨a, ha, -⟩ := hx
  exact ⟨a, ha, h a ha⟩

/-- Both branches of a conditional meet the postcondition. -/
lemma ite {c : Prop} [Decidable c] {x y : Checked α} (hx : c → Returns x P)
    (hy : ¬c → Returns y P) : Returns (if c then x else y) P := by
  split
  · next h => exact hx h
  · next h => exact hy h

/-! ### Weakest preconditions -/

/-- The precondition of a sequence is that of its first half for that of its second. -/
theorem bind_iff : Returns (x >>= f) R ↔ Returns x fun a => Returns (f a) R := by
  constructor
  · rintro ⟨b, hb, hR⟩
    obtain ⟨a, ha, hfa⟩ := bind_eq_ok.mp hb
    exact ⟨a, ha, b, hfa, hR⟩
  · intro h
    exact h.bind fun _ hfa => hfa

lemma pure_iff {a : α} : Returns (Pure.pure a : Checked α) P ↔ P a := by
  constructor
  · rintro ⟨b, hb, hP⟩
    rw [pure_eq_ok.mp hb]
    exact hP
  · exact Returns.pure

lemma ite_iff {c : Prop} [Decidable c] {x y : Checked α} :
    Returns (if c then x else y) P ↔ (c → Returns x P) ∧ (¬c → Returns y P) := by
  by_cases h : c
  · simp [h]
  · simp [h]

/-- A guarded value is returned when its guard holds. -/
lemma guard_iff {c : Prop} [Decidable c] {a : α} {e : Fault} :
    Returns (if c then Pure.pure a else throw e) P ↔ c ∧ P a := by
  by_cases h : c
  · rw [if_pos h, pure_iff, and_iff_right h]
  · rw [if_neg h]
    constructor
    · rintro ⟨b, hb, -⟩
      cases hb
    · exact fun hc => absurd hc.1 h

/-- **Loops.** A loop that collects one guarded value in each round returns them all when every
guard holds. -/
theorem mapM_iff {f : α → Checked β} {c : α → Prop} {g : α → β} {l : List α}
    {P : List β → Prop} (h : ∀ a Q, Returns (f a) Q ↔ c a ∧ Q (g a)) :
    Returns (l.mapM f) P ↔ (∀ a ∈ l, c a) ∧ P (l.map g) := by
  induction l generalizing P with
  | nil => simp [pure_iff]
  | cons a l ih =>
    simp only [List.mapM_cons, bind_iff, pure_iff, h, ih, List.forall_mem_cons, List.map_cons,
      and_assoc]

/-- A loop returns when each of its rounds does. -/
lemma mapM {f : α → Checked β} {l : List α} (h : ∀ a ∈ l, Returns (f a) fun _ => True) :
    Returns (l.mapM f) fun _ => True := by
  induction l with
  | nil => exact ⟨[], rfl, trivial⟩
  | cons a l ih =>
    rw [List.mapM_cons]
    apply Returns.bind (h a List.mem_cons_self)
    intro b _
    apply Returns.bind (ih fun a' ha' => h a' (List.mem_cons_of_mem _ ha'))
    intro bs _
    exact Returns.pure trivial

/-- A loop that stops at the first round with a positive answer returns when each of its rounds
does. -/
lemma anyM {p : α → Checked Bool} {l : List α} (h : ∀ a ∈ l, Returns (p a) fun _ => True) :
    Returns (l.anyM p) fun _ => True := by
  induction l with
  | nil => exact ⟨false, rfl, trivial⟩
  | cons a l ih =>
    rw [List.anyM_cons]
    apply Returns.bind (h a List.mem_cons_self)
    rintro (_ | _) _
    · exact ih fun a' ha' => h a' (List.mem_cons_of_mem _ ha')
    · exact Returns.pure trivial

end Returns

/-! ## Partial correctness -/

/-- The value of `x`, if it returns, satisfies `P`. -/
def Ensures (x : Checked α) (P : α → Prop) : Prop := ∀ a, x = .ok a → P a

namespace Ensures

variable {x : Checked α} {f : α → Checked β} {P Q : α → Prop} {R : β → Prop}

/-- A pure value satisfies whatever holds of it. -/
lemma pure {a : α} (h : P a) : Ensures (Pure.pure a : Checked α) P := by
  intro b hb
  rw [← pure_eq_ok.mp hb]
  exact h

/-- **Sequencing.** The second half may assume what the first ensures. -/
theorem bind (hx : Ensures x P) (hf : ∀ a, P a → Ensures (f a) R) : Ensures (x >>= f) R := by
  intro b hb
  obtain ⟨a, ha, hb⟩ := bind_eq_ok.mp hb
  exact hf a (hx a ha) b hb

/-- **Consequence.** A postcondition may be weakened. -/
theorem mono (hx : Ensures x P) (h : ∀ a, P a → Q a) : Ensures x Q :=
  fun a ha => h a (hx a ha)

/-- A computation ensures that its value is one that it returns. -/
lemma self : Ensures x fun a => x = .ok a := fun _ ha => ha

/-- Both branches of a conditional ensure the postcondition. -/
lemma ite {c : Prop} [Decidable c] {x y : Checked α} (hx : c → Ensures x P)
    (hy : ¬c → Ensures y P) : Ensures (if c then x else y) P := by
  split
  · next h => exact hx h
  · next h => exact hy h

end Ensures

/-- What a computation that does not fault returns is what it ensures. -/
lemma Returns.ensures {x : Checked α} {P : α → Prop} (h : Returns x P) : Ensures x P := by
  obtain ⟨a, ha, hP⟩ := h
  intro b hb
  rw [ha] at hb
  cases hb
  exact hP

/-- A test that succeeds on the value of a computation shows that it returned. -/
lemma exists_of_toOption {x : Checked α} {P : α → Bool} (h : x.toOption.map P = some true) :
    ∃ a, x = .ok a ∧ P a = true := by
  cases x with
  | error e => cases h
  | ok a => exact ⟨a, rfl, Option.some.inj h⟩

/-! ## Two runs -/

/-- Whenever both `x` and `y` return, their values are related by `R`. -/
def Rel (R : α → β → Prop) (x : Checked α) (y : Checked β) : Prop :=
  ∀ a b, x = .ok a → y = .ok b → R a b

namespace Rel

variable {R : α → β → Prop} {x : Checked α} {y : Checked β}

/-- Related values are related as computations. -/
lemma pure {a : α} {b : β} (h : R a b) : Rel R (Pure.pure a) (Pure.pure b) := by
  intro a' b' ha hb
  rw [pure_eq_ok] at ha hb
  subst ha hb
  exact h

/-- **Sequencing.** Two sequenced computations are related when their first halves are, and
their second halves are on related values. -/
theorem bind {S : γ → δ → Prop} {f : α → Checked γ} {g : β → Checked δ} (h : Rel R x y)
    (hfg : ∀ a b, R a b → Rel S (f a) (g b)) : Rel S (x >>= f) (y >>= g) := by
  intro c d hc hd
  obtain ⟨a, ha, hfa⟩ := bind_eq_ok.mp hc
  obtain ⟨b, hb, hgb⟩ := bind_eq_ok.mp hd
  exact hfg a b (h a b ha hb) c d hfa hgb

/-- A computation is related to itself when `R` is reflexive. -/
lemma of_eq {R : α → α → Prop} {x y : Checked α} (h : x = y) (hR : ∀ a, R a a) :
    Rel R x y := by
  intro a b ha hb
  rw [h, hb] at ha
  cases ha
  exact hR _

/-- Both runs sequence one computation: the values it returns are the same. -/
lemma bind_same {x : Checked α} {S : γ → δ → Prop} {f : α → Checked γ} {g : α → Checked δ}
    (h : ∀ a, x = .ok a → Rel S (f a) (g a)) : Rel S (x >>= f) (x >>= g) := by
  intro c d hc hd
  obtain ⟨a, ha, hfa⟩ := bind_eq_ok.mp hc
  rw [bind_of_eq_ok ha] at hd
  exact h a ha c d hfa hd

/-- Two conditionals on the same condition are related branch by branch. -/
lemma ite {c : Prop} [Decidable c] {x x' : Checked α} {y y' : Checked β} (ht : c → Rel R x y)
    (he : ¬c → Rel R x' y') : Rel R (if c then x else x') (if c then y else y') := by
  split
  · next h => exact ht h
  · next h => exact he h

/-- A relation may be weakened. -/
theorem mono {S : α → β → Prop} (h : Rel R x y) (hRS : ∀ a b, R a b → S a b) : Rel S x y :=
  fun a b ha hb => hRS a b (h a b ha hb)

/-- Nothing is asked of the values. -/
lemma trivial : Rel (fun _ _ => True) x y := fun _ _ _ _ => True.intro

end Rel

/-! ## Guarded accesses -/

/-- The index `i` into an array of `n` entries, as a natural number. -/
def index (i : ℤ) (n : ℕ) : Checked ℕ :=
  if 0 ≤ i ∧ i < n then .ok i.toNat else .error (.outOfRange i n)

/-- Division of fractions. -/
def fdiv (a b : ℚ) : Checked ℚ := if b = 0 then .error .divByZero else .ok (a / b)

/-- Integer division, truncated towards zero. -/
def cdiv (a b : ℤ) : Checked ℤ := if b = 0 then .error .divByZero else .ok (a.tdiv b)

/-- Integer remainder, with the sign of the dividend. -/
def cmod (a b : ℤ) : Checked ℤ := if b = 0 then .error .divByZero else .ok (a.tmod b)

lemma index_of_lt {i : ℤ} {n : ℕ} (h0 : 0 ≤ i) (hn : i < n) : index i n = .ok i.toNat :=
  if_pos ⟨h0, hn⟩

lemma fdiv_of_ne {a b : ℚ} (h : b ≠ 0) : fdiv a b = .ok (a / b) := if_neg h

lemma cdiv_of_ne {a b : ℤ} (h : b ≠ 0) : cdiv a b = .ok (a.tdiv b) := if_neg h

lemma cmod_of_ne {a b : ℤ} (h : b ≠ 0) : cmod a b = .ok (a.tmod b) := if_neg h

/-- An index that was accepted lies inside the array. -/
lemma index_eq_ok {i : ℤ} {n k : ℕ} (h : index i n = .ok k) : (k : ℤ) = i ∧ k < n := by
  unfold index at h
  split at h
  · next hi =>
    cases h
    omega
  · cases h

/-- A quotient that was returned has a nonzero denominator. -/
lemma fdiv_eq_ok {a b c : ℚ} (h : fdiv a b = .ok c) : b ≠ 0 ∧ c = a / b := by
  unfold fdiv at h
  split at h
  · cases h
  · next hb =>
    cases h
    exact ⟨hb, rfl⟩

/-- A remainder of a nonnegative integer that was returned is a valid index. -/
lemma cmod_eq_ok {a r : ℤ} {n : ℕ} (ha : 0 ≤ a) (h : cmod a n = .ok r) : 0 ≤ r ∧ r < n := by
  unfold cmod at h
  split at h
  · cases h
  · next hn =>
    cases h
    rw [Int.tmod_eq_emod_of_nonneg ha]
    exact ⟨Int.emod_nonneg a hn, Int.emod_lt_of_pos a (by omega)⟩

/-- The remainder of a nonnegative integer by a positive one is a valid index. -/
lemma cmod_returns {a : ℤ} {n : ℕ} (ha : 0 ≤ a) (hn : 0 < n) :
    Returns (cmod a n) fun r => 0 ≤ r ∧ r < n ∧ r = a % n := by
  refine ⟨a.tmod n, cmod_of_ne (by omega), ?_⟩
  rw [Int.tmod_eq_emod_of_nonneg ha]
  exact ⟨Int.emod_nonneg a (by omega), Int.emod_lt_of_pos a (by omega), rfl⟩

end Checked
