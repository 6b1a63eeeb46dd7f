import Mathlib.Tactic

set_option relaxedAutoImplicit false
set_option autoImplicit false

/-!
# Computations that may raise

Code that writes to a state and may raise an exception half-way is an `EStateM` computation:
an exception ends it, and the writes made before it stay. The rules below are those of Hoare
logic with two postconditions, one for a normal return and one for an exception.

## Main definitions

* `Raising ε σ α` — a computation over the state `σ` that returns an `α` or raises an `ε`.
* `Raising.Spec pre x post exc` — from a state satisfying `pre`, `x` returns into `post` or
  raises into `exc`.
* `Raising.on` — a computation on a part of the state, as a computation on the whole.
* `Raising.handle` — an exception handler, with what follows a normal return.

## Main results

* `Raising.bind_eq_ok`, `Raising.bind_eq_error` — inversion of a sequenced computation.
* `Raising.Spec.bind`, `Raising.Spec.conseq` — the sequencing and consequence rules.
* `Raising.Spec.forEach` — the loop rule: a loop keeps what its body keeps.
-/

/-- A computation over a state, whose writes survive the exception it may raise. -/
abbrev Raising (ε σ α : Type) : Type := EStateM ε σ α

namespace Raising

variable {ε σ τ α β : Type}

/-! ## Inversion -/

/-- A sequenced computation returns exactly when both halves do. -/
theorem bind_eq_ok {x : Raising ε σ α} {f : α → Raising ε σ β} {s s' : σ} {b : β} :
    (x >>= f) s = .ok b s' ↔ ∃ a t, x s = .ok a t ∧ f a t = .ok b s' := by
  simp only [bind, EStateM.bind]
  cases x s <;> simp

/-- A sequenced computation raises exactly when its first half does, or its second half does
after the first returned. -/
theorem bind_eq_error {x : Raising ε σ α} {f : α → Raising ε σ β} {s s' : σ} {e : ε} :
    (x >>= f) s = .error e s' ↔
      x s = .error e s' ∨ ∃ a t, x s = .ok a t ∧ f a t = .error e s' := by
  simp only [bind, EStateM.bind]
  cases x s <;> simp

/-- Sequencing after a computation known to return. -/
lemma bind_of_eq_ok {x : Raising ε σ α} {f : α → Raising ε σ β} {s t : σ} {a : α}
    (h : x s = .ok a t) : (x >>= f) s = f a t := by
  simp only [bind, EStateM.bind, h]

/-- Sequencing after a computation known to raise. -/
lemma bind_of_eq_error {x : Raising ε σ α} {f : α → Raising ε σ β} {s t : σ} {e : ε}
    (h : x s = .error e t) : (x >>= f) s = .error e t := by
  simp only [bind, EStateM.bind, h]

@[simp] lemma pure_run (a : α) (s : σ) : (pure a : Raising ε σ α) s = .ok a s := rfl

@[simp] lemma throw_run (e : ε) (s : σ) : (throw e : Raising ε σ α) s = .error e s := rfl

@[simp] lemma get_run (s : σ) : (get : Raising ε σ σ) s = .ok s s := rfl

@[simp] lemma set_run (s t : σ) : (set t : Raising ε σ PUnit) s = .ok ⟨⟩ t := rfl

@[simp] lemma modify_run (f : σ → σ) (s : σ) :
    (modify f : Raising ε σ PUnit) s = .ok ⟨⟩ (f s) := rfl

/-- The value of a fallible expression, or the exception it raises. -/
def ofExcept : Except ε α → Raising ε σ α
  | .ok a => pure a
  | .error e => throw e

@[simp] lemma ofExcept_ok (a : α) (s : σ) :
    ofExcept (.ok a : Except ε α) s = EStateM.Result.ok a s := rfl

@[simp] lemma ofExcept_error (e : ε) (s : σ) :
    ofExcept (.error e : Except ε α) s = EStateM.Result.error e s := rfl

lemma ofExcept_eq_error {x : Except ε α} {e : ε} {s t : σ} :
    ofExcept x s = EStateM.Result.error e t ↔ x = .error e ∧ t = s := by
  cases x with
  | ok a => simp
  | error e' => simp [eq_comm]

/-- The state that a computation leaves. -/
def after (x : Raising ε σ α) (s : σ) : σ :=
  match x s with
  | .ok _ t => t
  | .error _ t => t

/-- The value that a computation returns, or the exception it raises. -/
def outcome (x : Raising ε σ α) (s : σ) : Except ε α :=
  match x s with
  | .ok a _ => .ok a
  | .error e _ => .error e

/-- Sequencing after a computation known to return leaves what the second half leaves. -/
lemma after_bind_of_eq_ok {x : Raising ε σ α} {f : α → Raising ε σ β} {s t : σ} {a : α}
    (h : x s = .ok a t) : (x >>= f).after s = (f a).after t := by
  unfold after
  rw [bind_of_eq_ok h]

/-- Sequencing after a computation known to raise leaves what that computation left. -/
lemma after_bind_of_eq_error {x : Raising ε σ α} {f : α → Raising ε σ β} {s t : σ} {e : ε}
    (h : x s = .error e t) : (x >>= f).after s = t := by
  unfold after
  rw [bind_of_eq_error h]

/-- Returning a value afterwards leaves the state as it is. -/
lemma after_bind_pure {x : Raising ε σ α} {f : α → β} {s : σ} :
    (x >>= fun a => pure (f a)).after s = x.after s := by
  unfold after
  simp only [bind, EStateM.bind]
  cases x s <;> rfl

/-! ## Tests -/

/-- `x` returns from `s`, and the test succeeds on the outcome. -/
def returnsWith (x : Raising ε σ α) (s : σ) (test : α → σ → Bool) : Bool :=
  match x s with
  | .ok a t => test a t
  | .error _ _ => false

/-- `x` raises from `s`, and the test succeeds on the outcome. -/
def raisesWith (x : Raising ε σ α) (s : σ) (test : ε → σ → Bool) : Bool :=
  match x s with
  | .ok _ _ => false
  | .error e t => test e t

lemma exists_of_returnsWith {x : Raising ε σ α} {s : σ} {test : α → σ → Bool}
    (h : returnsWith x s test = true) : ∃ a t, x s = .ok a t ∧ test a t = true := by
  unfold returnsWith at h
  cases hx : x s with
  | ok a t =>
    rw [hx] at h
    exact ⟨a, t, rfl, h⟩
  | error e t =>
    rw [hx] at h
    cases h

lemma exists_of_raisesWith {x : Raising ε σ α} {s : σ} {test : ε → σ → Bool}
    (h : raisesWith x s test = true) : ∃ e t, x s = .error e t ∧ test e t = true := by
  unfold raisesWith at h
  cases hx : x s with
  | ok a t =>
    rw [hx] at h
    cases h
  | error e t =>
    rw [hx] at h
    exact ⟨e, t, rfl, h⟩

/-! ## A part of the state -/

/-- Run `x` on the part of the state that `read` selects and `write` puts back. -/
def on (read : τ → σ) (write : τ → σ → τ) (x : Raising ε σ α) : Raising ε τ α := fun s =>
  match x (read s) with
  | .ok a t => .ok a (write s t)
  | .error e t => .error e (write s t)

lemma on_eq_ok {read : τ → σ} {write : τ → σ → τ} {x : Raising ε σ α} {s s' : τ} {a : α} :
    on read write x s = .ok a s' ↔ ∃ t, x (read s) = .ok a t ∧ s' = write s t := by
  unfold on
  cases x (read s) <;> simp [eq_comm]

lemma on_eq_error {read : τ → σ} {write : τ → σ → τ} {x : Raising ε σ α} {s s' : τ} {e : ε} :
    on read write x s = .error e s' ↔ ∃ t, x (read s) = .error e t ∧ s' = write s t := by
  unfold on
  cases x (read s) <;> simp [eq_comm]

/-- Raise `f e` where `x` raises `e`. -/
def mapError {ε' : Type} (f : ε → ε') (x : Raising ε σ α) : Raising ε' σ α := fun s =>
  match x s with
  | .ok a t => .ok a t
  | .error e t => .error (f e) t

lemma mapError_eq_ok {ε' : Type} {f : ε → ε'} {x : Raising ε σ α} {s t : σ} {a : α} :
    mapError f x s = .ok a t ↔ x s = .ok a t := by
  unfold mapError
  cases x s <;> simp

/-- Renaming an exception leaves the state as it is. -/
lemma after_mapError {ε' : Type} {f : ε → ε'} {x : Raising ε σ α} {s : σ} :
    (mapError f x).after s = x.after s := by
  simp only [after, mapError]
  cases x s <;> rfl

lemma mapError_eq_error {ε' : Type} {f : ε → ε'} {x : Raising ε σ α} {s t : σ} {e : ε'} :
    mapError f x s = .error e t ↔ ∃ e', x s = .error e' t ∧ e = f e' := by
  unfold mapError
  cases x s <;> simp [and_comm, eq_comm]

/-- `try: x`, followed by `ret` where `x` returns, and by `exc` where it raises. -/
def handle {ε' : Type} (x : Raising ε σ α) (ret : α → Raising ε' σ β) (exc : ε → Raising ε' σ β) :
    Raising ε' σ β := fun s =>
  match x s with
  | .ok a t => ret a t
  | .error e t => exc e t

lemma handle_of_eq_ok {ε' : Type} {x : Raising ε σ α} {ret : α → Raising ε' σ β}
    {exc : ε → Raising ε' σ β} {s t : σ} {a : α} (h : x s = .ok a t) :
    handle x ret exc s = ret a t := by
  simp only [handle, h]

lemma handle_of_eq_error {ε' : Type} {x : Raising ε σ α} {ret : α → Raising ε' σ β}
    {exc : ε → Raising ε' σ β} {s t : σ} {e : ε} (h : x s = .error e t) :
    handle x ret exc s = exc e t := by
  simp only [handle, h]

/-! ## Pre- and postconditions -/

/-- From a state satisfying `pre`, `x` returns into `post` or raises into `exc`. -/
def Spec (pre : σ → Prop) (x : Raising ε σ α) (post : α → σ → Prop) (exc : ε → σ → Prop) :
    Prop :=
  ∀ s, pre s → match x s with
    | .ok a t => post a t
    | .error e t => exc e t

namespace Spec

variable {pre pre' : σ → Prop} {x : Raising ε σ α} {f : α → Raising ε σ β}
  {post post' : α → σ → Prop} {mid : α → σ → Prop} {last : β → σ → Prop}
  {exc exc' : ε → σ → Prop}

/-- The postcondition of a computation that returned. -/
lemma of_ok (h : Spec pre x post exc) {s t : σ} {a : α} (hs : pre s) (hx : x s = .ok a t) :
    post a t := by
  have := h s hs
  rw [hx] at this
  exact this

/-- The postcondition of a computation that raised. -/
lemma of_error (h : Spec pre x post exc) {s t : σ} {e : ε} (hs : pre s)
    (hx : x s = .error e t) : exc e t := by
  have := h s hs
  rw [hx] at this
  exact this

/-- A specification from what each outcome implies. -/
lemma intro (hok : ∀ s a t, pre s → x s = .ok a t → post a t)
    (herr : ∀ s e t, pre s → x s = .error e t → exc e t) : Spec pre x post exc := by
  intro s hs
  cases h : x s with
  | ok a t => exact hok s a t hs h
  | error e t => exact herr s e t hs h

/-- **Consequence.** -/
theorem conseq (h : Spec pre x post exc) (hpre : ∀ s, pre' s → pre s)
    (hpost : ∀ a s, post a s → post' a s) (hexc : ∀ e s, exc e s → exc' e s) :
    Spec pre' x post' exc' :=
  intro (fun _ _ _ hs hx => hpost _ _ (h.of_ok (hpre _ hs) hx))
    (fun _ _ _ hs hx => hexc _ _ (h.of_error (hpre _ hs) hx))

/-- **Sequencing.** The exception postcondition is shared by the two halves. -/
theorem bind (hx : Spec pre x mid exc) (hf : ∀ a, Spec (mid a) (f a) last exc) :
    Spec pre (x >>= f) last exc := by
  refine intro (fun s b t hs h => ?_) (fun s e t hs h => ?_)
  · obtain ⟨a, u, hxu, hfu⟩ := bind_eq_ok.mp h
    exact (hf a).of_ok (hx.of_ok hs hxu) hfu
  · rcases bind_eq_error.mp h with hxe | ⟨a, u, hxu, hfu⟩
    · exact hx.of_error hs hxe
    · exact (hf a).of_error (hx.of_ok hs hxu) hfu

/-- What holds however a computation ends holds of the state that it leaves. -/
lemma after {last : σ → Prop} (h : Spec pre x (fun _ => last) (fun _ => last)) {s : σ}
    (hs : pre s) : last (x.after s) := by
  have hend := h s hs
  unfold Raising.after
  cases hx : x s with
  | ok a t =>
    rw [hx] at hend
    exact hend
  | error e t =>
    rw [hx] at hend
    exact hend

/-- A returned value. -/
lemma pure {a : α} (h : ∀ s, pre s → post a s) :
    Spec pre (Pure.pure a : Raising ε σ α) post exc := fun s hs => h s hs

end Spec

/-! ## Loops -/

/-- Run `body` on the elements of a list in order, and collect what it yields. -/
def forEach (body : α → Raising ε σ (Option β)) : List α → Raising ε σ (List β)
  | [] => pure []
  | x :: xs => do
    let y ← body x
    let ys ← forEach body xs
    pure (y.toList ++ ys)

/-- **Loop.** Over the elements seen so far and the values yielded for them, an invariant that
every round keeps holds when the loop returns; when a round raises, its exception postcondition
holds. -/
theorem Spec.forEach {body : α → Raising ε σ (Option β)} {I : List α → List β → σ → Prop}
    {exc : ε → σ → Prop} {xs : List α}
    (h : ∀ pre x post out, xs = pre ++ x :: post →
      Spec (I pre out) (body x) (fun y => I (pre ++ [x]) (out ++ y.toList)) exc) :
    Spec (I [] []) (forEach body xs) (fun out => I xs out) exc := by
  suffices hgen : ∀ post pre out, xs = pre ++ post →
      Spec (I pre out) (Raising.forEach body post) (fun ys => I xs (out ++ ys)) exc by
    simpa using hgen xs [] [] rfl
  intro post
  induction post with
  | nil =>
    intro pre out heq
    refine Spec.pure fun s hs => ?_
    simpa [heq] using hs
  | cons x post ih =>
    intro pre out heq
    refine Spec.bind (h pre x post out heq) fun y => ?_
    refine Spec.bind (ih (pre ++ [x]) (out ++ y.toList) (by simp [heq])) fun ys => ?_
    refine Spec.pure fun s hs => ?_
    simpa using hs

end Raising
