import Mathlib.Tactic
import Mathlib.Algebra.Order.Field.Rat
import Mathlib.Data.List.TakeWhile

set_option relaxedAutoImplicit false
set_option autoImplicit false

/-!
# Python strings and floats

The parts of Python's `str` and `float` that trading code rests on. The string methods depend
on the Unicode tables of the interpreter and are a parameter; floats have an exact finite part:
the rationals, the two infinities and not-a-number, with the comparisons and the arithmetic of
IEEE 754, rounding aside. Every comparison with `nan` is false.

## Main definitions

* `PyStr`, `PyStr.norm` — `strip`, `lower` and `upper`, and `s.strip().lower()`.
* `PyStr.ascii` — the methods on strings of ASCII characters.
* `PyFloat` — a finite value, `inf`, `negInf` or `nan`.
* `PyFloat.lt`, `PyFloat.le`, `PyFloat.sub`, `PyFloat.scale` — comparisons and arithmetic.

## Main results

* `PyFloat.eq_fin_of_pos` — a value that is finite and compares above zero is a positive
  rational.
-/

/-! ## Strings -/

/-- The string methods, with the values that order sides are compared with: lower-case words
without blanks are left as they are. -/
structure PyStr where
  /-- `str.strip`. -/
  strip : String → String
  /-- `str.lower`. -/
  lower : String → String
  /-- `str.upper`. -/
  upper : String → String
  /-- `"buy"` is lower case and has no blanks. -/
  lower_strip_buy : lower (strip "buy") = "buy"
  /-- `"sell"` is lower case and has no blanks. -/
  lower_strip_sell : lower (strip "sell") = "sell"

namespace PyStr

/-- `s.strip().lower()`. -/
def norm (S : PyStr) (s : String) : String := S.lower (S.strip s)

@[simp] lemma norm_buy (S : PyStr) : S.norm "buy" = "buy" := S.lower_strip_buy

@[simp] lemma norm_sell (S : PyStr) : S.norm "sell" = "sell" := S.lower_strip_sell

/-- The ASCII characters that `strip` removes. -/
def isSpace (c : Char) : Bool := c.toNat ∈ [9, 10, 11, 12, 13, 28, 29, 30, 31, 32]

/-- `strip` on the characters of a string. -/
def stripChars (cs : List Char) : List Char :=
  ((cs.dropWhile isSpace).reverse.dropWhile isSpace).reverse

/-- The methods on ASCII strings. -/
def ascii : PyStr where
  strip s := String.ofList (stripChars s.toList)
  lower s := String.ofList (s.toList.map Char.toLower)
  upper s := String.ofList (s.toList.map Char.toUpper)
  lower_strip_buy := by decide
  lower_strip_sell := by decide

example : ascii.norm " Buy\n" = "buy" := by decide

/-- Stripping and lowering leave nothing of an empty text, and every slash of any other. -/
structure KeepsSlashes (S : PyStr) : Prop where
  empty : S.norm "" = ""
  slash : ∀ s : String, '/' ∈ s.toList → '/' ∈ (S.norm s).toList

/-- A character that is not dropped stays. -/
lemma mem_dropWhile_of_not {p : Char → Bool} {c : Char} (hc : p c = false) {cs : List Char}
    (h : c ∈ cs) : c ∈ cs.dropWhile p := by
  rw [← List.takeWhile_append_dropWhile (p := p) (l := cs), List.mem_append] at h
  rcases h with h | h
  · have hp := List.mem_takeWhile_imp h
    rw [hc] at hp
    cases hp
  · exact h

/-- The methods on ASCII strings keep slashes. -/
lemma ascii_keepsSlashes : ascii.KeepsSlashes where
  empty := by decide
  slash s h := by
    have hspace : isSpace '/' = false := by decide
    have hstrip : '/' ∈ stripChars s.toList := by
      rw [stripChars, List.mem_reverse]
      refine mem_dropWhile_of_not hspace ?_
      rw [List.mem_reverse]
      exact mem_dropWhile_of_not hspace h
    rw [norm]
    simp only [ascii, String.toList_ofList, List.mem_map]
    exact ⟨'/', hstrip, by decide⟩

end PyStr

/-! ## Floats -/

/-- A float: finite, infinite or not a number. -/
inductive PyFloat where
  /-- A finite value. -/
  | fin (q : ℚ)
  /-- Positive infinity. -/
  | inf
  /-- Negative infinity. -/
  | negInf
  /-- Not a number. -/
  | nan
  deriving DecidableEq, Repr

namespace PyFloat

/-- `x < y`. -/
def lt : PyFloat → PyFloat → Bool
  | .fin a, .fin b => decide (a < b)
  | .fin _, .inf | .negInf, .fin _ | .negInf, .inf => true
  | _, _ => false

/-- `x <= y`. -/
def le : PyFloat → PyFloat → Bool
  | .fin a, .fin b => decide (a ≤ b)
  | .fin _, .inf | .negInf, .fin _ | .negInf, .inf | .inf, .inf | .negInf, .negInf => true
  | _, _ => false

/-- `x` is neither infinite nor `nan`. -/
def isFinite : PyFloat → Bool
  | .fin _ => true
  | _ => false

/-- `x - y`. -/
def sub : PyFloat → PyFloat → PyFloat
  | .fin a, .fin b => .fin (a - b)
  | .fin _, .inf | .negInf, .fin _ | .negInf, .inf => .negInf
  | .fin _, .negInf | .inf, .fin _ | .inf, .negInf => .inf
  | _, _ => .nan

/-- `x * c` for a finite factor `c`. -/
def scale (c : ℚ) : PyFloat → PyFloat
  | .fin a => .fin (a * c)
  | .inf => if 0 < c then .inf else if c < 0 then .negInf else .nan
  | .negInf => if 0 < c then .negInf else if c < 0 then .inf else .nan
  | .nan => .nan

@[simp] lemma lt_fin (a b : ℚ) : lt (.fin a) (.fin b) = decide (a < b) := rfl

@[simp] lemma le_fin (a b : ℚ) : le (.fin a) (.fin b) = decide (a ≤ b) := rfl

@[simp] lemma sub_fin (a b : ℚ) : sub (.fin a) (.fin b) = .fin (a - b) := rfl

@[simp] lemma scale_fin (c a : ℚ) : scale c (.fin a) = .fin (a * c) := rfl

@[simp] lemma isFinite_fin (a : ℚ) : isFinite (.fin a) = true := rfl

/-- A finite value that compares above zero is a positive rational. -/
theorem eq_fin_of_pos {x : PyFloat} (hx : x.isFinite = true) (h : lt (.fin 0) x = true) :
    ∃ q : ℚ, x = .fin q ∧ 0 < q := by
  cases x with
  | fin q => exact ⟨q, rfl, by simpa using h⟩
  | inf => cases hx
  | negInf => cases hx
  | nan => cases hx

/-- A value that compares above zero is a positive rational, or it is infinite. -/
lemma pos_iff_ne_inf {x : PyFloat} (h : lt (.fin 0) x = true) :
    (∃ q, x = .fin q ∧ 0 < q) ↔ x ≠ .inf := by
  cases x with
  | fin q => simpa using h
  | inf => simp
  | negInf => cases h
  | nan => cases h

end PyFloat
