import Mathlib.Algebra.Order.Archimedean.Basic
import Mathlib.Data.Rat.Floor
import Mathlib.Tactic

set_option relaxedAutoImplicit false
set_option autoImplicit false

/-!
# Numbers with a fixed number of decimals

Rounding to the nearest integer, and the text of a number with a fixed number of decimals.

## Main definitions

* `roundHalfEven` — the nearest integer, the even one of two that are as near.
* `fixedText` — the text of a number with some decimals.
* `decimalValue` — the number that a text of digits denotes.

## Main results

* `abs_roundHalfEven_sub_le`, `roundHalfEven_mono` — rounding is off by at most a half, and keeps
  the order.
* `decimalValue_fixedText` — the text denotes the rounded number.
* `abs_fixedValue_sub_le`, `fixedValue_mono` — which is off by at most half a unit of the last
  decimal, and rounding it keeps the order.
-/

/-! ## Rounding -/

/-- The nearest integer, and the even one of two that are as near. -/
def roundHalfEven (q : ℚ) : ℤ :=
  let rest := q - ⌊q⌋
  if rest < 1 / 2 ∨ rest = 1 / 2 ∧ ⌊q⌋ % 2 = 0 then ⌊q⌋ else ⌊q⌋ + 1

/-- A number is rounded down in the lower half between two integers, and up in the upper half. -/
lemma roundHalfEven_cases (q : ℚ) :
    roundHalfEven q = ⌊q⌋ ∧ q - ⌊q⌋ ≤ 1 / 2 ∨ roundHalfEven q = ⌊q⌋ + 1 ∧ 1 / 2 ≤ q - ⌊q⌋ := by
  unfold roundHalfEven
  by_cases h : q - ⌊q⌋ < 1 / 2 ∨ q - ⌊q⌋ = 1 / 2 ∧ ⌊q⌋ % 2 = 0
  · refine Or.inl ⟨if_pos h, ?_⟩
    rcases h with h | h
    · exact h.le
    · exact h.1.le
  · refine Or.inr ⟨if_neg h, ?_⟩
    exact not_lt.mp fun hlt => h (Or.inl hlt)

/-- **Rounding.** It is off by at most a half. -/
theorem abs_roundHalfEven_sub_le (q : ℚ) : |(roundHalfEven q : ℚ) - q| ≤ 1 / 2 := by
  have hfloor := Int.floor_le q
  have hlt := Int.lt_floor_add_one q
  rcases roundHalfEven_cases q with ⟨h, hrest⟩ | ⟨h, hrest⟩
  · rw [h, abs_le]
    constructor <;> linarith
  · rw [h, abs_le]
    push_cast
    constructor <;> linarith

/-- Rounding keeps the order. -/
theorem roundHalfEven_mono : Monotone roundHalfEven := by
  intro p q hpq
  have hfloor : ⌊p⌋ ≤ ⌊q⌋ := Int.floor_mono hpq
  rcases eq_or_lt_of_le hfloor with heq | hlt
  · -- between the same two integers
    unfold roundHalfEven
    by_cases hq : q - ⌊q⌋ < 1 / 2 ∨ q - ⌊q⌋ = 1 / 2 ∧ ⌊q⌋ % 2 = 0
    · have hp : p - ⌊p⌋ < 1 / 2 ∨ p - ⌊p⌋ = 1 / 2 ∧ ⌊p⌋ % 2 = 0 := by
        rw [heq]
        rcases hq with hq | ⟨hq, heven⟩
        · exact Or.inl (by linarith)
        · rcases eq_or_lt_of_le (show p - ⌊q⌋ ≤ 1 / 2 by linarith) with hp | hp
          · exact Or.inr ⟨hp, heven⟩
          · exact Or.inl hp
      rw [if_pos hp, if_pos hq, heq]
    · rw [if_neg hq, heq]
      by_cases hp : p - ⌊q⌋ < 1 / 2 ∨ p - ⌊q⌋ = 1 / 2 ∧ ⌊q⌋ % 2 = 0
      · rw [if_pos hp]
        omega
      · rw [if_neg hp]
  · have hp : roundHalfEven p ≤ ⌊p⌋ + 1 := by
      rcases roundHalfEven_cases p with ⟨h, -⟩ | ⟨h, -⟩ <;> omega
    have hq : ⌊q⌋ ≤ roundHalfEven q := by
      rcases roundHalfEven_cases q with ⟨h, -⟩ | ⟨h, -⟩ <;> omega
    omega

lemma roundHalfEven_zero : roundHalfEven 0 = 0 := by simp [roundHalfEven]

lemma roundHalfEven_nonneg {q : ℚ} (h : 0 ≤ q) : 0 ≤ roundHalfEven q := by
  rw [← roundHalfEven_zero]
  exact roundHalfEven_mono h

/-! ## Texts -/

/-- The number of units of the last of `d` decimals, without its sign. -/
def fixedUnits (d : ℕ) (x : ℚ) : ℕ := (roundHalfEven (|x| * 10 ^ d)).toNat

/-- The number that a number is rounded to. -/
def fixedValue (d : ℕ) (x : ℚ) : ℚ := (if x < 0 then -1 else 1) * (fixedUnits d x / 10 ^ d)

/-- The decimals of `n` units, with the zeros in front. -/
def decimals (d n : ℕ) : List Char :=
  List.replicate (d - (Nat.toDigits 10 n).length) '0' ++ Nat.toDigits 10 n

/-- The text of a number with `d` decimals, of which there is one at least. -/
def fixedText (d : ℕ) (x : ℚ) : List Char :=
  (if x < 0 then ['-'] else []) ++
    (Nat.toDigits 10 (fixedUnits d x / 10 ^ d) ++ '.' :: decimals d (fixedUnits d x % 10 ^ d))

/-- The number that a text of digits with a point denotes. -/
def unsignedValue (text : List Char) : Option ℚ :=
  let whole := text.takeWhile (· ≠ '.')
  let fraction := (text.dropWhile (· ≠ '.')).tail
  if whole ≠ [] ∧ whole.all Char.isDigit ∧ fraction.all Char.isDigit then
    some (Nat.ofDigitChars 10 whole 0 + Nat.ofDigitChars 10 fraction 0 / 10 ^ fraction.length)
  else none

/-- The number that a text of digits with a point and a sign denotes. -/
def decimalValue (text : List Char) : Option ℚ :=
  match text with
  | '-' :: rest => (unsignedValue rest).map fun x => -x
  | _ => unsignedValue text

lemma isDigit_toDigits {n : ℕ} {c : Char} (h : c ∈ Nat.toDigits 10 n) : c.isDigit = true :=
  Nat.isDigit_of_mem_toDigits (by decide) (by decide) h

/-- There are as many decimals as are asked for. -/
lemma length_decimals {d n : ℕ} (hd : 0 < d) (h : n < 10 ^ d) : (decimals d n).length = d := by
  have hlength := (Nat.length_toDigits_le_iff (b := 10) (n := n) (by decide) hd).mpr h
  rw [decimals, List.length_append, List.length_replicate]
  omega

lemma ofDigitChars_decimals (d n : ℕ) : Nat.ofDigitChars 10 (decimals d n) 0 = n := by
  rw [decimals, Nat.ofDigitChars_append, Nat.ofDigitChars_replicate_zero, Nat.mul_zero,
    Nat.ofDigitChars_ten_toDigits]

lemma all_isDigit_decimals (d n : ℕ) : (decimals d n).all Char.isDigit = true := by
  rw [List.all_eq_true]
  intro c hc
  rcases List.mem_append.mp hc with hc | hc
  · rw [List.eq_of_mem_replicate hc]
    rfl
  · exact isDigit_toDigits hc

/-- The text without its sign. -/
lemma unsignedValue_fixed {d : ℕ} (hd : 0 < d) (n : ℕ) :
    unsignedValue (Nat.toDigits 10 (n / 10 ^ d) ++ '.' :: decimals d (n % 10 ^ d)) =
      some ((n : ℚ) / 10 ^ d) := by
  have hpoint : ∀ c ∈ Nat.toDigits 10 (n / 10 ^ d), decide (c ≠ '.') = true := by
    intro c hc
    refine decide_eq_true fun hdot => ?_
    have hdigit := isDigit_toDigits hc
    rw [hdot] at hdigit
    exact absurd hdigit (by decide)
  have hpow : 0 < 10 ^ d := by positivity
  have hmod : n % 10 ^ d < 10 ^ d := Nat.mod_lt n hpow
  have hwhole : (Nat.toDigits 10 (n / 10 ^ d)).all Char.isDigit = true :=
    List.all_eq_true.mpr fun c hc => isDigit_toDigits hc
  have htake : (Nat.toDigits 10 (n / 10 ^ d) ++ '.' :: decimals d (n % 10 ^ d)).takeWhile
      (· ≠ '.') = Nat.toDigits 10 (n / 10 ^ d) := by
    rw [List.takeWhile_append_of_pos hpoint]
    simp
  have hdrop : (Nat.toDigits 10 (n / 10 ^ d) ++ '.' :: decimals d (n % 10 ^ d)).dropWhile
      (· ≠ '.') = '.' :: decimals d (n % 10 ^ d) := by
    rw [List.dropWhile_append_of_pos hpoint]
    simp
  have hvalue : ((n / 10 ^ d : ℕ) : ℚ) + ((n % 10 ^ d : ℕ) : ℚ) / 10 ^ d = n / 10 ^ d := by
    have hdiv : ((10 ^ d * (n / 10 ^ d) + n % 10 ^ d : ℕ) : ℚ) = n := by rw [Nat.div_add_mod]
    push_cast at hdiv
    field_simp
    linarith
  simp only [unsignedValue, htake, hdrop, List.tail_cons]
  rw [if_pos ⟨Nat.toDigits_ne_nil, hwhole, all_isDigit_decimals _ _⟩, ofDigitChars_decimals,
    Nat.ofDigitChars_ten_toDigits, length_decimals hd hmod, hvalue]

/-- **Texts of numbers.** The text denotes the rounded number. -/
theorem decimalValue_fixedText {d : ℕ} (hd : 0 < d) (x : ℚ) :
    decimalValue (fixedText d x) = some (fixedValue d x) := by
  have hunsigned := unsignedValue_fixed hd (fixedUnits d x)
  unfold fixedText fixedValue
  by_cases hx : x < 0
  · simp only [if_pos hx, List.singleton_append, decimalValue, hunsigned]
    simp
  · -- the first character is a digit, so it is no sign
    obtain ⟨c, cs, hcs⟩ := List.exists_cons_of_ne_nil
      (Nat.toDigits_ne_nil (n := fixedUnits d x / 10 ^ d) (b := 10))
    have hdigit : c.isDigit = true :=
      isDigit_toDigits (n := fixedUnits d x / 10 ^ d) (by simp [hcs])
    have hsign : c ≠ '-' := by
      rintro rfl
      exact absurd hdigit (by decide)
    simp only [if_neg hx, List.nil_append, one_mul]
    rw [← hunsigned, hcs, List.cons_append]
    unfold decimalValue
    split
    · next h => exact absurd (List.cons.inj h).1 hsign
    · rfl

/-- The number of units, as a number. -/
lemma fixedUnits_cast (d : ℕ) (x : ℚ) : (fixedUnits d x : ℚ) = roundHalfEven (|x| * 10 ^ d) := by
  have hnonneg : 0 ≤ roundHalfEven (|x| * 10 ^ d) := roundHalfEven_nonneg (by positivity)
  rw [fixedUnits]
  exact_mod_cast Int.toNat_of_nonneg hnonneg

/-- **Precision.** Rounding to `d` decimals is off by at most half a unit of the last one. -/
theorem abs_fixedValue_sub_le (d : ℕ) (x : ℚ) : |fixedValue d x - x| ≤ 1 / (2 * 10 ^ d) := by
  have hpow : (0 : ℚ) < 10 ^ d := by positivity
  have hround := abs_roundHalfEven_sub_le (|x| * 10 ^ d)
  have habs : |(fixedUnits d x / 10 ^ d : ℚ) - abs x| ≤ 1 / (2 * 10 ^ d) := by
    rw [fixedUnits_cast]
    have hscale : (roundHalfEven (|x| * 10 ^ d) / 10 ^ d : ℚ) - |x| =
        (roundHalfEven (|x| * 10 ^ d) - |x| * 10 ^ d) / 10 ^ d := by
      field_simp
    rw [hscale, abs_div, abs_of_pos hpow, div_le_div_iff₀ hpow (by positivity)]
    nlinarith
  unfold fixedValue
  by_cases hx : x < 0
  · rw [if_pos hx, ← abs_neg]
    rw [abs_of_neg hx] at habs
    convert habs using 2
    ring
  · rw [if_neg hx, one_mul]
    rwa [abs_of_nonneg (not_lt.mp hx)] at habs

/-- Rounding to `d` decimals keeps the order. -/
theorem fixedValue_mono (d : ℕ) : Monotone (fixedValue d) := by
  intro x y hxy
  have hpow : (0 : ℚ) < 10 ^ d := by positivity
  unfold fixedValue
  rw [fixedUnits_cast, fixedUnits_cast]
  have hnonneg : ∀ z : ℚ, (0 : ℚ) ≤ roundHalfEven (|z| * 10 ^ d) / 10 ^ d := fun z =>
    div_nonneg (by exact_mod_cast roundHalfEven_nonneg (by positivity)) hpow.le
  have hunits : ∀ {z w : ℚ}, |z| ≤ |w| →
      (roundHalfEven (|z| * 10 ^ d) / 10 ^ d : ℚ) ≤ roundHalfEven (|w| * 10 ^ d) / 10 ^ d :=
    fun h => div_le_div_of_nonneg_right (Int.cast_le.mpr (roundHalfEven_mono
      (mul_le_mul_of_nonneg_right h hpow.le))) hpow.le
  by_cases hx : x < 0
  · by_cases hy : y < 0
    · have h := hunits (z := y) (w := x) (by rw [abs_of_neg hx, abs_of_neg hy]; linarith)
      rw [if_pos hx, if_pos hy]
      linarith
    · have h₁ := hnonneg x
      have h₂ := hnonneg y
      rw [if_pos hx, if_neg hy]
      linarith
  · have hy : ¬y < 0 := by linarith
    have h := hunits (z := x) (w := y) (by
      rw [abs_of_nonneg (not_lt.mp hx), abs_of_nonneg (not_lt.mp hy)]
      exact hxy)
    rw [if_neg hx, if_neg hy]
    linarith

example : fixedText 6 (-1 / 8) = "-0.125000".toList := by decide +kernel
