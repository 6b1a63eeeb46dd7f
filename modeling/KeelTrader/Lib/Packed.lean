import Mathlib.Tactic

set_option relaxedAutoImplicit false
set_option autoImplicit false

/-!
# Packed binary data

Fields of a fixed width are laid out one after the other in a sequence of bytes. A reader that
knows the widths finds each field again by its offset, and a reader of an array of equal fields
finds the entry at an index by multiplying.

## Main definitions

* `Packed.toLE`, `Packed.ofLE` — little-endian numbers of a fixed width.
* `Packed.slice` — the bytes at an offset.
* `Packed.Codec` — values as records of one width; `Codec.encodeAll`, `Codec.decodeAll` — arrays
  of them.
* `Packed.Shaped` — nested lists that are rectangular in three dimensions.

## Main results

* `Packed.ofLE_toLE` — the round trip of a number that fits.
* `Packed.Codec.decodeAll_encodeAll`, `Packed.Codec.slice_encodeAll` — reading an array in order,
  and at an index.
* `Packed.Shaped.getElem?_flatten` — the row-major index of an entry.
-/

namespace Packed

variable {α β : Type}

/-! ## Little-endian numbers -/

/-- The `width` low bytes of `n`, the lowest first. -/
def toLE : ℕ → ℕ → List UInt8
  | 0, _ => []
  | width + 1, n => UInt8.ofNat n :: toLE width (n / 256)

/-- The number that little-endian bytes stand for. -/
def ofLE : List UInt8 → ℕ
  | [] => 0
  | b :: bs => b.toNat + 256 * ofLE bs

@[simp] lemma length_toLE (width n : ℕ) : (toLE width n).length = width := by
  induction width generalizing n with
  | zero => rfl
  | succ width ih => simp [toLE, ih]

/-- A number that fits in `width` bytes is read back. -/
theorem ofLE_toLE {width n : ℕ} (h : n < 256 ^ width) : ofLE (toLE width n) = n := by
  induction width generalizing n with
  | zero =>
    have hn : n = 0 := by simpa using h
    rw [hn]
    rfl
  | succ width ih =>
    have hdiv : n / 256 < 256 ^ width := by
      rw [pow_succ] at h
      exact Nat.div_lt_of_lt_mul (by linarith)
    simp only [toLE, ofLE, ih hdiv, UInt8.toNat_ofNat']
    omega

/-- A number that is read fits in the bytes it is read from. -/
theorem ofLE_lt (bs : List UInt8) : ofLE bs < 256 ^ bs.length := by
  induction bs with
  | nil => simp [ofLE]
  | cons b bs ih =>
    have hb := b.toNat_lt
    rw [ofLE, List.length_cons, pow_succ]
    omega

/-! ## Slices -/

/-- The `count` entries of `l` from `offset` on, or as many of them as there are. -/
def slice (offset count : ℕ) (l : List α) : List α := (l.drop offset).take count

lemma length_slice_le (offset count : ℕ) (l : List α) : (slice offset count l).length ≤ count :=
  List.length_take_le _ _

/-- A field that is preceded by `before`. -/
lemma slice_append (before field after : List α) :
    slice before.length field.length (before ++ (field ++ after)) = field := by
  simp [slice]

/-- A slice that lies in what follows `before`. -/
lemma slice_append_right (before rest : List α) (offset count : ℕ) :
    slice (before.length + offset) count (before ++ rest) = slice offset count rest := by
  unfold slice
  rw [List.drop_append, List.drop_of_length_le (Nat.le_add_right _ _), List.nil_append,
    Nat.add_sub_cancel_left]

/-- A slice that lies in `front`. -/
lemma slice_append_left {front : List α} {offset count : ℕ} (h : offset + count ≤ front.length)
    (rest : List α) : slice offset count (front ++ rest) = slice offset count front := by
  unfold slice
  rw [List.drop_append_of_le_length (by omega), List.take_append_of_le_length]
  rw [List.length_drop]
  omega

/-! ## Records of one width -/

section Width

variable {f : α → List β} {width : ℕ} {l : List α}

lemma length_flatMap_width (h : ∀ a ∈ l, (f a).length = width) :
    (l.flatMap f).length = l.length * width := by
  induction l with
  | nil => simp
  | cons a l ih =>
    rw [List.flatMap_cons, List.length_append, h a List.mem_cons_self,
      ih fun b hb => h b (List.mem_cons_of_mem _ hb), List.length_cons]
    ring

/-- The record at an index. -/
theorem slice_flatMap (h : ∀ a ∈ l, (f a).length = width) {i : ℕ} (hi : i < l.length) :
    slice (i * width) width (l.flatMap f) = f l[i] := by
  have hsplit : l.flatMap f =
      (l.take i).flatMap f ++ (f l[i] ++ (l.drop (i + 1)).flatMap f) := by
    conv_lhs => rw [← List.take_append_drop i l, List.drop_eq_getElem_cons hi]
    rw [List.flatMap_append, List.flatMap_cons]
  have hbefore : ((l.take i).flatMap f).length = i * width := by
    rw [length_flatMap_width fun a ha => h a (List.mem_of_mem_take ha), List.length_take,
      Nat.min_eq_left hi.le]
  rw [hsplit, ← hbefore, ← h l[i] (List.getElem_mem hi)]
  exact slice_append _ _ _

end Width

/-- Values that are written as records of `width` bytes. -/
structure Codec (α : Type) where
  width : ℕ
  encode : α → List UInt8
  decode : List UInt8 → α
  length_encode : ∀ a, (encode a).length = width
  decode_encode : ∀ a, decode (encode a) = a

namespace Codec

variable (c : Codec α)

/-- The records of an array. -/
def encodeAll (l : List α) : List UInt8 := l.flatMap c.encode

/-- The values of `n` records. -/
def decodeAll : ℕ → List UInt8 → List α
  | 0, _ => []
  | n + 1, bs => c.decode (bs.take c.width) :: decodeAll n (bs.drop c.width)

@[simp] lemma length_encodeAll (l : List α) : (c.encodeAll l).length = l.length * c.width :=
  length_flatMap_width fun a _ => c.length_encode a

lemma encodeAll_append (l l' : List α) : c.encodeAll (l ++ l') = c.encodeAll l ++ c.encodeAll l' :=
  List.flatMap_append

/-- Writing array after array writes their concatenation. -/
lemma encodeAll_flatten (ls : List (List α)) :
    c.encodeAll ls.flatten = (ls.map c.encodeAll).flatten := by
  induction ls with
  | nil => rfl
  | cons l ls ih => rw [List.flatten_cons, encodeAll_append, ih, List.map_cons, List.flatten_cons]

/-- An array is read back in order. -/
theorem decodeAll_encodeAll (l : List α) : c.decodeAll l.length (c.encodeAll l) = l := by
  induction l with
  | nil => rfl
  | cons a l ih =>
    have hlen := c.length_encode a
    simp only [encodeAll, List.flatMap_cons, List.length_cons, decodeAll]
    rw [← hlen, List.take_left, List.drop_left, c.decode_encode, ← encodeAll, ih]

/-- The record at an index. -/
theorem slice_encodeAll (l : List α) {i : ℕ} (h : i < l.length) :
    slice (i * c.width) c.width (c.encodeAll l) = c.encode l[i] :=
  slice_flatMap (fun a _ => c.length_encode a) h

end Codec

/-! ## Row-major order -/

/-- Rows of one length. -/
def Rows (n : ℕ) (rows : List (List α)) : Prop := ∀ row ∈ rows, row.length = n

instance (n : ℕ) (rows : List (List α)) : Decidable (Rows n rows) :=
  inferInstanceAs (Decidable (∀ row ∈ rows, row.length = n))

/-- The entries of rows of length `n`, in order. -/
lemma length_flatten_rows {n : ℕ} {rows : List (List α)} (h : Rows n rows) :
    rows.flatten.length = rows.length * n := by
  induction rows with
  | nil => simp
  | cons row rows ih =>
    rw [List.flatten_cons, List.length_append, h row List.mem_cons_self,
      ih fun r hr => h r (List.mem_cons_of_mem _ hr), List.length_cons]
    ring

/-- The entry `j` of the row `i`. -/
lemma getElem?_flatten_rows {n : ℕ} {rows : List (List α)} (h : Rows n rows) (i : ℕ) {j : ℕ}
    (hj : j < n) : rows.flatten[i * n + j]? = rows[i]?.bind (·[j]?) := by
  induction rows generalizing i with
  | nil => simp
  | cons row rows ih =>
    have hrow : row.length = n := h row List.mem_cons_self
    cases i with
    | zero =>
      rw [List.flatten_cons, zero_mul, zero_add, List.getElem?_append_left (by omega)]
      rfl
    | succ i =>
      have hskip : (i + 1) * n + j - row.length = i * n + j := by
        rw [hrow, Nat.succ_mul]
        omega
      rw [List.flatten_cons, List.getElem?_append_right (by rw [hrow, Nat.succ_mul]; omega),
        hskip, ih fun r hr => h r (List.mem_cons_of_mem _ hr)]
      rfl

/-- The entry `[t][s][k]` of a nested list. -/
def entry (a : List (List (List α))) (t s k : ℕ) : Option α :=
  a[t]?.bind fun row => row[s]?.bind (·[k]?)

/-- A nested list with `nt` rows of `ns` cells of `per` entries. -/
structure Shaped (nt ns per : ℕ) (a : List (List (List α))) : Prop where
  length : a.length = nt
  rows : Rows ns a
  cells : ∀ row ∈ a, Rows per row

namespace Shaped

variable {nt ns per : ℕ} {a : List (List (List α))}

/-- The cells of all rows have one length. -/
lemma rows_flatten (h : Shaped nt ns per a) : Rows per a.flatten := by
  intro cell hcell
  obtain ⟨row, hrow, hcell⟩ := List.mem_flatten.mp hcell
  exact h.cells row hrow cell hcell

lemma length_flatten (h : Shaped nt ns per a) : a.flatten.flatten.length = nt * ns * per := by
  rw [length_flatten_rows h.rows_flatten, length_flatten_rows h.rows, h.length]

/-- **Row-major order.** The entry `f` of the cell `s` of the row `t`. -/
theorem getElem?_flatten (h : Shaped nt ns per a) (t : ℕ) {s f : ℕ} (hs : s < ns)
    (hf : f < per) :
    a.flatten.flatten[(t * ns + s) * per + f]? = entry a t s f := by
  rw [getElem?_flatten_rows h.rows_flatten _ hf, getElem?_flatten_rows h.rows _ hs,
    Option.bind_assoc]
  rfl

end Shaped

end Packed
