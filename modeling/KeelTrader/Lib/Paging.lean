import Mathlib.Data.List.Pairwise
import Mathlib.Data.List.Count
import Mathlib.Algebra.Order.Floor.Ring
import Mathlib.Algebra.Order.Field.Rat
import Mathlib.Tactic

set_option relaxedAutoImplicit false
set_option autoImplicit false

/-!
# Reading by pages

Entries whose keys are at least a gap apart, read from a cursor on in pages of a bounded length.
After a page, the cursor moves one gap past the last key of it, and what is left is what the page
has not read. A cursor that moves by at least two gaps for each page but the last reaches an end
point after half as many pages as there are gaps to it.

## Main definitions

* `Paging.Spaced` — the keys ascend by at least a gap.
* `Paging.page` — the first entries from a cursor on.
* `Paging.between` — the number of entries in a half-open interval of keys.
* `Paging.pagesTo` — half the gaps up to an end point, rounded up.

## Main results

* `Paging.Spaced.filter_past` — what is left after a page.
* `Paging.Spaced.between_page` — the entries up to a key are those of the page and those left.
* `Paging.pagesTo_step` — two gaps are one page less.
-/

namespace Paging

variable {V : Type} {gap cursor stop : ℤ} {n : ℕ} {es : List (ℤ × V)} {last : ℤ × V}

/-- The keys ascend by at least `gap`. -/
def Spaced (gap : ℤ) (es : List (ℤ × V)) : Prop := es.Pairwise fun a b => a.1 + gap ≤ b.1

/-- The entries from a cursor on. -/
def past (cursor : ℤ) (es : List (ℤ × V)) : List (ℤ × V) := es.filter fun e => decide (cursor ≤ e.1)

/-- The first `n` entries from a cursor on. -/
def page (cursor : ℤ) (n : ℕ) (es : List (ℤ × V)) : List (ℤ × V) := (past cursor es).take n

/-- Half the number of gaps from a cursor to `stop`, rounded up. -/
def pagesTo (gap cursor stop : ℤ) : ℕ := ⌈((stop - cursor : ℤ) : ℚ) / (2 * gap)⌉₊

/-- The number of entries from a cursor on and before `stop`. -/
def between (cursor stop : ℤ) (es : List (ℤ × V)) : ℕ :=
  (past cursor es).countP fun e => decide (e.1 < stop)

lemma mem_past {e : ℤ × V} : e ∈ past cursor es ↔ e ∈ es ∧ cursor ≤ e.1 := by
  simp [past]

lemma page_sublist : (page cursor n es).Sublist es :=
  (List.take_sublist n _).trans List.filter_sublist

/-- A later cursor reads from what an earlier one reads. -/
lemma past_past {cursor' : ℤ} (h : cursor ≤ cursor') : past cursor' (past cursor es) =
    past cursor' es := by
  unfold past
  rw [List.filter_filter]
  refine List.filter_congr fun e _ => ?_
  rw [Bool.eq_iff_iff, Bool.and_eq_true, decide_eq_true_iff, decide_eq_true_iff]
  exact ⟨And.left, fun hle => ⟨hle, h.trans hle⟩⟩

/-- The keys are distinct. -/
lemma Spaced.nodup (hgap : 0 < gap) (h : Spaced gap es) : (es.map Prod.fst).Nodup := by
  rw [List.Nodup, List.pairwise_map]
  exact h.imp fun hab => by omega

/-! ## One page -/

section Page

variable (hgap : 0 < gap) (h : Spaced gap es) (hlast : (page cursor n es).getLast? = some last)
include hgap h hlast

/-- The keys of a page run from the cursor to its last key. -/
lemma Spaced.mem_page {e : ℤ × V} (he : e ∈ page cursor n es) : cursor ≤ e.1 ∧ e.1 ≤ last.1 := by
  refine ⟨(mem_past.mp (List.mem_of_mem_take he)).2, ?_⟩
  obtain ⟨init, hinit⟩ := List.getLast?_eq_some_iff.mp hlast
  have hspaced : Spaced gap (page cursor n es) := (h.filter _).sublist (List.take_sublist n _)
  rw [hinit] at he hspaced
  rcases List.mem_append.mp he with hmem | hmem
  · have hbefore := (List.pairwise_append.mp hspaced).2.2 e hmem last (List.mem_singleton_self _)
    omega
  · rw [List.mem_singleton.mp hmem]

/-- **Pages.** What is left after a page is what it has not read. -/
theorem Spaced.filter_past : past (last.1 + gap) es = (past cursor es).drop n := by
  have hmem : last ∈ page cursor n es := List.mem_of_getLast? hlast
  have hcursor := (h.mem_page hgap hlast hmem).1
  have hspaced : Spaced gap (page cursor n es ++ (past cursor es).drop n) := by
    rw [page, List.take_append_drop]
    exact h.filter _
  rw [← past_past (by omega : cursor ≤ last.1 + gap)]
  conv_lhs => rw [← List.take_append_drop n (past cursor es)]
  rw [past, List.filter_append]
  have hread : (page cursor n es).filter (fun e => decide (last.1 + gap ≤ e.1)) = [] := by
    refine List.filter_eq_nil_iff.mpr fun e he => ?_
    have hle := (h.mem_page hgap hlast he).2
    rw [decide_eq_true_iff]
    omega
  have hleft : ((past cursor es).drop n).filter (fun e => decide (last.1 + gap ≤ e.1)) =
      (past cursor es).drop n := by
    refine List.filter_eq_self.mpr fun e he => ?_
    exact decide_eq_true ((List.pairwise_append.mp hspaced).2.2 last hmem e he)
  rw [← page, hread, hleft, List.nil_append]

/-- An entry from the cursor on was read, or is left. -/
lemma Spaced.mem_page_iff {e : ℤ × V} (he : e ∈ es) :
    e ∈ page cursor n es ↔ cursor ≤ e.1 ∧ e.1 < last.1 + gap := by
  constructor
  · intro hmem
    have hrange := h.mem_page hgap hlast hmem
    exact ⟨hrange.1, by omega⟩
  · rintro ⟨hcursor, hlt⟩
    have hmem : e ∈ (past cursor es).take n ++ (past cursor es).drop n := by
      rw [List.take_append_drop]
      exact mem_past.mpr ⟨he, hcursor⟩
    rcases List.mem_append.mp hmem with hread | hleft
    · exact hread
    · rw [← h.filter_past hgap hlast, mem_past] at hleft
      omega

/-- A page that leaves something is full. -/
lemma Spaced.length_page (hleft : past (last.1 + gap) es ≠ []) : (page cursor n es).length = n := by
  rw [h.filter_past hgap hlast, ne_eq, List.drop_eq_nil_iff, not_le] at hleft
  rw [page, List.length_take, min_eq_left hleft.le]

/-- A page of several entries that leaves something ends at least one gap past the cursor. -/
lemma Spaced.page_progress (hn : 2 ≤ n) (hleft : past (last.1 + gap) es ≠ []) :
    cursor + gap ≤ last.1 := by
  have hlength := h.length_page hgap hlast hleft
  have hspaced : Spaced gap (page cursor n es) := (h.filter _).sublist (List.take_sublist n _)
  have hrange := fun e he => h.mem_page hgap hlast (e := e) he
  match hpage : page cursor n es with
  | [] | [_] =>
    rw [hpage] at hlength
    simp only [List.length_nil, List.length_singleton] at hlength
    omega
  | first :: second :: rest =>
    rw [hpage] at hspaced hrange
    have hapart := (List.pairwise_cons.mp hspaced).1 second List.mem_cons_self
    have hfirst := (hrange first List.mem_cons_self).1
    have hsecond := (hrange second (List.mem_cons_of_mem _ List.mem_cons_self)).2
    omega

/-- A key that the page reaches is counted with fewer entries than the page may have. -/
lemma Spaced.between_lt (hstop : stop ≤ last.1) : between cursor stop es < n := by
  have hmem : last ∈ page cursor n es := List.mem_of_getLast? hlast
  have hsplit : between cursor stop es =
      (page cursor n es).countP fun e => decide (e.1 < stop) := by
    unfold between
    conv_lhs => rw [← List.take_append_drop n (past cursor es)]
    rw [List.countP_append, ← page, ← h.filter_past hgap hlast, Nat.add_eq_left]
    refine List.countP_eq_zero.mpr fun e he => ?_
    have hlater := (mem_past.mp he).2
    rw [decide_eq_true_iff]
    omega
  have hle : (page cursor n es).length ≤ n := List.length_take_le _ _
  have hne : (page cursor n es).countP (fun e => decide (e.1 < stop)) ≠
      (page cursor n es).length := by
    intro hall
    have hlt := of_decide_eq_true (List.countP_eq_length.mp hall last hmem)
    omega
  have hcount := List.countP_le_length (p := fun e : ℤ × V => decide (e.1 < stop))
    (l := page cursor n es)
  omega

/-- The entries before a key past the page are those of the page, and those left. -/
lemma Spaced.between_page (hstop : last.1 < stop) :
    between cursor stop es = (page cursor n es).length + between (last.1 + gap) stop es := by
  unfold between
  rw [h.filter_past hgap hlast]
  conv_lhs => rw [← List.take_append_drop n (past cursor es)]
  rw [List.countP_append]
  congr 1
  refine List.countP_eq_length.mpr fun e he => decide_eq_true ?_
  have hle := (h.mem_page hgap hlast he).2
  omega

end Page

/-! ## The number of pages -/

lemma pagesTo_of_le (hgap : 0 < gap) (h : stop ≤ cursor) : pagesTo gap cursor stop = 0 := by
  refine Nat.ceil_eq_zero.mpr (div_nonpos_of_nonpos_of_nonneg ?_ ?_)
  · exact_mod_cast (by omega : stop - cursor ≤ 0)
  · exact_mod_cast (by omega : 0 ≤ 2 * gap)

lemma pagesTo_pos (hgap : 0 < gap) (h : cursor < stop) : 1 ≤ pagesTo gap cursor stop := by
  refine Nat.ceil_pos.mpr (div_pos ?_ ?_)
  · exact_mod_cast (by omega : 0 < stop - cursor)
  · exact_mod_cast (by omega : 0 < 2 * gap)

/-- As an integer that is rounded up. -/
lemma pagesTo_le (gap cursor stop : ℤ) :
    (pagesTo gap cursor stop : ℤ) ≤ max 1 ⌈((stop - cursor : ℤ) : ℚ) / (2 * gap)⌉ := by
  unfold pagesTo
  rcases le_or_gt 0 (((stop - cursor : ℤ) : ℚ) / (2 * gap)) with hpos | hneg
  · rw [Int.natCast_ceil_eq_ceil hpos]
    exact le_max_right _ _
  · rw [Nat.ceil_eq_zero.mpr hneg.le]
    exact zero_le_one.trans (le_max_left _ _)

/-- **Progress.** Two gaps are one page less. -/
theorem pagesTo_step {cursor' : ℤ} (hgap : 0 < gap) (h : cursor < stop)
    (hstep : cursor + 2 * gap ≤ cursor') :
    1 + pagesTo gap cursor' stop ≤ pagesTo gap cursor stop := by
  rcases le_or_gt stop cursor' with hend | hmore
  · rw [pagesTo_of_le hgap hend]
    exact pagesTo_pos hgap h
  have hgap' : (0 : ℚ) < 2 * gap := by exact_mod_cast (by omega : 0 < 2 * gap)
  have hleft : 0 ≤ ((stop - cursor' : ℤ) : ℚ) / (2 * gap) := by
    refine div_nonneg ?_ hgap'.le
    exact_mod_cast (by omega : 0 ≤ stop - cursor')
  rw [add_comm, pagesTo, pagesTo, ← Nat.ceil_add_one hleft]
  refine Nat.ceil_le_ceil ?_
  rw [← div_self hgap'.ne', ← add_div]
  refine div_le_div_of_nonneg_right ?_ hgap'.le
  exact_mod_cast (by omega : stop - cursor' + 2 * gap ≤ stop - cursor)

end Paging
