import Mathlib.Data.List.Basic
import Mathlib.Tactic

set_option relaxedAutoImplicit false
set_option autoImplicit false

/-!
# Alternating sequences

Sequences of events in which openings and closings take turns, beginning with an opening, each
closing matching the opening before it. They are what a resource that is opened and closed over
and over leaves in a log. A log grows at its end, so the rules below append.

## Main definitions

* `Alternating Opens Closes Matches l` — `l` is `open, close, open, close, …`.
* `lastOf key k l` — the latest event of `l` whose key is `k`.

## Main results

* `Alternating.concat_open`, `Alternating.concat_close` — the two ways a log may grow.
* `lastOf_concat`, `getLast?_filter_key` — the latest event of a key, as the log grows.
* `forall_split_concat` — what holds of each event and the events before it, as the log grows.
-/

variable {α κ : Type}

/-- Openings and closings take turns, beginning with an opening, and each closing matches the
opening before it. -/
def Alternating (Opens Closes : α → Prop) (Matches : α → α → Prop) : List α → Prop
  | [] => True
  | [a] => Opens a
  | a :: b :: l => Opens a ∧ Closes b ∧ Matches a b ∧ Alternating Opens Closes Matches l

namespace Alternating

variable {Opens Closes : α → Prop} {Matches : α → α → Prop} {l : List α}

/-- An opening may follow when the last event, if any, is a closing. -/
theorem concat_open (h : Alternating Opens Closes Matches l)
    (hlast : ∀ b, l.getLast? = some b → ¬Opens b) {a : α} (ha : Opens a) :
    Alternating Opens Closes Matches (l ++ [a]) := by
  fun_induction Alternating Opens Closes Matches l with
  | case1 => exact ha
  | case2 b => exact absurd h (hlast b rfl)
  | case3 b c l ih =>
    obtain ⟨hb, hc, hbc, hl⟩ := h
    refine ⟨hb, hc, hbc, ih hl fun d hd => hlast d ?_⟩
    rw [List.getLast?_cons_of_ne_nil (by simp), List.getLast?_cons, hd]
    rfl

/-- A closing may follow an opening that it matches. -/
theorem concat_close (h : Alternating Opens Closes Matches l)
    (hdisjoint : ∀ a, Opens a → ¬Closes a) {a b : α} (hlast : l.getLast? = some a)
    (ha : Opens a) (hb : Closes b) (hab : Matches a b) :
    Alternating Opens Closes Matches (l ++ [b]) := by
  fun_induction Alternating Opens Closes Matches l with
  | case1 => cases hlast
  | case2 c =>
    cases hlast
    exact ⟨h, hb, hab, trivial⟩
  | case3 c d l ih =>
    obtain ⟨hc, hd, hcd, hl⟩ := h
    refine ⟨hc, hd, hcd, ih hl ?_⟩
    rw [List.getLast?_cons_of_ne_nil (by simp), List.getLast?_cons] at hlast
    cases hrest : l.getLast? with
    | none =>
      rw [hrest] at hlast
      cases hlast
      exact absurd hd (hdisjoint d ha)
    | some e =>
      rw [hrest] at hlast
      exact hlast

end Alternating

/-! ## An event and the events before it -/

/-- What holds of each event, given the events before it, holds in a longer log when it holds of
the new event. -/
lemma forall_split_concat {R : List α → α → Prop} {l : List α} {a : α}
    (h : ∀ before b after, l = before ++ b :: after → R before b) (ha : R l a) :
    ∀ before b after, l ++ [a] = before ++ b :: after → R before b := by
  intro before b after heq
  rcases List.eq_nil_or_concat after with rfl | ⟨init, last, rfl⟩
  · obtain ⟨rfl, hhead⟩ := List.append_inj' heq rfl
    cases hhead
    exact ha
  · rw [List.concat_eq_append, ← List.cons_append, ← List.append_assoc] at heq
    obtain ⟨rfl, -⟩ := List.append_inj' heq rfl
    exact h before b init rfl

/-! ## The latest event of a key -/

section LastOf

variable [DecidableEq κ] (key : α → κ)

/-- The latest event whose key is `k`. -/
def lastOf (k : κ) (l : List α) : Option α := l.reverse.find? fun a => decide (key a = k)

theorem lastOf_concat (k : κ) (l : List α) (a : α) :
    lastOf key k (l ++ [a]) = if key a = k then some a else lastOf key k l := by
  unfold lastOf
  rw [List.reverse_append, List.reverse_singleton, List.singleton_append, List.find?_cons]
  by_cases h : key a = k <;> simp [h]

/-- Events of other keys. -/
lemma lastOf_append_of_forall_ne {k : κ} (l : List α) {as : List α} (h : ∀ a ∈ as, key a ≠ k) :
    lastOf key k (l ++ as) = lastOf key k l := by
  induction as generalizing l with
  | nil => rw [List.append_nil]
  | cons a as ih =>
    have hrest := ih (l ++ [a]) fun b hb => h b (List.mem_cons_of_mem a hb)
    rw [List.append_assoc, List.singleton_append, lastOf_concat,
      if_neg (h a List.mem_cons_self)] at hrest
    exact hrest

/-- The only event of its key among the newest. -/
lemma lastOf_append_of_mem (l : List α) {as : List α} (hnodup : (as.map key).Nodup) {a : α}
    (h : a ∈ as) : lastOf key (key a) (l ++ as) = some a := by
  induction as generalizing l with
  | nil => cases h
  | cons b as ih =>
    obtain ⟨hnotMem, hrest⟩ := List.nodup_cons.mp hnodup
    rw [show l ++ b :: as = l ++ [b] ++ as by rw [List.append_assoc, List.singleton_append]]
    rcases List.mem_cons.mp h with rfl | hmem
    · have hne : ∀ c ∈ as, key c ≠ key a := fun c hc heq =>
        hnotMem (heq ▸ List.mem_map_of_mem hc)
      rw [lastOf_append_of_forall_ne key _ hne, lastOf_concat, if_pos rfl]
    · exact ih (l ++ [b]) hrest hmem

/-- The last of the events of one key is its latest event. -/
theorem getLast?_filter_key (k : κ) (l : List α) :
    (l.filter fun a => decide (key a = k)).getLast? = lastOf key k l := by
  rw [List.getLast?_eq_head?_reverse, ← List.filter_reverse, List.head?_filter]
  rfl

end LastOf
