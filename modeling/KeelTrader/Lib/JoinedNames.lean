import Mathlib.Data.List.Count
import Mathlib.Data.List.Nodup
import Mathlib.Tactic

set_option relaxedAutoImplicit false
set_option autoImplicit false

/-!
# Names joined from keys and values

A name that is joined from keys and values with a separator. The keys are known and may hold the
separator; the values do not. Then the name determines the values, and what stands before it.

## Main definitions

* `joinParts sep parts` — the keys and values, one part after the other, with separators between.
* `product` — the combinations of one entry from each list.

## Main results

* `joinParts_inj` — the values of known keys are determined.
* `append_joinParts_inj` — so is a prefix that is set off by two separators.
* `nodup_product` — the combinations are distinct.
-/

variable {α β : Type}

/-! ## Parts -/

/-- The keys and values, one part after the other. -/
def joinParts (sep : α) (parts : List (List α × List α)) : List α :=
  [sep].intercalate (parts.map fun part => part.1 ++ part.2)

lemma joinParts_cons_cons (sep : α) (p q : List α × List α) (rest : List (List α × List α)) :
    joinParts sep (p :: q :: rest) = p.1 ++ (p.2 ++ sep :: joinParts sep (q :: rest)) := by
  simp [joinParts, List.intercalate_cons_cons]

lemma joinParts_singleton (sep : α) (p : List α × List α) :
    joinParts sep [p] = p.1 ++ p.2 := by
  simp [joinParts]

/-- The keys determine how often the separator occurs. -/
lemma count_joinParts [DecidableEq α] {sep : α} {parts parts' : List (List α × List α)}
    (hkeys : parts.map Prod.fst = parts'.map Prod.fst) (h : ∀ p ∈ parts, sep ∉ p.2)
    (h' : ∀ p ∈ parts', sep ∉ p.2) :
    (joinParts sep parts).count sep = (joinParts sep parts').count sep := by
  induction parts generalizing parts' with
  | nil =>
    rw [List.map_nil, eq_comm, List.map_eq_nil_iff] at hkeys
    rw [hkeys]
  | cons p parts ih =>
    match parts' with
    | [] => simp at hkeys
    | p' :: parts' =>
      rw [List.map_cons, List.map_cons, List.cons.injEq] at hkeys
      have hp := List.count_eq_zero.mpr (h p List.mem_cons_self)
      have hp' := List.count_eq_zero.mpr (h' p' List.mem_cons_self)
      have hrest := ih hkeys.2 (fun q hq => h q (List.mem_cons_of_mem _ hq))
        (fun q hq => h' q (List.mem_cons_of_mem _ hq))
      match parts, parts' with
      | [], [] => simp [joinParts_singleton, hkeys.1, hp, hp']
      | [], _ :: _ => simp at hkeys
      | _ :: _, [] => simp at hkeys
      | q :: parts, q' :: parts' =>
        simp only [joinParts_cons_cons, List.count_append, List.count_cons_self, hkeys.1, hp, hp',
          hrest]

/-- A value ends at the next separator, or at the end. -/
lemma append_inj_of_notMem {sep : α} {v v' t t' : List α} (hv : sep ∉ v) (hv' : sep ∉ v')
    (h : v ++ sep :: t = v' ++ sep :: t') : v = v' ∧ t = t' := by
  rcases List.append_eq_append_iff.mp h with ⟨w, hw, hrest⟩ | ⟨w, hw, hrest⟩
  · cases w with
    | nil =>
      rw [List.append_nil] at hw
      exact ⟨hw.symm, (List.cons.inj hrest).2⟩
    | cons c w =>
      rw [List.cons_append] at hrest
      refine absurd ?_ hv'
      rw [hw, (List.cons.inj hrest).1]
      exact List.mem_append_right _ List.mem_cons_self
  · cases w with
    | nil =>
      rw [List.append_nil] at hw
      exact ⟨hw, (List.cons.inj hrest).2.symm⟩
    | cons c w =>
      rw [List.cons_append] at hrest
      refine absurd ?_ hv
      rw [hw, (List.cons.inj hrest).1]
      exact List.mem_append_right _ List.mem_cons_self

/-- **Values.** They are determined by the name and the keys. -/
theorem joinParts_inj {sep : α} {parts parts' : List (List α × List α)}
    (hkeys : parts.map Prod.fst = parts'.map Prod.fst) (h : ∀ p ∈ parts, sep ∉ p.2)
    (h' : ∀ p ∈ parts', sep ∉ p.2) (hjoin : joinParts sep parts = joinParts sep parts') :
    parts = parts' := by
  induction parts generalizing parts' with
  | nil =>
    rw [List.map_nil, eq_comm, List.map_eq_nil_iff] at hkeys
    exact hkeys.symm
  | cons p parts ih =>
    match parts' with
    | [] => simp at hkeys
    | p' :: parts' =>
      rw [List.map_cons, List.map_cons, List.cons.injEq] at hkeys
      have hp := h p List.mem_cons_self
      have hp' := h' p' List.mem_cons_self
      match parts, parts' with
      | [], [] =>
        rw [joinParts_singleton, joinParts_singleton, hkeys.1] at hjoin
        rw [Prod.ext hkeys.1 (List.append_cancel_left hjoin)]
      | [], _ :: _ => simp at hkeys
      | _ :: _, [] => simp at hkeys
      | q :: parts, q' :: parts' =>
        rw [joinParts_cons_cons, joinParts_cons_cons, hkeys.1] at hjoin
        obtain ⟨hvalue, hrest⟩ := append_inj_of_notMem hp hp' (List.append_cancel_left hjoin)
        rw [Prod.ext hkeys.1 hvalue, ih hkeys.2 (fun r hr => h r (List.mem_cons_of_mem _ hr))
          (fun r hr => h' r (List.mem_cons_of_mem _ hr)) hrest]

/-- Of two texts with as many separators, of which each stands after a separator, none is longer
than the other. -/
lemma append_inj_of_count [DecidableEq α] {sep : α} {p p' s s' : List α}
    (hcount : s.count sep = s'.count sep)
    (h : (p ++ [sep]) ++ s = (p' ++ [sep]) ++ s') : p = p' ∧ s = s' := by
  -- what the longer one has in front would end in a separator
  have hnil : ∀ {p p' s s' w : List α}, s.count sep = s'.count sep →
      p' ++ [sep] = (p ++ [sep]) ++ w → s = w ++ s' → w = [] := by
    intro p p' s s' w hcount hw hs
    rcases List.eq_nil_or_concat w with hnil | ⟨init, last, hlast⟩
    · exact hnil
    · rw [hlast, List.concat_eq_append, ← List.append_assoc] at hw
      have hsep : last = sep := (List.cons.inj (List.append_inj_right' hw rfl)).1.symm
      rw [hs, hlast, List.concat_eq_append, hsep, List.count_append, List.count_append] at hcount
      simp only [List.count_singleton_self] at hcount
      omega
  rcases List.append_eq_append_iff.mp h with ⟨w, hw, hs⟩ | ⟨w, hw, hs⟩
  · have hw0 := hnil hcount hw hs
    rw [hw0, List.append_nil] at hw
    rw [hw0, List.nil_append] at hs
    exact ⟨(List.append_cancel_right hw).symm, hs⟩
  · have hw0 := hnil hcount.symm hw hs
    rw [hw0, List.append_nil] at hw
    rw [hw0, List.nil_append] at hs
    exact ⟨List.append_cancel_right hw, hs.symm⟩

/-- **Prefixes.** What stands before the parts, set off by two separators, is determined. -/
theorem append_joinParts_inj [DecidableEq α] {sep : α} {p p' : List α}
    {parts parts' : List (List α × List α)}
    (hkeys : parts.map Prod.fst = parts'.map Prod.fst) (h : ∀ part ∈ parts, sep ∉ part.2)
    (h' : ∀ part ∈ parts', sep ∉ part.2)
    (hjoin : p ++ [sep, sep] ++ joinParts sep parts = p' ++ [sep, sep] ++ joinParts sep parts') :
    p = p' ∧ parts = parts' := by
  have hsplit : ∀ q : List α, q ++ [sep, sep] = (q ++ [sep]) ++ [sep] := fun q => by simp
  rw [hsplit, hsplit] at hjoin
  obtain ⟨hfront, hparts⟩ := append_inj_of_count (count_joinParts hkeys h h') hjoin
  exact ⟨List.append_cancel_right hfront, joinParts_inj hkeys h h' hparts⟩

/-! ## Combinations -/

/-- The combinations of one entry from each list; the last list runs fastest. -/
def product : List (List β) → List (List β)
  | [] => [[]]
  | xs :: rest => xs.flatMap fun x => (product rest).map (x :: ·)

lemma mem_product {lists : List (List β)} {combo : List β} :
    combo ∈ product lists ↔ List.Forall₂ (· ∈ ·) combo lists := by
  induction lists generalizing combo with
  | nil => simp [product]
  | cons xs rest ih =>
    simp only [product, List.mem_flatMap, List.mem_map, ih]
    constructor
    · rintro ⟨x, hx, tail, htail, rfl⟩
      exact .cons hx htail
    · intro h
      cases h with
      | cons hx htail => exact ⟨_, hx, _, htail, rfl⟩

lemma length_product (lists : List (List β)) :
    (product lists).length = (lists.map List.length).prod := by
  induction lists with
  | nil => rfl
  | cons xs rest ih =>
    simp only [product, List.length_flatMap, List.length_map, ih, List.map_const',
      List.sum_replicate, List.map_cons, List.prod_cons, smul_eq_mul]

/-- **Combinations** of lists without duplicates are distinct. -/
theorem nodup_product {lists : List (List β)} (h : ∀ xs ∈ lists, xs.Nodup) :
    (product lists).Nodup := by
  induction lists with
  | nil => exact List.nodup_singleton _
  | cons xs rest ih =>
    have hrest := ih fun ys hys => h ys (List.mem_cons_of_mem _ hys)
    rw [product, List.nodup_flatMap]
    refine ⟨fun x _ => hrest.map (List.cons_injective), ?_⟩
    refine (h xs List.mem_cons_self).imp fun {x y} hxy => ?_
    intro combo hx hy
    obtain ⟨tail, -, rfl⟩ := List.mem_map.mp hx
    obtain ⟨tail', -, heq⟩ := List.mem_map.mp hy
    exact hxy (List.cons.inj heq).1.symm
