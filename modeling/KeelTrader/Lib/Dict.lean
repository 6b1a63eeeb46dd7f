import Mathlib.Data.List.Basic
import Mathlib.Data.List.Nodup
import Mathlib.Tactic

set_option relaxedAutoImplicit false
set_option autoImplicit false

/-!
# Insertion-ordered dictionaries

A finite map that also remembers the order in which its keys were first written. Overwriting a
key keeps its place, deleting it forgets the place, and writing a new key appends it, so that a
loop over the keys visits them in a well-defined order.

## Main definitions

* `Dict K V` — a list of entries whose keys are distinct.
* `Dict.get?`, `Dict.set`, `Dict.erase`, `Dict.filter`, `Dict.keys`, `Dict.ofList` — its
  operations.

## Main results

* `Dict.get?_eq_some_iff` — lookup is membership of the entry.
* `Dict.get?_set`, `Dict.get?_erase`, `Dict.get?_filter` — what a lookup sees after each write.
-/

/-- A dictionary: entries in insertion order, with distinct keys. -/
@[ext]
structure Dict (K V : Type) where
  /-- The entries, oldest first. -/
  entries : List (K × V)
  /-- No key occurs twice. -/
  nodup : (entries.map Prod.fst).Nodup
  deriving DecidableEq

namespace Dict

variable {K V : Type}

/-- The keys, in insertion order. -/
def keys (d : Dict K V) : List K := d.entries.map Prod.fst

/-- The empty dictionary. -/
def empty : Dict K V := ⟨[], List.nodup_nil⟩

instance : Inhabited (Dict K V) := ⟨empty⟩

/-- The entries that satisfy `p`, in their old order. -/
def filter (p : K → V → Bool) (d : Dict K V) : Dict K V where
  entries := d.entries.filter fun e => p e.1 e.2
  nodup := d.nodup.sublist (List.filter_sublist.map Prod.fst)

lemma mem_entries_filter {p : K → V → Bool} {d : Dict K V} {e : K × V} :
    e ∈ (d.filter p).entries ↔ e ∈ d.entries ∧ p e.1 e.2 = true := by
  simp [filter]

variable [DecidableEq K]

/-- The value stored under a key. -/
def get? (d : Dict K V) (k : K) : Option V := d.entries.lookup k

/-- Overwrite the value of a key that is present. -/
def overwrite (k : K) (v : V) (es : List (K × V)) : List (K × V) :=
  es.map fun e => if e.1 = k then (k, v) else e

/-- Overwriting changes no key. -/
lemma map_fst_overwrite (k : K) (v : V) (es : List (K × V)) :
    (overwrite k v es).map Prod.fst = es.map Prod.fst := by
  simp only [overwrite, List.map_map]
  refine List.map_congr_left fun e _ => ?_
  by_cases h : e.1 = k <;> simp [h]

/-- Write a value: a key that is present keeps its place, a new one goes last. -/
def set (d : Dict K V) (k : K) (v : V) : Dict K V :=
  if h : k ∈ d.keys then ⟨overwrite k v d.entries, by rw [map_fst_overwrite]; exact d.nodup⟩
  else ⟨d.entries ++ [(k, v)], by
    rw [List.map_append]
    exact d.nodup.append (List.nodup_singleton k) (List.disjoint_singleton.mpr h)⟩

/-- Delete a key. -/
def erase (d : Dict K V) (k : K) : Dict K V := d.filter fun k' _ => decide (k' ≠ k)

/-! ## Lookup -/

@[simp] lemma get?_empty (k : K) : (empty : Dict K V).get? k = none := rfl

/-- Lookup is membership of the entry. -/
theorem get?_eq_some_iff {d : Dict K V} {k : K} {v : V} :
    d.get? k = some v ↔ (k, v) ∈ d.entries := by
  obtain ⟨es, hd⟩ := d
  simp only [get?]
  induction es with
  | nil => simp
  | cons e es ih =>
    obtain ⟨hnotMem, hnodup⟩ := List.nodup_cons.mp hd
    rw [List.lookup_cons]
    by_cases h : k = e.1
    · subst h
      have hrest : (e.1, v) ∉ es := fun hmem => hnotMem (List.mem_map.mpr ⟨_, hmem, rfl⟩)
      simp [hrest, Prod.ext_iff, eq_comm]
    · have hkey : (k == e.1) = false := beq_eq_false_iff_ne.mpr h
      have hhead : (k, v) ≠ e := fun he => h (by rw [← he])
      simp [hkey, ih hnodup, hhead]

/-- A key is present exactly when a lookup finds it. -/
lemma mem_keys_iff {d : Dict K V} {k : K} : k ∈ d.keys ↔ ∃ v, d.get? k = some v := by
  simp [keys, get?_eq_some_iff]

/-- The entries found after a write. -/
lemma mem_entries_set {d : Dict K V} {k k' : K} {v v' : V} :
    (k', v') ∈ (d.set k v).entries ↔ k' = k ∧ v' = v ∨ k' ≠ k ∧ (k', v') ∈ d.entries := by
  unfold set
  split
  · next h =>
    simp only [overwrite, List.mem_map, Prod.exists]
    constructor
    · rintro ⟨a, b, hmem, heq⟩
      by_cases ha : a = k
      · rw [if_pos ha, Prod.mk.injEq] at heq
        exact Or.inl ⟨heq.1.symm, heq.2.symm⟩
      · rw [if_neg ha, Prod.mk.injEq] at heq
        obtain ⟨rfl, rfl⟩ := heq
        exact Or.inr ⟨ha, hmem⟩
    · rintro (⟨rfl, rfl⟩ | ⟨hne, hmem⟩)
      · obtain ⟨⟨a, b⟩, hmem, ha⟩ := List.mem_map.mp h
        exact ⟨a, b, hmem, if_pos ha⟩
      · exact ⟨k', v', hmem, if_neg hne⟩
  · next h =>
    have hne : (k', v') ∈ d.entries → k' ≠ k := by
      rintro hmem rfl
      exact h (List.mem_map_of_mem hmem)
    simp only [List.mem_append, List.mem_singleton, Prod.mk.injEq]
    tauto

/-- **Write.** A lookup after a write sees the new value under its key, and the old values
elsewhere. -/
theorem get?_set (d : Dict K V) (k : K) (v : V) (k' : K) :
    (d.set k v).get? k' = if k' = k then some v else d.get? k' := by
  refine Option.ext fun v' => ?_
  rw [get?_eq_some_iff, mem_entries_set]
  by_cases h : k' = k
  · simp [h, eq_comm]
  · simp [h, get?_eq_some_iff]

/-- **Filter.** A lookup after a filter sees the old value, if it was kept. -/
theorem get?_filter (p : K → V → Bool) (d : Dict K V) (k : K) :
    (d.filter p).get? k = (d.get? k).filter (p k) := by
  refine Option.ext fun v => ?_
  rw [get?_eq_some_iff, mem_entries_filter, Option.filter_eq_some_iff, get?_eq_some_iff]

/-- **Delete.** A lookup after a deletion sees the old values under the other keys. -/
theorem get?_erase (d : Dict K V) (k k' : K) :
    (d.erase k).get? k' = if k' = k then none else d.get? k' := by
  rw [erase, get?_filter]
  by_cases h : k' = k
  · simp [h]
  · cases d.get? k' <;> simp [h, Option.filter]

lemma entries_erase (d : Dict K V) (k : K) :
    (d.erase k).entries = d.entries.filter fun e => decide (e.1 ≠ k) := rfl

/-- A new key goes last. -/
lemma entries_set_of_notMem {d : Dict K V} {k : K} (h : k ∉ d.keys) (v : V) :
    (d.set k v).entries = d.entries ++ [(k, v)] := by
  rw [set, dif_neg h]

/-- A key is present after a write when it was before, or is the one written. -/
lemma mem_keys_set {d : Dict K V} {k k' : K} {v : V} :
    k' ∈ (d.set k v).keys ↔ k' = k ∨ k' ∈ d.keys := by
  simp only [mem_keys_iff, get?_set]
  by_cases h : k' = k <;> simp [h]

/-- A key is present after a deletion when it was before, and is not the one deleted. -/
lemma mem_keys_erase {d : Dict K V} {k k' : K} :
    k' ∈ (d.erase k).keys ↔ k' ≠ k ∧ k' ∈ d.keys := by
  simp only [mem_keys_iff, get?_erase]
  by_cases h : k' = k <;> simp [h]

/-! ## Several writes -/

/-- New keys go last, in the order of their writes. -/
theorem entries_foldl_set {es : List (K × V)} (hnodup : (es.map Prod.fst).Nodup) {d : Dict K V}
    (hnew : ∀ e ∈ es, e.1 ∉ d.keys) :
    (es.foldl (fun d e => d.set e.1 e.2) d).entries = d.entries ++ es := by
  induction es generalizing d with
  | nil => simp
  | cons e es ih =>
    obtain ⟨hnotMem, hrest⟩ := List.nodup_cons.mp hnodup
    rw [List.foldl_cons, ih hrest, entries_set_of_notMem (hnew e List.mem_cons_self)]
    · simp
    · intro e' he'
      rw [mem_keys_set, not_or]
      refine ⟨fun heq => hnotMem ?_, hnew e' (List.mem_cons_of_mem e he')⟩
      exact heq ▸ List.mem_map_of_mem he'

/-- The dictionary of some entries, written one after another. -/
def ofList (es : List (K × V)) : Dict K V := es.foldl (fun d e => d.set e.1 e.2) empty

/-- Write a value under those of some keys that are not there yet. -/
def setMissing (v : V) (ks : List K) (d : Dict K V) : Dict K V :=
  ks.foldl (fun d k => if k ∈ d.keys then d else d.set k v) d

/-- What is there is kept. -/
lemma get?_setMissing {v v' : V} {ks : List K} {d : Dict K V} {k : K} (h : d.get? k = some v') :
    (d.setMissing v ks).get? k = some v' := by
  unfold setMissing
  induction ks generalizing d with
  | nil => exact h
  | cons k' ks ih =>
    rw [List.foldl_cons]
    by_cases hkey : k' ∈ d.keys
    · rw [if_pos hkey]
      exact ih h
    · have hne : k ≠ k' := by
        rintro rfl
        exact hkey (mem_keys_iff.mpr ⟨v', h⟩)
      rw [if_neg hkey]
      refine ih ?_
      rw [get?_set, if_neg hne]
      exact h

/-- Writes to other keys. -/
lemma get?_foldl_set_of_notMem {es : List (K × V)} {k : K} (h : k ∉ es.map Prod.fst)
    (d : Dict K V) : (es.foldl (fun d e => d.set e.1 e.2) d).get? k = d.get? k := by
  induction es generalizing d with
  | nil => rfl
  | cons e es ih =>
    rw [List.map_cons, List.mem_cons, not_or] at h
    rw [List.foldl_cons, ih h.2, get?_set, if_neg h.1]

/-- A write to the key, among writes to distinct keys. -/
lemma get?_foldl_set_of_mem {es : List (K × V)} (hnodup : (es.map Prod.fst).Nodup) {k : K} {v : V}
    (h : (k, v) ∈ es) (d : Dict K V) :
    (es.foldl (fun d e => d.set e.1 e.2) d).get? k = some v := by
  induction es generalizing d with
  | nil => cases h
  | cons e es ih =>
    obtain ⟨hnotMem, hrest⟩ := List.nodup_cons.mp hnodup
    rw [List.foldl_cons]
    rcases List.mem_cons.mp h with rfl | hmem
    · rw [get?_foldl_set_of_notMem hnotMem, get?_set, if_pos rfl]
    · exact ih hrest hmem _

/-- Write the entries of another dictionary. -/
def update (d d' : Dict K V) : Dict K V := d'.entries.foldl (fun d e => d.set e.1 e.2) d

/-- **Update.** The entries of the other dictionary win. -/
theorem get?_update (d d' : Dict K V) (k : K) :
    (d.update d').get? k = (d'.get? k <|> d.get? k) := by
  unfold update
  cases hget : d'.get? k with
  | some v => exact get?_foldl_set_of_mem d'.nodup (get?_eq_some_iff.mp hget) d
  | none =>
    refine get?_foldl_set_of_notMem (fun hmem => ?_) d
    obtain ⟨v, hv⟩ := mem_keys_iff.mp hmem
    rw [hget] at hv
    cases hv

/-- Write a value, if there is one. -/
def setSome (d : Dict K V) (k : K) : Option V → Dict K V
  | none => d
  | some v => d.set k v

lemma get?_setSome (d : Dict K V) (k : K) (v : Option V) (k' : K) :
    (d.setSome k v).get? k' = if k' = k then v <|> d.get? k' else d.get? k' := by
  cases v with
  | none => simp [setSome]
  | some v => simp [setSome, get?_set]

/-- **Optional writes.** When all the writes to a key write the same value, or all of them write
nothing, a lookup sees it. -/
theorem get?_foldl_setSome {τ : Type} (key : τ → K) (val : τ → Option V) {k : K} {v : Option V}
    {ts : List τ} (hval : ∀ t ∈ ts, key t = k → val t = v) {d : Dict K V}
    (hd : d.get? k = v ∨ d.get? k = none ∧ ∃ t ∈ ts, key t = k) :
    (ts.foldl (fun d t => d.setSome (key t) (val t)) d).get? k = v := by
  induction ts generalizing d with
  | nil =>
    rcases hd with h | ⟨-, t, ht, -⟩
    · exact h
    · cases ht
  | cons t ts ih =>
    rw [List.foldl_cons]
    refine ih (fun t' ht' => hval t' (List.mem_cons_of_mem t ht')) ?_
    rw [get?_setSome]
    by_cases hkey : k = key t
    · left
      rw [if_pos hkey, hval t List.mem_cons_self hkey.symm]
      rcases hd with h | ⟨h, -⟩ <;> rw [h] <;> cases v <;> rfl
    · rw [if_neg hkey]
      refine hd.imp_right fun ⟨hnone, t', ht', hkey'⟩ => ⟨hnone, t', ?_, hkey'⟩
      rcases List.mem_cons.mp ht' with rfl | hmem
      · exact absurd hkey'.symm hkey
      · exact hmem

/-- **Entries.** The dictionary of entries with distinct keys has each of them. -/
theorem get?_ofList {es : List (K × V)} (hnodup : (es.map Prod.fst).Nodup) {k : K} {v : V}
    (h : (k, v) ∈ es) : (ofList es).get? k = some v :=
  get?_foldl_set_of_mem hnodup h empty

/-- The keys of entries with distinct keys. -/
lemma keys_ofList {es : List (K × V)} (hnodup : (es.map Prod.fst).Nodup) :
    (ofList es).keys = es.map Prod.fst := by
  unfold keys ofList
  rw [entries_foldl_set hnodup fun _ _ => List.not_mem_nil]
  rfl

/-- The dictionary of a function on some keys. -/
lemma get?_ofList_map {ks : List K} (hnodup : ks.Nodup) (f : K → V) (k : K) :
    (ofList (ks.map fun k => (k, f k))).get? k = if k ∈ ks then some (f k) else none := by
  have hkeys : ((ks.map fun k => (k, f k)).map Prod.fst) = ks := by
    rw [List.map_map]
    exact List.map_id ks
  by_cases hmem : k ∈ ks
  · rw [if_pos hmem]
    exact get?_ofList (by rwa [hkeys]) (List.mem_map.mpr ⟨k, hmem, rfl⟩)
  · rw [if_neg hmem]
    exact get?_foldl_set_of_notMem (by rwa [hkeys]) empty

end Dict
