import Mathlib.Data.List.Chain
import Mathlib.Order.Defs.LinearOrder
import Mathlib.Tactic

set_option relaxedAutoImplicit false
set_option autoImplicit false

/-!
# Carrying observations forward

A series that is observed at some times only, read at a list of sample times: where nothing was
observed, a sample repeats the latest observation, marked as a repetition by `fill`. A scan that
remembers its last output computes this, if nothing is observed between two samples and if the
first sample was observed; a scan that starts with no output cannot know of earlier observations.

## Main definitions

* `CarryForward.IsLatest obs t a` — `a` is the latest observation up to `t`.
* `CarryForward.Sampled obs fill t out` — `out` is the sample at `t`.
* `CarryForward.scan` — the scan.
* `CarryForward.Quiet obs` — the samples are ordered, and nothing is observed between a sample and
  the next.

## Main results

* `CarryForward.IsLatest.unique` — there is one latest observation.
* `CarryForward.scan_sampled` — the scan is right after a right start.
* `CarryForward.scan_none_iff` — a scan without a start is right exactly when its first sample was
  observed.
-/

universe u

namespace CarryForward

variable {T : Type} {α : Type u} [LinearOrder T]

/-! ## The latest observation -/

/-- `a` is the latest observation up to the time `t`. -/
def IsLatest (obs : T → Option α) (t : T) (a : α) : Prop :=
  ∃ t' ≤ t, obs t' = some a ∧ ∀ u, t' < u → u ≤ t → obs u = none

variable {obs : T → Option α} {t t' : T} {a b : α}

/-- An observation is the latest one at its own time. -/
lemma IsLatest.of_eq_some (h : obs t = some a) : IsLatest obs t a :=
  ⟨t, le_rfl, h, fun _ hlt hle => absurd hlt (not_lt.mpr hle)⟩

/-- There is one latest observation. -/
theorem IsLatest.unique (ha : IsLatest obs t a) (hb : IsLatest obs t b) : a = b := by
  obtain ⟨u, hu, hua, hafter⟩ := ha
  obtain ⟨v, hv, hvb, hafter'⟩ := hb
  rcases lt_trichotomy u v with hlt | rfl | hlt
  · rw [hafter v hlt hv] at hvb
    cases hvb
  · rw [hua] at hvb
    exact Option.some.inj hvb
  · rw [hafter' u hlt hu] at hua
    cases hua

/-- What is observed is the latest observation. -/
lemma IsLatest.eq_of_eq_some (h : IsLatest obs t a) (hobs : obs t = some b) : a = b :=
  h.unique (.of_eq_some hobs)

/-- The latest observation stays the latest while nothing is observed. -/
lemma IsLatest.mono (h : IsLatest obs t a) (hle : t ≤ t')
    (hnone : ∀ u, t < u → u ≤ t' → obs u = none) : IsLatest obs t' a := by
  obtain ⟨v, hv, hobs, hafter⟩ := h
  refine ⟨v, hv.trans hle, hobs, fun u hlt hu => ?_⟩
  rcases le_or_gt u t with hle | hgt
  · exact hafter u hlt hle
  · exact hnone u hgt hu

/-! ## The scan -/

/-- The sample at the time `t`: the observation, or a repetition of the latest one. -/
def Sampled (obs : T → Option α) (fill : α → α) (t : T) (out : Option α) : Prop :=
  ∃ a, IsLatest obs t a ∧ out = some (if (obs t).isSome then a else fill a)

/-- The scan: an observation, or a repetition of the last output. -/
def scan (obs : T → Option α) (fill : α → α) : Option α → List T → List (Option α)
  | _, [] => []
  | last, t :: ts =>
    match obs t with
    | some a => some a :: scan obs fill (some a) ts
    | none => last.map fill :: scan obs fill (last.map fill) ts

omit [LinearOrder T] in
lemma length_scan (obs : T → Option α) (fill : α → α) :
    ∀ (last : Option α) (ts : List T), (scan obs fill last ts).length = ts.length
  | _, [] => rfl
  | last, t :: ts => by
    cases hobs : obs t <;> simp [scan, hobs, length_scan obs fill _ ts]

/-- The times are ordered, and nothing is observed between one and the next. -/
def Quiet (obs : T → Option α) : List T → Prop :=
  List.IsChain fun t t' => t < t' ∧ ∀ u, t < u → u < t' → obs u = none

/-- The last output stands for the latest observation up to `t`. -/
def Carries (obs : T → Option α) (fill : α → α) (t : T) (last : Option α) : Prop :=
  ∃ a out, last = some out ∧ IsLatest obs t a ∧ fill out = fill a

variable {fill : α → α} {last : Option α} {ts : List T}

/-- A sample carries over to the next one. -/
lemma Sampled.carries (hfill : ∀ a, fill (fill a) = fill a)
    (h : Sampled obs fill t last) : Carries obs fill t last := by
  obtain ⟨a, hlatest, rfl⟩ := h
  refine ⟨a, _, rfl, hlatest, ?_⟩
  split
  · rfl
  · exact hfill a

/-- **Samples.** A scan with the right start is right. -/
theorem scan_sampled (hfill : ∀ a, fill (fill a) = fill a) :
    ∀ {ts : List T} {t : T} {last : Option α}, Quiet obs (t :: ts) → Carries obs fill t last →
      List.Forall₂ (Sampled obs fill) ts (scan obs fill last ts)
  | [], _, _, _, _ => .nil
  | t' :: ts, t, last, hquiet, hcarries => by
    obtain ⟨⟨hlt, hnone⟩, hrest⟩ := List.isChain_cons_cons.mp hquiet
    cases hobs : obs t' with
    | some a =>
      have hsample : Sampled obs fill t' (some a) :=
        ⟨a, .of_eq_some hobs, by rw [hobs]; rfl⟩
      simp only [scan, hobs]
      exact .cons hsample (scan_sampled hfill hrest (hsample.carries hfill))
    | none =>
      obtain ⟨a, out, rfl, hlatest, hout⟩ := hcarries
      have hlatest' : IsLatest obs t' a := by
        refine hlatest.mono hlt.le fun u hu hle => ?_
        rcases hle.lt_or_eq with hlt' | rfl
        · exact hnone u hu hlt'
        · exact hobs
      have hsample : Sampled obs fill t' (some (fill out)) :=
        ⟨a, hlatest', by rw [hobs, hout]; rfl⟩
      simp only [scan, hobs, Option.map_some]
      exact .cons hsample (scan_sampled hfill hrest (hsample.carries hfill))

/-- **Starts.** A scan that starts with no output is right exactly when its first sample was
observed. -/
theorem scan_none_iff (hfill : ∀ a, fill (fill a) = fill a) (hquiet : Quiet obs (t :: ts)) :
    List.Forall₂ (Sampled obs fill) (t :: ts) (scan obs fill none (t :: ts)) ↔
      (obs t).isSome := by
  cases hobs : obs t with
  | some a =>
    have hsample : Sampled obs fill t (some a) := ⟨a, .of_eq_some hobs, by rw [hobs]; rfl⟩
    simp only [scan, hobs, Option.isSome_some, iff_true]
    exact .cons hsample (scan_sampled hfill hquiet (hsample.carries hfill))
  | none =>
    simp only [scan, hobs, Option.isSome_none, Option.map_none, Bool.false_eq_true, iff_false]
    intro h
    obtain ⟨a, -, hout⟩ := (List.forall₂_cons.mp h).1
    cases hout

end CarryForward
