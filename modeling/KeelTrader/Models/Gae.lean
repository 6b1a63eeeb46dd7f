import KeelTrader.Lib.BackwardSum

set_option relaxedAutoImplicit false
set_option autoImplicit false

/-!
# Generalized advantage estimation

`compute_gae` of `models/rl/policy.py` walks backwards over a rollout and carries the last
advantage. A done masks both the value of the next observation and the advantage that is carried, so
that an advantage is a sum over the rest of its episode only.

## Main definitions

* `KeelTrader.Models.computeGae` — the advantages and the returns.
* `KeelTrader.Models.Rollout` — what is recorded of the steps of a rollout.
* `KeelTrader.Models.Rollout.delta` — the temporal-difference errors.
* `KeelTrader.Models.Rollout.SameEpisode` — no done between two steps.

## Main results

* `KeelTrader.Models.computeGae_eq` — the loop computes a backward sum.
* `KeelTrader.Models.computeGae_closedForm` — the advantages in closed form, what they depend on,
  and the returns for `lam = 1`.

## Implementation notes

The arithmetic is that of a commutative ring. A read past the end of a list raises, which is `none`
here.
-/

namespace KeelTrader.Models

open Finset BackwardSum

variable {R : Type} [CommRing R]

/-! ## The loop -/

/-- `values[t + 1] if t + 1 < len(values) else 0.0`. -/
def nextValue (values : List R) (t : ℕ) : Option R :=
  if t + 1 < values.length then values[t + 1]? else some 0

/-- One round of the loop of `compute_gae`: the advantages so far, and the last one. -/
def gaeRound (rewards values dones : List R) (gamma lam : R) (s : List R × R) (t : ℕ) :
    Option (List R × R) := do
  let nextVal ← nextValue values t
  let nonterminal := 1 - (← dones[t]?)
  let delta := (← rewards[t]?) + gamma * nextVal * nonterminal - (← values[t]?)
  let last := delta + gamma * lam * nonterminal * s.2
  pure (s.1.set t last, last)

/-- `compute_gae`. -/
def computeGae (rewards values dones : List R) (gamma lam : R) : Option (List R × List R) := do
  let s ← (List.range rewards.length).reverse.foldlM (gaeRound rewards values dones gamma lam)
    (List.replicate rewards.length 0, 0)
  let returns ← (List.range rewards.length).mapM fun t => do pure ((← s.1[t]?) + (← values[t]?))
  pure (s.1, returns)

/-! ## Rollouts -/

/-- What is recorded of the steps of a rollout. -/
structure Rollout (R : Type) [CommRing R] where
  rewards : List R
  values : List R
  dones : List R
  /-- There is a value for each reward. -/
  length_values : values.length = rewards.length
  /-- There is a flag for each reward. -/
  length_dones : dones.length = rewards.length
  /-- A flag is `0.0` or `1.0`. -/
  flag : ∀ d ∈ dones, d = 0 ∨ d = 1

namespace Rollout

variable (b : Rollout R) (gamma lam : R)

/-- The reward of a step. -/
def reward (i : ℕ) : R := b.rewards.getD i 0

/-- The value of the observation before a step, zero past the end. -/
def value (i : ℕ) : R := b.values.getD i 0

/-- The flag of a step. -/
def done (i : ℕ) : R := b.dones.getD i 0

/-- `delta`, the temporal-difference error of a step. -/
def delta (i : ℕ) : R := b.reward i + gamma * b.value (i + 1) * (1 - b.done i) - b.value i

/-- No episode ends at the `k` steps from `t` on. -/
def SameEpisode (t k : ℕ) : Prop := ∀ j < k, b.done (t + j) = 0

instance [DecidableEq R] (t k : ℕ) : Decidable (b.SameEpisode t k) :=
  inferInstanceAs (Decidable (∀ j < k, _))

/-- The advantage of a step, as a backward sum. -/
def advantage (t : ℕ) : R :=
  tail (b.delta gamma) (fun i => gamma * lam * (1 - b.done i)) (b.rewards.length - t) t

end Rollout

/-! ## The loop as a backward sum -/

/-- A comprehension whose reads succeed. -/
lemma mapM_eq_some {α β : Type} {f : α → Option β} {g : α → β} {l : List α}
    (h : ∀ a ∈ l, f a = some (g a)) : l.mapM f = some (l.map g) := by
  induction l with
  | nil => rfl
  | cons a l ih =>
    rw [List.mapM_cons, h a List.mem_cons_self, ih fun b hb => h b (List.mem_cons_of_mem _ hb)]
    rfl

/-- A read inside a list. -/
lemma getElem?_eq_some_getD {l : List R} {i : ℕ} (h : i < l.length) :
    l[i]? = some (l.getD i 0) := by
  rw [List.getD_eq_getElem?_getD, List.getElem?_eq_getElem h]
  rfl

namespace Rollout

variable (b : Rollout R) (gamma lam : R) {t : ℕ}

/-- The advantage of a step, from the one after it. -/
lemma advantage_eq (ht : t < b.rewards.length) : b.advantage gamma lam t =
    b.delta gamma t + gamma * lam * (1 - b.done t) * b.advantage gamma lam (t + 1) := by
  unfold advantage
  obtain ⟨m, hm⟩ : ∃ m, b.rewards.length = t + 1 + m := ⟨b.rewards.length - (t + 1), by omega⟩
  rw [hm, Nat.add_sub_cancel_left, add_assoc, Nat.add_sub_cancel_left, add_comm 1 m, tail]

/-- Past the end there is no advantage. -/
lemma advantage_length : b.advantage gamma lam b.rewards.length = 0 := by
  rw [advantage, Nat.sub_self, tail]

/-- **Rounds.** A round writes the next advantage of the backward sum. -/
lemma gaeRound_eq (ht : t < b.rewards.length) (adv : List R) :
    gaeRound b.rewards b.values b.dones gamma lam (adv, b.advantage gamma lam (t + 1)) t =
      some (adv.set t (b.advantage gamma lam t), b.advantage gamma lam t) := by
  have hnext : nextValue b.values t = some (b.value (t + 1)) := by
    unfold nextValue
    split_ifs with hlt
    · exact getElem?_eq_some_getD hlt
    · rw [value, List.getD_eq_getElem?_getD, List.getElem?_eq_none (not_lt.mp hlt)]
      rfl
  have hvalue : b.values[t]? = some (b.value t) :=
    getElem?_eq_some_getD (by rw [b.length_values]; exact ht)
  have hdone : b.dones[t]? = some (b.done t) :=
    getElem?_eq_some_getD (by rw [b.length_dones]; exact ht)
  have hreward : b.rewards[t]? = some (b.reward t) := getElem?_eq_some_getD ht
  rw [b.advantage_eq gamma lam ht, gaeRound, hnext, hdone, hreward, hvalue]
  rfl

/-- **The loop.** From the advantages of the last steps, the rounds of the others write theirs. -/
lemma foldrM_gaeRound (m : ℕ) (hm : m ≤ b.rewards.length) (adv : List R)
    (hlength : adv.length = b.rewards.length)
    (hadv : ∀ i, m ≤ i → i < b.rewards.length → adv[i]? = some (b.advantage gamma lam i)) :
    ∃ adv' last, (List.range m).foldrM
        (fun t s => gaeRound b.rewards b.values b.dones gamma lam s t)
        (adv, b.advantage gamma lam m) = some (adv', last) ∧
      adv'.length = b.rewards.length ∧
      ∀ i < b.rewards.length, adv'[i]? = some (b.advantage gamma lam i) := by
  induction m generalizing adv with
  | zero => exact ⟨adv, _, rfl, hlength, fun i hi => hadv i (Nat.zero_le i) hi⟩
  | succ m ih =>
    rw [List.range_succ, List.foldrM_append]
    have hround := b.gaeRound_eq gamma lam (t := m) (by omega) adv
    obtain ⟨adv', last, hrun, hlength', hadv'⟩ := ih (by omega)
      (adv.set m (b.advantage gamma lam m)) (by rw [List.length_set, hlength]) fun i hi hlt => by
        rcases hi.eq_or_lt with rfl | hlater
        · rw [List.getElem?_set_self (by omega)]
        · rw [List.getElem?_set_ne hlater.ne]
          exact hadv i hlater hlt
    refine ⟨adv', last, ?_, hlength', hadv'⟩
    rw [← hrun]
    simp only [List.foldrM_cons, List.foldrM_nil, pure_bind]
    rw [hround]
    rfl

end Rollout

/-- The advantages and the returns of `compute_gae`. -/
theorem computeGae_eq (b : Rollout R) (gamma lam : R) :
    ∃ adv returns, computeGae b.rewards b.values b.dones gamma lam = some (adv, returns) ∧
      adv.length = b.rewards.length ∧ returns.length = b.rewards.length ∧
      ∀ t < b.rewards.length, adv.getD t 0 = b.advantage gamma lam t ∧
        returns.getD t 0 = b.advantage gamma lam t + b.value t := by
  obtain ⟨adv, last, hrun, hlength, hadv⟩ := b.foldrM_gaeRound gamma lam b.rewards.length le_rfl
    (List.replicate b.rewards.length 0) List.length_replicate fun i hi hlt => by omega
  rw [b.advantage_length] at hrun
  have hreturns : (List.range b.rewards.length).mapM (fun t => do
      pure ((← adv[t]?) + (← b.values[t]?))) =
        some ((List.range b.rewards.length).map fun t => b.advantage gamma lam t + b.value t) := by
    refine mapM_eq_some fun t ht => ?_
    have hlt := List.mem_range.mp ht
    have hvalue : b.values[t]? = some (b.value t) :=
      getElem?_eq_some_getD (by rw [b.length_values]; exact hlt)
    rw [hadv t hlt, hvalue]
    rfl
  refine ⟨adv, (List.range b.rewards.length).map fun t => b.advantage gamma lam t + b.value t, ?_,
    hlength, by simp, fun t ht => ⟨?_, ?_⟩⟩
  · unfold computeGae
    rw [List.foldlM_reverse, hrun]
    exact congrArg (fun r => r >>= fun returns => some (adv, returns)) hreturns
  · rw [List.getD_eq_getElem?_getD, hadv t ht]
    rfl
  · simp [List.getD_eq_getElem?_getD, ht]

/-! ## The closed form -/

namespace Rollout

variable (b : Rollout R) (gamma lam : R)

lemma done_eq (i : ℕ) : b.done i = 0 ∨ b.done i = 1 := by
  rcases lt_or_ge i b.dones.length with hlt | hge
  · refine b.flag _ ?_
    rw [done, List.getD_eq_getElem?_getD, List.getElem?_eq_getElem hlt]
    exact List.getElem_mem hlt
  · rw [done, List.getD_eq_getElem?_getD, List.getElem?_eq_none hge]
    exact .inl rfl

/-- The mask of a step keeps its episode going, or ends it. -/
lemma mask_eq (i : ℕ) : 1 - b.done i = 0 ∨ 1 - b.done i = 1 := by
  rcases b.done_eq i with h | h
  · exact .inr (by rw [h, sub_zero])
  · exact .inl (by rw [h, sub_self])

lemma sameEpisode_iff {t k : ℕ} : b.SameEpisode t k ↔ ∀ j < k, 1 - b.done (t + j) = 1 :=
  forall₂_congr fun _ _ => sub_eq_self.symm

/-- A sum over the rest of an episode. -/
lemma tail_episode [DecidableEq R] (c : R) (x : ℕ → R) (m t : ℕ) :
    tail x (fun i => c * (1 - b.done i)) m t =
      ∑ k ∈ range m with b.SameEpisode t k, c ^ k * x (t + k) := by
  rw [tail_masked b.mask_eq]
  exact sum_congr (filter_congr fun k _ => b.sameEpisode_iff.symm) fun _ _ => rfl

/-- **Advantages.** The discounted sum of the errors up to the end of the episode. -/
theorem advantage_eq_sum [DecidableEq R] (t : ℕ) : b.advantage gamma lam t =
    ∑ k ∈ range (b.rewards.length - t) with b.SameEpisode t k,
      (gamma * lam) ^ k * b.delta gamma (t + k) :=
  b.tail_episode (gamma * lam) _ _ t

/-- Past the end there is no value. -/
lemma value_length : b.value b.rewards.length = 0 := by
  rw [value, List.getD_eq_getElem?_getD, List.getElem?_eq_none (by rw [b.length_values])]
  rfl

/-- **Returns.** For `lam = 1` the values telescope, and the rewards of the episode are left. -/
theorem advantage_add_value [DecidableEq R] {t : ℕ} (ht : t ≤ b.rewards.length) :
    b.advantage gamma 1 t + b.value t =
      ∑ k ∈ range (b.rewards.length - t) with b.SameEpisode t k, gamma ^ k * b.reward (t + k) := by
  have hdelta : b.delta gamma = fun i =>
      b.reward i + gamma * (1 - b.done i) * b.value (i + 1) - b.value i := by
    funext i
    rw [delta, mul_right_comm]
  have hend : t + (b.rewards.length - t) = b.rewards.length := by omega
  rw [advantage, hdelta, mul_one, tail_add_potential, hend, b.value_length, mul_zero, add_zero,
    b.tail_episode]

/-- The rollouts agree on the steps from `t` to `e`. -/
structure AgreeOn (b b' : Rollout R) (t e : ℕ) : Prop where
  reward : ∀ i, t ≤ i → i ≤ e → b.reward i = b'.reward i
  value : ∀ i, t ≤ i → i ≤ e → b.value i = b'.value i
  done : ∀ i, t ≤ i → i ≤ e → b.done i = b'.done i

/-- **Episodes.** Nothing after a done matters to the advantages before it. -/
theorem advantage_congr {b b' : Rollout R} {t e : ℕ} (ht : t ≤ e) (he : e < b.rewards.length)
    (he' : e < b'.rewards.length) (hdone : b.done e = 1) (h : b.AgreeOn b' t e) :
    b.advantage gamma lam t = b'.advantage gamma lam t := by
  have hcut : ∀ c : R, c * (1 - b.done e) = 0 := fun c => by rw [hdone, sub_self, mul_zero]
  refine tail_congr_of_cut ht (by omega) (by omega) (hcut _) (fun i hi hie => ?_) fun i hi hie => ?_
  · -- the error at the done does not look at the next value
    unfold delta
    rw [← h.reward i hi hie, ← h.value i hi hie, ← h.done i hi hie]
    rcases hie.eq_or_lt with rfl | hlt
    · rw [hcut, hcut]
    · rw [h.value (i + 1) (by omega) (by omega)]
  · rw [h.done i hi hie]

end Rollout

/-- **The closed form.** On every rollout `compute_gae` returns an advantage and a return for each
step. The advantage at `t` is the sum of the errors from `t` on, up to the end of its episode, each
discounted by a power of `gamma * lam`. It is the same on any other rollout that agrees from `t` up
to a done. For `lam = 1` the return at `t` is the discounted sum of the rewards up to the end of the
episode. -/
theorem computeGae_closedForm [DecidableEq R] (b : Rollout R) (gamma lam : R) :
    ∃ adv returns, computeGae b.rewards b.values b.dones gamma lam = some (adv, returns) ∧
      adv.length = b.rewards.length ∧ returns.length = b.rewards.length ∧
      (∀ t < b.rewards.length, adv.getD t 0 =
        ∑ k ∈ range (b.rewards.length - t) with b.SameEpisode t k,
          (gamma * lam) ^ k * b.delta gamma (t + k)) ∧
      (∀ t e, t ≤ e → e < b.rewards.length → b.done e = 1 →
        ∀ b' : Rollout R, e < b'.rewards.length → b.AgreeOn b' t e → ∀ adv' returns',
          computeGae b'.rewards b'.values b'.dones gamma lam = some (adv', returns') →
            adv'.getD t 0 = adv.getD t 0) ∧
      (lam = 1 → ∀ t < b.rewards.length, returns.getD t 0 =
        ∑ k ∈ range (b.rewards.length - t) with b.SameEpisode t k,
          gamma ^ k * b.reward (t + k)) := by
  obtain ⟨adv, returns, hrun, hadv, hreturns, heq⟩ := computeGae_eq b gamma lam
  refine ⟨adv, returns, hrun, hadv, hreturns, fun t ht => ?_, ?_, ?_⟩
  · rw [(heq t ht).1, b.advantage_eq_sum]
  · intro t e hte he hdone b' he' hagree adv' returns' hrun'
    obtain ⟨adv₂, returns₂, hrun₂, -, -, heq'⟩ := computeGae_eq b' gamma lam
    rw [hrun'] at hrun₂
    cases hrun₂
    rw [(heq t (by omega)).1, (heq' t (by omega)).1,
      Rollout.advantage_congr gamma lam hte he he' hdone hagree]
  · rintro rfl t ht
    rw [(heq t ht).2, b.advantage_add_value gamma ht.le]

/-- Two episodes of two steps. -/
def twoEpisodes : Rollout ℤ where
  rewards := [1, 2, 3, 4]
  values := [10, 20, 30, 40]
  dones := [0, 1, 0, 1]
  length_values := rfl
  length_dones := rfl
  flag := by decide

/-- The same first episode, followed by three steps that do not end one. -/
def otherSecond : Rollout ℤ where
  rewards := [1, 2, 7, 8, 9]
  values := [10, 20, -5, 0, 5]
  dones := [0, 1, 0, 0, 0]
  length_values := rfl
  length_dones := rfl
  flag := by decide

/-- The advantages of two episodes: the first return is `1 + 2 * 2`, and the first advantage is the
same with another second episode. -/
theorem computeGae_closedForm_two :
    computeGae twoEpisodes.rewards twoEpisodes.values twoEpisodes.dones 2 1 =
        some ([-5, -18, -19, -36], [5, 2, 11, 4]) ∧
      ([5, 2, 11, 4] : List ℤ).getD 0 0 =
        ∑ k ∈ range 4 with twoEpisodes.SameEpisode 0 k, 2 ^ k * twoEpisodes.reward (0 + k) ∧
      ∀ adv' returns', computeGae otherSecond.rewards otherSecond.values otherSecond.dones 2 1 =
        some (adv', returns') → adv'.getD 0 0 = -5 := by
  have hrun : computeGae twoEpisodes.rewards twoEpisodes.values twoEpisodes.dones 2 1 =
      some ([-5, -18, -19, -36], [5, 2, 11, 4]) := by decide
  obtain ⟨adv, returns, h, -, -, -, hsame, hreturns⟩ := computeGae_closedForm twoEpisodes 2 1
  rw [hrun] at h
  cases h
  have hfirst : ∀ i ≤ 1, twoEpisodes.reward i = otherSecond.reward i ∧
      twoEpisodes.value i = otherSecond.value i ∧ twoEpisodes.done i = otherSecond.done i := by
    decide
  have hagree : twoEpisodes.AgreeOn otherSecond 0 1 :=
    ⟨fun i _ hi => (hfirst i hi).1, fun i _ hi => (hfirst i hi).2.1,
      fun i _ hi => (hfirst i hi).2.2⟩
  exact ⟨hrun, hreturns rfl 0 (by decide), fun adv' returns' =>
    hsame 0 1 (by decide) (by decide) rfl otherSecond (by decide) hagree adv' returns'⟩

end KeelTrader.Models
