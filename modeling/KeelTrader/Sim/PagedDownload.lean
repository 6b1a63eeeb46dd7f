import KeelTrader.Lib.Paging
import KeelTrader.Sim.AlignGrid

set_option relaxedAutoImplicit false
set_option autoImplicit false

/-!
# The paged download

`fetch_ohlcv_paged` of `sim/kraken_data.py` reads the bars of a symbol page by page. Whatever the
exchange answers, it ends after a bounded number of calls. From an exchange that holds the bars, it
gets those between the two ends, but for one: the guard of the loop is strict, so a last bar at
`until_ms` itself is not asked for when a page ends with the bar before it.

## Main definitions

* `KeelTrader.Sim.Exchange`, `fetchOhlcvPaged` — an exchange, and the download.
* `KeelTrader.Sim.countCalls` — an exchange that counts its calls.
* `KeelTrader.Sim.BarStore` — an exchange that holds ascending bars on a grid.
* `KeelTrader.Sim.BarStore.Missed` — a page ends right before the last bar.

## Main results

* `KeelTrader.Sim.fetchOhlcvPaged_calls` — the number of calls, and the last timestamp.
* `KeelTrader.Sim.fetchOhlcvPaged_complete_iff` — the download is complete exactly when the last bar
  is not missed.

## Implementation notes

The loop recurses on the time that is left, which shrinks because the step is positive. The pause
between two calls is left out.
-/

namespace KeelTrader.Sim

open Paging

variable {σ : Type}

/-! ## The download -/

/-- `exchange.fetch_ohlcv(symbol, timeframe, since, limit)`, for an exchange with states `σ`: the
batch, and the state after the call. -/
abbrev Exchange (σ : Type) : Type :=
  σ → String → String → ℤ → ℤ → List (ℤ × Bar) × σ

/-- The bars of a batch that are not after `until_ms`, written over those there are. -/
def keepBatch (untilMs : ℤ) (out : Series) (batch : List (ℤ × Bar)) : Series :=
  batch.foldl (fun out e => if e.1 ≤ untilMs then out.set e.1 e.2 else out) out

/-- The loop of `fetch_ohlcv_paged`. -/
def pageLoop (fetch : σ → ℤ → List (ℤ × Bar) × σ) (untilMs : ℤ) {step : ℤ} (hstep : 0 < step)
    (s : σ) (cursor : ℤ) (out : Series) : Series × σ :=
  if cursor < untilMs then
    let r := fetch s cursor
    match r.1.getLast? with
    | none => (out, r.2)
    | some last =>
      -- no forward progress
      if last.1 < cursor + step then (keepBatch untilMs out r.1, r.2)
      else pageLoop fetch untilMs hstep r.2 (last.1 + step) (keepBatch untilMs out r.1)
  else (out, s)
termination_by (untilMs - cursor).toNat

section Rounds

variable {fetch : σ → ℤ → List (ℤ × Bar) × σ} {untilMs step cursor : ℤ} {hstep : 0 < step} {s : σ}
  {out : Series} {last : ℤ × Bar}

lemma pageLoop_of_le (h : ¬cursor < untilMs) :
    pageLoop fetch untilMs hstep s cursor out = (out, s) := by
  rw [pageLoop, if_neg h]

lemma pageLoop_of_none (h : cursor < untilMs) (hlast : (fetch s cursor).1.getLast? = none) :
    pageLoop fetch untilMs hstep s cursor out = (out, (fetch s cursor).2) := by
  rw [pageLoop, if_pos h]
  simp only [hlast]

lemma pageLoop_of_stop (h : cursor < untilMs) (hlast : (fetch s cursor).1.getLast? = some last)
    (hstop : last.1 < cursor + step) : pageLoop fetch untilMs hstep s cursor out =
      (keepBatch untilMs out (fetch s cursor).1, (fetch s cursor).2) := by
  rw [pageLoop, if_pos h]
  simp only [hlast, hstop, if_true]

lemma pageLoop_of_go (h : cursor < untilMs) (hlast : (fetch s cursor).1.getLast? = some last)
    (hgo : ¬last.1 < cursor + step) : pageLoop fetch untilMs hstep s cursor out =
      pageLoop fetch untilMs hstep (fetch s cursor).2 (last.1 + step)
        (keepBatch untilMs out (fetch s cursor).1) := by
  rw [pageLoop, if_pos h]
  simp only [hlast, hgo, if_false]

end Rounds

/-- `until_ms or _now_ms()`. -/
def untilOrNow (untilMs : Option ℤ) (now : ℤ) : ℤ :=
  match untilMs with
  | some t => if t = 0 then now else t
  | none => now

/-- `fetch_ohlcv_paged`. -/
def fetchOhlcvPaged (ex : Exchange σ) (now : ℤ) (s : σ) (symbol : String) (sinceMs : ℤ)
    (untilMs : Option ℤ) (limit : ℤ) (timeframe : String) : Except AlignError (Series × σ) :=
  match hstep : msPerBar timeframe with
  | .error e => .error e
  | .ok _ => .ok (pageLoop (fun s since => ex s symbol timeframe since limit)
      (untilOrNow untilMs now) (msPerBar_pos hstep) s sinceMs .empty)

lemma fetchOhlcvPaged_eq {timeframe : String} {step : ℤ} (h : msPerBar timeframe = .ok step)
    (ex : Exchange σ) (now : ℤ) (s : σ) (symbol : String) (sinceMs : ℤ) (untilMs : Option ℤ)
    (limit : ℤ) : fetchOhlcvPaged ex now s symbol sinceMs untilMs limit timeframe =
      .ok (pageLoop (fun s since => ex s symbol timeframe since limit)
        (untilOrNow untilMs now) (msPerBar_pos h) s sinceMs .empty) := by
  unfold fetchOhlcvPaged
  split
  · next e he =>
    rw [h] at he
    cases he
  · next step' hstep' =>
    rw [h] at hstep'
    cases hstep'
    rfl

/-! ## The number of calls -/

/-- A page function with a counter of its calls. -/
def countPages (fetch : σ → ℤ → List (ℤ × Bar) × σ) (s : σ × ℕ) (since : ℤ) :
    List (ℤ × Bar) × (σ × ℕ) :=
  let r := fetch s.1 since
  (r.1, (r.2, s.2 + 1))

/-- The exchange with a counter of its calls. -/
def countCalls (ex : Exchange σ) : Exchange (σ × ℕ) := fun s symbol timeframe since limit =>
  countPages (fun s since => ex s symbol timeframe since limit) s since

/-- **Calls.** Counting changes nothing else, and each call but the last takes the cursor two steps
closer to the end. -/
theorem pageLoop_calls (fetch : σ → ℤ → List (ℤ × Bar) × σ) (untilMs : ℤ) {step : ℤ}
    (hstep : 0 < step) (s : σ) (cursor : ℤ) (out : Series) (n : ℕ) :
    ∃ calls ≤ pagesTo step cursor untilMs,
      pageLoop (countPages fetch) untilMs hstep (s, n) cursor out =
        ((pageLoop fetch untilMs hstep s cursor out).1,
          ((pageLoop fetch untilMs hstep s cursor out).2, n + calls)) := by
  fun_induction pageLoop fetch untilMs hstep s cursor out generalizing n with
  | case1 s cursor out hlt r hlast =>
    refine ⟨1, pagesTo_pos hstep hlt, ?_⟩
    exact pageLoop_of_none hlt hlast
  | case2 s cursor out hlt r last hlast hstop =>
    refine ⟨1, pagesTo_pos hstep hlt, ?_⟩
    exact pageLoop_of_stop hlt hlast hstop
  | case3 s cursor out hlt r last hlast hgo ih =>
    obtain ⟨calls, hcalls, heq⟩ := ih (n + 1)
    refine ⟨1 + calls, ?_, ?_⟩
    · have hprogress := pagesTo_step hstep hlt (by omega : cursor + 2 * step ≤ last.1 + step)
      omega
    · rw [← add_assoc, ← heq]
      exact pageLoop_of_go hlt hlast hgo
  | case4 s cursor out hend => exact ⟨0, Nat.zero_le _, pageLoop_of_le hend⟩

/-- A batch writes no bar after the end. -/
lemma keepBatch_le {untilMs : ℤ} {out : Series} (h : ∀ ts ∈ out.keys, ts ≤ untilMs)
    (batch : List (ℤ × Bar)) : ∀ ts ∈ (keepBatch untilMs out batch).keys, ts ≤ untilMs := by
  unfold keepBatch
  induction batch generalizing out with
  | nil => exact h
  | cons e batch ih =>
    rw [List.foldl_cons]
    refine ih ?_
    split_ifs with hle
    · intro ts hts
      rcases Dict.mem_keys_set.mp hts with rfl | hmem
      · exact hle
      · exact h ts hmem
    · exact h

/-- The download keeps no bar after the end. -/
lemma pageLoop_le (fetch : σ → ℤ → List (ℤ × Bar) × σ) {untilMs step : ℤ} (hstep : 0 < step)
    (s : σ) (cursor : ℤ) {out : Series} (h : ∀ ts ∈ out.keys, ts ≤ untilMs) :
    ∀ ts ∈ (pageLoop fetch untilMs hstep s cursor out).1.keys, ts ≤ untilMs := by
  fun_induction pageLoop fetch untilMs hstep s cursor out with
  | case1 => exact h
  | case2 => exact keepBatch_le h _
  | case3 s cursor out hlt r last hlast hgo ih => exact ih (keepBatch_le h _)
  | case4 => exact h

/-- **Termination.** Whatever the exchange answers: a download between two ends makes at most one
call for every two steps between them (none when there is nothing between them), and keeps no bar
after the end. -/
theorem fetchOhlcvPaged_calls (ex : Exchange σ) (now : ℤ) (s : σ) (symbol : String)
    (sinceMs untilMs : ℤ) (huntil : untilMs ≠ 0) (limit : ℤ) (timeframe : String) (step : ℤ)
    (hstep : msPerBar timeframe = .ok step) :
    ∃ out s' calls,
      fetchOhlcvPaged ex now s symbol sinceMs (some untilMs) limit timeframe = .ok (out, s') ∧
      fetchOhlcvPaged (countCalls ex) now (s, 0) symbol sinceMs (some untilMs) limit timeframe =
        .ok (out, (s', calls)) ∧
      (calls : ℤ) ≤ max 1 ⌈((untilMs - sinceMs : ℤ) : ℚ) / (2 * step)⌉ ∧
      (untilMs ≤ sinceMs → calls = 0) ∧ ∀ ts ∈ out.keys, ts ≤ untilMs := by
  have hend : untilOrNow (some untilMs) now = untilMs := if_neg huntil
  obtain ⟨calls, hcalls, heq⟩ := pageLoop_calls (fun s since => ex s symbol timeframe since limit)
    untilMs (msPerBar_pos hstep) s sinceMs .empty 0
  rw [Nat.zero_add] at heq
  refine ⟨_, _, calls, fetchOhlcvPaged_eq hstep ex now s symbol sinceMs (some untilMs) limit, ?_,
    ?_, ?_, ?_⟩
  · rw [fetchOhlcvPaged_eq hstep, hend]
    exact congrArg Except.ok heq
  · have hpages := pagesTo_le step sinceMs untilMs
    omega
  · intro hle
    rw [pagesTo_of_le (msPerBar_pos hstep) hle] at hcalls
    omega
  · rw [hend]
    exact pageLoop_le _ _ _ _ (by simp [Dict.keys, Dict.empty])

/-- An exchange that always answers with the two bars at `0` and one hour before `since`, the later
one last. -/
def repeating : Exchange Unit := fun _ _ _ since _ =>
  ([(since - 3600000, .flat 100), (0, .flat 100)], ())

/-- A download of two hours from it makes a single call. -/
theorem fetchOhlcvPaged_calls_repeating :
    ∃ out s' calls,
      fetchOhlcvPaged repeating 1 () "BTC/USD" 0 (some 7200000) 720 "1h" = .ok (out, s') ∧
      fetchOhlcvPaged (countCalls repeating) 1 ((), 0) "BTC/USD" 0 (some 7200000) 720 "1h" =
        .ok (out, (s', calls)) ∧
      (calls : ℤ) ≤ max 1 ⌈((7200000 - 0 : ℤ) : ℚ) / (2 * (3600000 : ℤ))⌉ ∧
      ((7200000 : ℤ) ≤ 0 → calls = 0) ∧ ∀ ts ∈ out.keys, ts ≤ 7200000 :=
  fetchOhlcvPaged_calls repeating 1 () "BTC/USD" 0 7200000 (by decide) 720 "1h" 3600000
    (by decide +kernel)

/-- A batch of distinct bars, after it was kept. -/
lemma get?_keepBatch {untilMs : ℤ} {batch : List (ℤ × Bar)} (hnodup : (batch.map Prod.fst).Nodup)
    (out : Series) (ts : ℤ) : (keepBatch untilMs out batch).get? ts =
      if ts ≤ untilMs then (batch.lookup ts).or (out.get? ts) else out.get? ts := by
  have hfiltered : keepBatch untilMs out batch =
      (batch.filter fun e => decide (e.1 ≤ untilMs)).foldl (fun d e => d.set e.1 e.2) out := by
    rw [keepBatch, List.foldl_filter]
    simp only [decide_eq_true_eq]
  have hkept : ((batch.filter fun e => decide (e.1 ≤ untilMs)).map Prod.fst).Nodup :=
    hnodup.sublist (List.filter_sublist.map _)
  have hlookup : ∀ bar, batch.lookup ts = some bar ↔ (ts, bar) ∈ batch := fun bar =>
    Dict.get?_eq_some_iff (d := ⟨batch, hnodup⟩)
  rw [hfiltered]
  split_ifs with hle
  · cases hbar : batch.lookup ts with
    | some bar =>
      refine Dict.get?_foldl_set_of_mem hkept ?_ out
      exact List.mem_filter.mpr ⟨(hlookup bar).mp hbar, decide_eq_true hle⟩
    | none =>
      refine Dict.get?_foldl_set_of_notMem ?_ out
      rintro hmem
      obtain ⟨e, he, rfl⟩ := List.mem_map.mp hmem
      rw [(hlookup e.2).mpr (List.mem_filter.mp he).1] at hbar
      cases hbar
  · refine Dict.get?_foldl_set_of_notMem ?_ out
    rintro hmem
    obtain ⟨e, he, rfl⟩ := List.mem_map.mp hmem
    exact hle (of_decide_eq_true (List.mem_filter.mp he).2)

/-! ## An exchange that holds the bars -/

/-- The bars of an exchange, in ascending order on a grid. -/
structure BarStore (step : ℤ) where
  bars : Series
  /-- The timestamps ascend. -/
  ascending : bars.entries.Pairwise fun a b => a.1 < b.1
  /-- A point of the grid. -/
  origin : ℤ
  /-- The timestamps are whole steps from it. -/
  onGrid : ∀ ts ∈ bars.keys, step ∣ ts - origin

namespace BarStore

variable {step : ℤ}

/-- The exchange that returns the first `limit` bars from `since` on. -/
def exchange (store : BarStore step) : Exchange Unit := fun _ _ _ since limit =>
  (page since limit.toNat store.bars.entries, ())

/-- The loop ends without a call for the last bar: it has nothing to ask for, or the bar before is
the last one of a full page. -/
def Missed (store : BarStore step) (sinceMs untilMs limit : ℤ) : Prop :=
  untilMs ∈ store.bars.keys ∧ (sinceMs = untilMs ∨
    untilMs - step ∈ store.bars.keys ∧ sinceMs ≤ untilMs - step ∧
      limit ∣ between sinceMs untilMs store.bars.entries)

instance (store : BarStore step) (sinceMs untilMs limit : ℤ) :
    Decidable (store.Missed sinceMs untilMs limit) :=
  inferInstanceAs (Decidable (_ ∧ (_ ∨ _ ∧ _ ∧ _)))

/-- A download from the store that got the bars between the two ends, and no others. -/
def Complete (store : BarStore step) (sinceMs untilMs : ℤ)
    (r : Except AlignError (Series × Unit)) : Prop :=
  ∃ out, r = .ok (out, ()) ∧
    ∀ ts, out.get? ts = if sinceMs ≤ ts ∧ ts ≤ untilMs then store.bars.get? ts else none

/-- Two bars are at least a step apart. -/
lemma add_step_le (store : BarStore step) {ts ts' : ℤ} (h : ts ∈ store.bars.keys)
    (h' : ts' ∈ store.bars.keys) (hlt : ts < ts') : ts + step ≤ ts' := by
  have hgrid : step ∣ (ts' - store.origin) - (ts - store.origin) :=
    dvd_sub (store.onGrid ts' h') (store.onGrid ts h)
  have hle := Int.le_of_dvd (by omega) hgrid
  omega

lemma spaced (store : BarStore step) : Spaced step store.bars.entries :=
  store.ascending.imp_of_mem fun ha hb hlt =>
    store.add_step_le (List.mem_map_of_mem ha) (List.mem_map_of_mem hb) hlt

lemma nodup_page (store : BarStore step) (cursor limit : ℤ) :
    ((page cursor limit.toNat store.bars.entries).map Prod.fst).Nodup :=
  store.bars.nodup.sublist (page_sublist.map Prod.fst)

section Page

variable (store : BarStore step) {cursor untilMs limit : ℤ} {last : ℤ × Bar} (hstep : 0 < step)
  (hlast : (page cursor limit.toNat store.bars.entries).getLast? = some last)
include hlast

lemma last_mem : last.1 ∈ store.bars.keys :=
  List.mem_map_of_mem (page_sublist.mem (List.mem_of_getLast? hlast))

include hstep

/-- The bars before a bar past the page are a full page, and those left. -/
lemma between_fullPage (hlimit : 2 ≤ limit) (huntil : untilMs ∈ store.bars.keys)
    (hlt : last.1 < untilMs) : (between cursor untilMs store.bars.entries : ℤ) =
      limit + between (last.1 + step) untilMs store.bars.entries := by
  have hapart := store.add_step_le (store.last_mem hlast) huntil hlt
  obtain ⟨e, he, rfl⟩ := List.mem_map.mp huntil
  have hleft : past (last.1 + step) store.bars.entries ≠ [] :=
    List.ne_nil_of_mem (mem_past.mpr ⟨he, by omega⟩)
  rw [store.spaced.between_page hstep hlast hlt, store.spaced.length_page hstep hlast hleft]
  omega

/-- **Pages.** The last bar is missed from a cursor before it exactly when it is missed after the
page that is read there. -/
theorem missed_page (hlimit : 2 ≤ limit) (hlt : cursor < untilMs) :
    store.Missed cursor untilMs limit ↔ store.Missed (last.1 + step) untilMs limit := by
  have hlastMem := store.last_mem hlast
  have hcursor := (store.spaced.mem_page hstep hlast (List.mem_of_getLast? hlast)).1
  unfold Missed
  refine and_congr_right fun huntil => ?_
  constructor
  · rintro (heq | ⟨hbefore, hle, hdvd⟩)
    · exact absurd heq hlt.ne
    · -- the bar before the last one is counted, so a whole page is
      have hcounted : 0 < between cursor untilMs store.bars.entries := by
        obtain ⟨e, he, hkey⟩ := List.mem_map.mp hbefore
        refine List.countP_pos_iff.mpr ⟨e, mem_past.mpr ⟨he, by omega⟩, ?_⟩
        exact decide_eq_true (by omega)
      have hpage : limit ≤ between cursor untilMs store.bars.entries :=
        Int.le_of_dvd (by omega) hdvd
      have hltLast : last.1 < untilMs := by
        by_contra hreached
        have hfew := store.spaced.between_lt hstep hlast (not_lt.mp hreached)
        omega
      rw [store.between_fullPage hstep hlast hlimit huntil hltLast, dvd_add_self_left] at hdvd
      by_cases hend : last.1 + step = untilMs
      · exact .inl hend
      · refine .inr ⟨hbefore, ?_, hdvd⟩
        have hapart := store.add_step_le hlastMem huntil hltLast
        have hstride := store.add_step_le hlastMem hbefore (by omega)
        omega
  · intro h
    have hltLast : last.1 < untilMs := by
      rcases h with heq | ⟨-, hle, -⟩ <;> omega
    rw [store.between_fullPage hstep hlast hlimit huntil hltLast, dvd_add_self_left]
    rcases h with heq | ⟨hbefore, hle, hdvd⟩
    · have hnone : between (last.1 + step) untilMs store.bars.entries = 0 := by
        refine List.countP_eq_zero.mpr fun e he => ?_
        have hlater := (mem_past.mp he).2
        rw [decide_eq_true_iff]
        omega
      rw [hnone, Nat.cast_zero]
      refine .inr ⟨?_, by omega, dvd_zero _⟩
      rwa [← heq, add_sub_cancel_right]
    · exact .inr ⟨hbefore, by omega, hdvd⟩

/-- The bars of a page. -/
lemma lookup_page (ts : ℤ) : (page cursor limit.toNat store.bars.entries).lookup ts =
    if cursor ≤ ts ∧ ts < last.1 + step then store.bars.get? ts else none := by
  have hnodup := store.nodup_page cursor limit
  have hpage : ∀ bar, (page cursor limit.toNat store.bars.entries).lookup ts = some bar ↔
      (ts, bar) ∈ page cursor limit.toNat store.bars.entries := fun bar =>
    Dict.get?_eq_some_iff (d := ⟨_, hnodup⟩)
  refine Option.ext fun bar => ?_
  rw [hpage]
  constructor
  · intro hmem
    have he := page_sublist.mem hmem
    rw [if_pos ((store.spaced.mem_page_iff hstep hlast he).mp hmem)]
    exact Dict.get?_eq_some_iff.mpr he
  · intro hbar
    split_ifs at hbar with hrange
    exact (store.spaced.mem_page_iff hstep hlast (Dict.get?_eq_some_iff.mp hbar)).mpr hrange

end Page

/-- What a download that goes on at `cursor` with `out` gets at a timestamp. -/
def finalGet (store : BarStore step) (untilMs limit cursor : ℤ) (out : Series) (ts : ℤ) :
    Option Bar :=
  if cursor ≤ ts ∧ ts ≤ untilMs ∧ ¬(ts = untilMs ∧ store.Missed cursor untilMs limit)
  then (store.bars.get? ts).or (out.get? ts) else out.get? ts

/-- **Step.** A page that is kept does not change what the download gets in the end. -/
theorem finalGet_page (store : BarStore step) (hstep : 0 < step) {untilMs limit cursor : ℤ}
    {last : ℤ × Bar} (hlimit : 2 ≤ limit) (hlt : cursor < untilMs)
    (hlast : (page cursor limit.toNat store.bars.entries).getLast? = some last) (out : Series)
    (ts : ℤ) :
    store.finalGet untilMs limit (last.1 + step)
        (keepBatch untilMs out (page cursor limit.toNat store.bars.entries)) ts =
      store.finalGet untilMs limit cursor out ts := by
  have hnodup := store.nodup_page cursor limit
  have hcursor := (store.spaced.mem_page hstep hlast (List.mem_of_getLast? hlast)).1
  unfold finalGet
  simp only [store.missed_page hstep hlast hlimit hlt]
  rw [get?_keepBatch hnodup, store.lookup_page hstep hlast]
  rcases lt_or_ge untilMs ts with hafter | hle
  · rw [if_neg fun h => absurd h.2.1 (not_le.mpr hafter), if_neg (not_le.mpr hafter),
      if_neg fun h => absurd h.2.1 (not_le.mpr hafter)]
  rcases lt_or_ge ts cursor with hbefore | hfrom
  · rw [if_neg fun h => absurd h.1 (by omega), if_pos hle, if_neg fun h => absurd h.1 (by omega),
      if_neg fun h => absurd h.1 (by omega)]
    rfl
  rcases lt_or_ge ts (last.1 + step) with hread | hleft
  · -- the page reaches past the timestamp, so it is not the one that is missed
    have hgot : ¬(ts = untilMs ∧ store.Missed (last.1 + step) untilMs limit) := by
      rintro ⟨rfl, -, heq | ⟨-, hle', -⟩⟩ <;> omega
    rw [if_neg fun h => absurd h.1 (by omega), if_pos hle, if_pos ⟨hfrom, hread⟩,
      if_pos ⟨hfrom, hle, hgot⟩]
  · rw [if_neg (by omega : ¬(cursor ≤ ts ∧ ts < last.1 + step)), if_pos hle]
    simp only [hleft, hfrom, true_and, Option.none_or]

/-- Where no bars are left, nothing more is got. -/
lemma finalGet_of_past (store : BarStore step) {untilMs limit cursor : ℤ}
    (h : past cursor store.bars.entries = []) (out : Series) (ts : ℤ) :
    store.finalGet untilMs limit cursor out ts = out.get? ts := by
  unfold finalGet
  split_ifs with hfrom
  · have hnone : store.bars.get? ts = none := by
      refine Option.eq_none_iff_forall_ne_some.mpr fun bar hbar => ?_
      have hmem := mem_past.mpr ⟨Dict.get?_eq_some_iff.mp hbar, hfrom.1⟩
      rw [h] at hmem
      cases hmem
    rw [hnone, Option.none_or]
  · rfl

/-- At the end of the loop, nothing more is got. -/
lemma finalGet_of_le (store : BarStore step) {untilMs limit cursor : ℤ} (h : untilMs ≤ cursor)
    (out : Series) (ts : ℤ) : store.finalGet untilMs limit cursor out ts = out.get? ts := by
  unfold finalGet
  split_ifs with hfrom
  · obtain rfl : ts = untilMs := by omega
    obtain rfl : cursor = ts := by omega
    have hnone : store.bars.get? cursor = none := by
      refine Option.eq_none_iff_forall_ne_some.mpr fun bar hbar => hfrom.2.2 ⟨rfl, ?_, .inl rfl⟩
      exact Dict.mem_keys_iff.mpr ⟨bar, hbar⟩
    rw [hnone, Option.none_or]
  · rfl

/-- **Runs.** What a download that goes on at a cursor has got in the end.

**Proof sketch.** Induction on the rounds of the loop: a page that is kept changes nothing
(`finalGet_page`), and where the loop ends there is nothing left to get. -/
theorem get?_pageLoop (store : BarStore step) (hstep : 0 < step) {untilMs limit : ℤ}
    (hlimit : 2 ≤ limit) (s : Unit) (cursor : ℤ) (out : Series) (ts : ℤ) :
    (pageLoop (fun s since => store.exchange s "" "" since limit) untilMs hstep s
      cursor out).1.get? ts = store.finalGet untilMs limit cursor out ts := by
  fun_induction pageLoop (fun s since => store.exchange s "" "" since limit) untilMs
    hstep s cursor out with
  | case1 s cursor out hlt r hlast =>
    have hpage : page cursor limit.toNat store.bars.entries = [] :=
      List.getLast?_eq_none_iff.mp hlast
    rw [page, List.take_eq_nil_iff] at hpage
    exact (store.finalGet_of_past (hpage.resolve_left (by omega)) out ts).symm
  | case2 s cursor out hlt r last hlast hstop =>
    have hleft : past (last.1 + step) store.bars.entries = [] := by
      by_contra hmore
      have hprogress := store.spaced.page_progress hstep hlast (by omega) hmore
      omega
    rw [← store.finalGet_page hstep hlimit hlt hlast, store.finalGet_of_past hleft]
    rfl
  | case3 s cursor out hlt r last hlast hgo ih =>
    rw [ih, ← store.finalGet_page hstep hlimit hlt hlast]
    rfl
  | case4 s cursor out hend => exact (store.finalGet_of_le (not_lt.mp hend) out ts).symm

end BarStore

/-- **Completeness.** From an exchange that holds the bars, with pages of at least two: a download
gets exactly the bars between its two ends, if and only if it does not miss the last one. -/
theorem fetchOhlcvPaged_complete_iff (now : ℤ) (symbol timeframe : String) (step : ℤ)
    (hstep : msPerBar timeframe = .ok step) (store : BarStore step) (sinceMs untilMs : ℤ)
    (huntil : untilMs ≠ 0) (limit : ℤ) (hlimit : 2 ≤ limit) :
    store.Complete sinceMs untilMs (fetchOhlcvPaged store.exchange now () symbol sinceMs
      (some untilMs) limit timeframe) ↔ ¬store.Missed sinceMs untilMs limit := by
  have hend : untilOrNow (some untilMs) now = untilMs := if_neg huntil
  have hget : ∀ ts, (pageLoop (fun s since => store.exchange s symbol timeframe since limit) untilMs
      (msPerBar_pos hstep) () sinceMs .empty).1.get? ts =
        store.finalGet untilMs limit sinceMs .empty ts :=
    store.get?_pageLoop (msPerBar_pos hstep) hlimit () sinceMs .empty
  rw [fetchOhlcvPaged_eq hstep, hend]
  constructor
  · rintro ⟨out, hout, hall⟩ hmissed
    have hpos := msPerBar_pos hstep
    have hle : sinceMs ≤ untilMs := by
      rcases hmissed.2 with rfl | ⟨-, hle, -⟩ <;> omega
    obtain ⟨bar, hbar⟩ := Dict.mem_keys_iff.mp hmissed.1
    have hgot := hall untilMs
    have hfst := congrArg Prod.fst (Except.ok.inj hout)
    dsimp only at hfst
    rw [← hfst, hget, BarStore.finalGet, if_neg fun h => h.2.2 ⟨rfl, hmissed⟩,
      if_pos ⟨hle, le_rfl⟩, hbar] at hgot
    cases hgot
  · intro hgot
    refine ⟨_, rfl, fun ts => ?_⟩
    rw [hget, BarStore.finalGet, Dict.get?_empty, Option.or_none]
    simp only [hgot, and_false, not_false_eq_true, and_true]

/-- Four hourly bars. -/
def fourHours : BarStore 3600000 where
  bars := ⟨[(0, .flat 100), (3600000, .flat 101), (7200000, .flat 102), (10800000, .flat 103)],
    by decide⟩
  ascending := by decide
  origin := 0
  onGrid := by decide

/-- Two pages of two get all four bars. -/
theorem fetchOhlcvPaged_complete_four :
    (fetchOhlcvPaged fourHours.exchange 1 () "BTC/USD" 0 (some 10800000) 2 "1h").toOption.map
        (fun r => r.1.keys) = some [0, 3600000, 7200000, 10800000] ∧
      fourHours.Complete 0 10800000
        (fetchOhlcvPaged fourHours.exchange 1 () "BTC/USD" 0 (some 10800000) 2 "1h") :=
  ⟨by decide +kernel,
    (fetchOhlcvPaged_complete_iff 1 "BTC/USD" "1h" 3600000 (by decide +kernel) fourHours 0 10800000
      (by decide) 2 (by decide)).mpr (by decide +kernel)⟩

/-- Three hourly bars. -/
def threeHours : BarStore 3600000 where
  bars := ⟨[(0, .flat 100), (3600000, .flat 101), (7200000, .flat 102)], by decide⟩
  ascending := by decide
  origin := 0
  onGrid := by decide

/-- A page of two ends with the bar before the last one. -/
theorem not_fetchOhlcvPaged_complete_two :
    ¬threeHours.Complete 0 7200000
      (fetchOhlcvPaged threeHours.exchange 1 () "BTC/USD" 0 (some 7200000) 2 "1h") := by
  rintro ⟨out, hout, hall⟩
  have hmissing : (fetchOhlcvPaged threeHours.exchange 1 () "BTC/USD" 0 (some 7200000) 2
      "1h").toOption.map (fun r => r.1.get? 7200000) = some none := by
    decide +kernel
  rw [hout] at hmissing
  have hgot : out.get? 7200000 = some (.flat 102) := hall 7200000
  rw [Except.toOption, Option.map_some, hgot] at hmissing
  cases hmissing

end KeelTrader.Sim
