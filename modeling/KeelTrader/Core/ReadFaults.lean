import KeelTrader.Core.BuyMemory

set_option relaxedAutoImplicit false
set_option autoImplicit false

/-!
# Failed reads of the buy memory

`BuyMemory` tells a file by what reading it gives. Here the files are bytes, so that a file that
cannot be read still has what is legible in it, and a quarantined file has its name: the second at
which it was moved. `_load_buys` returns an empty memory for a file that it could not read, and the
caller then replaces the file. Only a file that was read and is not a JSON object is moved away
first.

## Main definitions

* `KeelTrader.Core.BuyFormat β` — what reading bytes gives, and what is legible in them.
* `KeelTrader.Core.FileDisk β` — the buys file and the quarantine files.
* `KeelTrader.Core.BuyFormat.recordBuyPrice`, `forgetBuy` — the operations on the files.
* `KeelTrader.Core.BuyFormat.Kept` — every record of another symbol is still in some file.
* `KeelTrader.Core.BuyFormat.Redundant` — what is overwritten is in some other file as well.

## Main results

* `KeelTrader.Core.BuyFormat.calls_simulate` — on the contents of the buys file, any calls of these
  are calls of the operations of `BuyMemory`.
* `KeelTrader.Core.BuyFormat.kept_iff` — the records are kept exactly when nothing is overwritten
  that is not redundant.

## Implementation notes

Moving a file to a name that is taken replaces the file there, as `rename` does.
-/

namespace KeelTrader.Core

variable {β : Type}

/-! ## Files as bytes -/

/-- The format of the buys file, with files of type `β`. -/
structure BuyFormat (β : Type) where
  /-- What decoding and parsing a file gives. -/
  read : β → FileContent
  /-- `json.dumps`. -/
  dump : Dict String BuyRecord → β
  /-- The record is legible under the symbol in the bytes of the file. -/
  Shows : β → String → BuyRecord → Prop
  /-- What was written is read back. -/
  read_dump : ∀ data, read (dump data) = .object data
  /-- In an object its records are legible, and no others. -/
  shows_iff : ∀ {b data}, read b = .object data → ∀ sym rec, Shows b sym rec ↔
    data.get? sym = some rec

/-- The files of the account. -/
structure FileDisk (β : Type) where
  /-- The buys file, if there is one. -/
  buys : Option β
  /-- The quarantine files, under the seconds in their names. -/
  quarantined : Dict ℤ β

/-- The file is on the disk. -/
def FileDisk.Has (d : FileDisk β) (b : β) : Prop :=
  d.buys = some b ∨ ∃ second, d.quarantined.get? second = some b

/-- A call of `record_buy_price` or `forget_buy`, with what becomes of the file and the clock
meanwhile. -/
inductive BuyCall
  | record (r : ReadOutcome) (second : ℤ) (pruneAt stampAt : ℚ) (symbol : String) (price : PyFloat)
  | forget (r : ReadOutcome) (second : ℤ) (symbol : String)

namespace BuyFormat

variable (F : BuyFormat β)

/-- `_quarantine_buy_memory_file`, in the given second. -/
def quarantineBuyMemoryFile (r : ReadOutcome) (second : ℤ) (b : β) (d : FileDisk β) :
    FileDisk β :=
  if r.moveFails then d else ⟨none, d.quarantined.set second b⟩

/-- `_load_buys`. -/
def loadBuys (r : ReadOutcome) (second : ℤ) (d : FileDisk β) :
    Dict String BuyRecord × FileDisk β :=
  match d.buys with
  | none => (.empty, d)
  | some b =>
    if r.readFails then (.empty, d)
    else
      match F.read b with
      | .undecodable => (.empty, d)
      | .notJson => (.empty, quarantineBuyMemoryFile r second b d)
      | .notObject => (.empty, quarantineBuyMemoryFile r second b d)
      | .object data => (data, d)

/-- `_save_buys`. -/
def saveBuys (data : Dict String BuyRecord) (d : FileDisk β) : FileDisk β :=
  { d with buys := some (F.dump data) }

/-- `record_buy_price`. -/
def recordBuyPrice (S : PyStr) (g : Guard) (r : ReadOutcome) (second : ℤ) (pruneAt stampAt : ℚ)
    (symbol : String) (price : PyFloat) : Raising OrderError (FileDisk β) Unit := do
  if symbol = "" ∨ price.le (.fin 0) ∨ ¬price.isFinite then pure ()
  else
    let loaded := F.loadBuys r second (← get)
    set loaded.2
    let data ← Raising.ofExcept (pruneBuys pruneAt g.buyMemorySeconds loaded.1)
    modify (F.saveBuys
      (data.set (S.upper symbol) (.record (.number price) (.number (.fin stampAt)))))

/-- `forget_buy`. -/
def forgetBuy (S : PyStr) (r : ReadOutcome) (second : ℤ) (symbol : String) :
    Raising OrderError (FileDisk β) Unit := do
  let loaded := F.loadBuys r second (← get)
  set (F.saveBuys (loaded.1.erase (S.upper symbol)) loaded.2)

/-! ## The contents of the buys file -/

section Simulation

variable {F} {S : PyStr} {g : Guard} {r : ReadOutcome} {second : ℤ} {d : FileDisk β} {disk : Disk}

/-- The buys file of the disk is what reading the bytes gives. -/
def Reads (F : BuyFormat β) (d : FileDisk β) (disk : Disk) : Prop :=
  disk.buys = d.buys.map F.read

/-- The outcomes agree, and so do the buys files afterwards. -/
def SameOutcome (F : BuyFormat β) :
    EStateM.Result OrderError (FileDisk β) Unit → EStateM.Result OrderError Disk Unit → Prop
  | .ok _ d, .ok _ disk => F.Reads d disk
  | .error e d, .error e' disk => e = e' ∧ F.Reads d disk
  | _, _ => False

/-- Loading gives the same memory. -/
lemma loadBuys_reads (h : F.Reads d disk) (r : ReadOutcome) (second : ℤ) :
    (F.loadBuys r second d).1 = (Core.loadBuys r disk).1 ∧
      F.Reads (F.loadBuys r second d).2 (Core.loadBuys r disk).2 := by
  have hquarantine : ∀ b content, F.Reads (quarantineBuyMemoryFile r second b d)
      (Core.quarantineBuyMemoryFile r content disk) := by
    intro b content
    unfold quarantineBuyMemoryFile Core.quarantineBuyMemoryFile
    split
    · exact h
    · rfl
  unfold loadBuys Core.loadBuys
  rw [show disk.buys = d.buys.map F.read from h]
  cases d.buys with
  | none => exact ⟨rfl, h⟩
  | some b =>
    dsimp only [Option.map_some]
    split
    · exact ⟨rfl, h⟩
    · cases F.read b with
      | undecodable => exact ⟨rfl, h⟩
      | notJson => exact ⟨rfl, hquarantine b _⟩
      | notObject => exact ⟨rfl, hquarantine b _⟩
      | object data => exact ⟨rfl, h⟩

/-- Saving writes the same memory. -/
lemma saveBuys_reads (F : BuyFormat β) (data : Dict String BuyRecord) (d : FileDisk β)
    (disk : Disk) : F.Reads (F.saveBuys data d) (Core.saveBuys data disk) :=
  (congrArg some (F.read_dump data)).symm

/-- On the contents of the file, recording a buy is that of `BuyMemory`. -/
theorem recordBuyPrice_simulates (h : F.Reads d disk) (pruneAt stampAt : ℚ) (symbol : String)
    (price : PyFloat) :
    F.SameOutcome (F.recordBuyPrice S g r second pruneAt stampAt symbol price d)
      (Core.recordBuyPrice S g r pruneAt stampAt symbol price disk) := by
  obtain ⟨hdata, hreads⟩ := loadBuys_reads h r second
  unfold recordBuyPrice Core.recordBuyPrice
  split
  · exact h
  · rw [Raising.bind_of_eq_ok (Raising.get_run d), Raising.bind_of_eq_ok (Raising.get_run disk),
      Raising.bind_of_eq_ok (Raising.set_run d _), Raising.bind_of_eq_ok (Raising.set_run disk _),
      hdata]
    cases pruneBuys pruneAt g.buyMemorySeconds (Core.loadBuys r disk).1 with
    | error e =>
      rw [Raising.bind_of_eq_error (Raising.ofExcept_error e _),
        Raising.bind_of_eq_error (Raising.ofExcept_error e _)]
      exact ⟨rfl, hreads⟩
    | ok data =>
      rw [Raising.bind_of_eq_ok (Raising.ofExcept_ok data _),
        Raising.bind_of_eq_ok (Raising.ofExcept_ok data _)]
      exact saveBuys_reads F _ _ _

/-- And forgetting one is. -/
theorem forgetBuy_simulates (h : F.Reads d disk) (symbol : String) :
    F.SameOutcome (F.forgetBuy S r second symbol d) (Core.forgetBuy S r symbol disk) := by
  obtain ⟨hdata, -⟩ := loadBuys_reads h r second
  unfold forgetBuy Core.forgetBuy
  rw [Raising.bind_of_eq_ok (Raising.get_run d), Raising.bind_of_eq_ok (Raising.get_run disk),
    hdata]
  exact saveBuys_reads F _ _ _

/-- The files after a call, whether or not it raises. -/
def afterCall (F : BuyFormat β) (S : PyStr) (g : Guard) (d : FileDisk β) : BuyCall → FileDisk β
  | .record r second pruneAt stampAt symbol price =>
    (F.recordBuyPrice S g r second pruneAt stampAt symbol price).after d
  | .forget r second symbol => (F.forgetBuy S r second symbol).after d

/-- What the call leaves of the contents of the buys file. -/
def contentAfter (S : PyStr) (g : Guard) (disk : Disk) : BuyCall → Disk
  | .record r _ pruneAt stampAt symbol price =>
    (Core.recordBuyPrice S g r pruneAt stampAt symbol price).after disk
  | .forget r _ symbol => (Core.forgetBuy S r symbol).after disk

/-- Calls with one outcome leave files with one content. -/
lemma SameOutcome.after {x : Raising OrderError (FileDisk β) Unit}
    {y : Raising OrderError Disk Unit} (h : F.SameOutcome (x d) (y disk)) :
    F.Reads (x.after d) (y.after disk) := by
  unfold Raising.after
  cases hx : x d <;> cases hy : y disk <;> rw [hx, hy] at h
  · exact h
  · exact h.elim
  · exact h.elim
  · exact h.2

/-- **Simulation.** On the contents of the buys file, any calls are those of `BuyMemory`. -/
theorem calls_simulate (S : PyStr) (g : Guard) (calls : List BuyCall) (h : F.Reads d disk) :
    F.Reads (calls.foldl (F.afterCall S g) d) (calls.foldl (contentAfter S g) disk) := by
  induction calls generalizing d disk with
  | nil => exact h
  | cons call calls ih =>
    refine ih ?_
    cases call with
    | record r second pruneAt stampAt symbol price =>
      exact (recordBuyPrice_simulates h pruneAt stampAt symbol price).after
    | forget r second symbol => exact (forgetBuy_simulates h symbol).after

end Simulation

/-! ## What is overwritten -/

/-- The file is no JSON object, though it was read. -/
def Corrupt (b : β) : Prop := F.read b = .notJson ∨ F.read b = .notObject

/-- The file is moved to quarantine. -/
def Moved (r : ReadOutcome) (b : β) : Prop :=
  r.readFails = false ∧ F.Corrupt b ∧ r.moveFails = false

/-- The file stays where it is, and its memory is taken to be empty. -/
def Unread (r : ReadOutcome) (b : β) : Prop :=
  r.readFails = true ∨ F.read b = .undecodable ∨ F.Corrupt b ∧ r.moveFails = true

/-- The file is overwritten: by the buys that are saved, or by the file that is moved. -/
def Overwritten (r : ReadOutcome) (second : ℤ) (d : FileDisk β) (b : β) : Prop :=
  (d.buys = some b ∧ F.Unread r b) ∨
    (d.quarantined.get? second = some b ∧ ∃ c, d.buys = some c ∧ F.Moved r c)

/-- The file is moved, or is a quarantine file that is not overwritten. -/
def Remains (r : ReadOutcome) (second : ℤ) (d : FileDisk β) (b : β) : Prop :=
  (d.buys = some b ∧ F.Moved r b) ∨
    ∃ second', d.quarantined.get? second' = some b ∧
      ∀ c, d.buys = some c → F.Moved r c → second' ≠ second

/-- The record is well formed and not expired. -/
def IsLive (g : Guard) (now : ℚ) (rec : BuyRecord) : Prop :=
  ∃ price ts, rec = .at price ts ∧ 0 < price ∧ now - ts ≤ g.buyMemorySeconds

/-- Every live record of a symbol other than `key` that was in some file still is in some file. -/
def Kept (g : Guard) (now : ℚ) (key : String) (d d' : FileDisk β) : Prop :=
  ∀ b sym rec, d.Has b → sym ≠ key → IsLive g now rec → F.Shows b sym rec →
    ∃ b', d'.Has b' ∧ F.Shows b' sym rec

/-- Every live record of a symbol other than `key` in a file that is overwritten is in another file
as well. -/
def Redundant (g : Guard) (now : ℚ) (key : String) (r : ReadOutcome) (second : ℤ)
    (d : FileDisk β) : Prop :=
  ∀ b sym rec, F.Overwritten r second d b → sym ≠ key → IsLive g now rec → F.Shows b sym rec →
    ∃ b', F.Remains r second d b' ∧ F.Shows b' sym rec

section Kept

variable {F} {S : PyStr} {g : Guard} {r : ReadOutcome} {second : ℤ} {d d' : FileDisk β}
  {now : ℚ} {key symbol : String}

/-- **Loads.** The buys file is missing, or it stays unread, or it is moved, or its object is
read. -/
theorem loadBuys_cases (F : BuyFormat β) (r : ReadOutcome) (second : ℤ) (d : FileDisk β) :
    (d.buys = none ∧ F.loadBuys r second d = (.empty, d)) ∨
    (∃ b, d.buys = some b ∧ F.Unread r b ∧ F.loadBuys r second d = (.empty, d)) ∨
    (∃ b, d.buys = some b ∧ F.Moved r b ∧
      F.loadBuys r second d = (.empty, ⟨none, d.quarantined.set second b⟩)) ∨
    (∃ b data, d.buys = some b ∧ r.readFails = false ∧ F.read b = .object data ∧
      F.loadBuys r second d = (data, d)) := by
  unfold loadBuys
  cases hbuys : d.buys with
  | none => exact .inl ⟨rfl, rfl⟩
  | some b =>
    dsimp only
    refine .inr ?_
    cases hfails : r.readFails with
    | true => exact .inl ⟨b, rfl, .inl hfails, rfl⟩
    | false =>
      rw [if_neg Bool.false_ne_true]
      have hcorrupt : F.Corrupt b →
          (F.Unread r b ∧ quarantineBuyMemoryFile r second b d = d) ∨
          (F.Moved r b ∧
            quarantineBuyMemoryFile r second b d = ⟨none, d.quarantined.set second b⟩) := by
        intro hb
        unfold quarantineBuyMemoryFile
        cases hmove : r.moveFails with
        | true => exact .inl ⟨.inr (.inr ⟨hb, hmove⟩), rfl⟩
        | false => exact .inr ⟨⟨hfails, hb, hmove⟩, rfl⟩
      cases hread : F.read b with
      | undecodable => exact .inl ⟨b, rfl, .inr (.inl hread), rfl⟩
      | object data => exact .inr (.inr ⟨b, data, rfl, rfl, hread, rfl⟩)
      | notJson =>
        rcases hcorrupt (.inl hread) with ⟨hunread, heq⟩ | ⟨hmoved, heq⟩
        · exact .inl ⟨b, rfl, hunread, congrArg (Prod.mk _) heq⟩
        · exact .inr (.inl ⟨b, rfl, hmoved, congrArg (Prod.mk _) heq⟩)
      | notObject =>
        rcases hcorrupt (.inr hread) with ⟨hunread, heq⟩ | ⟨hmoved, heq⟩
        · exact .inl ⟨b, rfl, hunread, congrArg (Prod.mk _) heq⟩
        · exact .inr (.inl ⟨b, rfl, hmoved, congrArg (Prod.mk _) heq⟩)

/-- A file that stays unread is not moved. -/
lemma Unread.not_moved {b : β} (h : F.Unread r b) : ¬F.Moved r b := by
  rintro ⟨hread, hcorrupt, hmove⟩
  rcases h with h | h | ⟨-, h⟩
  · rw [hread] at h
    cases h
  · rcases hcorrupt with hc | hc <;> rw [hc] at h <;> cases h
  · rw [hmove] at h
    cases h

/-- What is in quarantine after a load is what remains. -/
lemma quarantined_loadBuys (F : BuyFormat β) (r : ReadOutcome) (second : ℤ) (d : FileDisk β)
    (b : β) : (∃ second', (F.loadBuys r second d).2.quarantined.get? second' = some b) ↔
      F.Remains r second d b := by
  have hstays : (∀ c, d.buys = some c → ¬F.Moved r c) →
      ((∃ second', d.quarantined.get? second' = some b) ↔ F.Remains r second d b) := by
    intro hnone
    constructor
    · rintro ⟨second', hb⟩
      exact .inr ⟨second', hb, fun c hc hmoved => absurd hmoved (hnone c hc)⟩
    · rintro (⟨hb, hmoved⟩ | ⟨second', hb, -⟩)
      · exact absurd hmoved (hnone b hb)
      · exact ⟨second', hb⟩
  rcases loadBuys_cases F r second d with ⟨hbuys, hload⟩ | ⟨c, hbuys, hunread, hload⟩ |
    ⟨c, hbuys, hmoved, hload⟩ | ⟨c, data, hbuys, -, hread, hload⟩
  · rw [hload]
    refine hstays fun c hc => ?_
    rw [hbuys] at hc
    cases hc
  · rw [hload]
    refine hstays fun c' hc => ?_
    rw [hbuys] at hc
    cases hc
    exact hunread.not_moved
  · rw [hload]
    constructor
    · rintro ⟨second', hb⟩
      rw [Dict.get?_set] at hb
      by_cases hsecond : second' = second
      · rw [if_pos hsecond] at hb
        cases hb
        exact .inl ⟨hbuys, hmoved⟩
      · rw [if_neg hsecond] at hb
        exact .inr ⟨second', hb, fun _ _ _ => hsecond⟩
    · rintro (⟨hb, -⟩ | ⟨second', hb, hne⟩)
      · rw [hbuys] at hb
        cases hb
        exact ⟨second, by rw [Dict.get?_set, if_pos rfl]⟩
      · exact ⟨second', by rw [Dict.get?_set, if_neg (hne c hbuys hmoved), hb]⟩
  · rw [hload]
    refine hstays fun c' hc hmoved => ?_
    rw [hbuys] at hc
    cases hc
    rcases hmoved.2.1 with hc | hc <;> rw [hread] at hc <;> cases hc

/-- A file on the disk remains, or is overwritten, or its object is read. -/
lemma FileDisk.Has.cases {b : β} (h : d.Has b) (F : BuyFormat β) (r : ReadOutcome) (second : ℤ) :
    F.Remains r second d b ∨ F.Overwritten r second d b ∨
      F.read b = .object (F.loadBuys r second d).1 := by
  rcases h with hb | ⟨second', hb⟩
  · rcases loadBuys_cases F r second d with ⟨hbuys, -⟩ | ⟨c, hbuys, hunread, -⟩ |
      ⟨c, hbuys, hmoved, -⟩ | ⟨c, data, hbuys, -, hread, hload⟩ <;> rw [hb] at hbuys
    · cases hbuys
    · cases hbuys
      exact .inr (.inl (.inl ⟨hb, hunread⟩))
    · cases hbuys
      exact .inl (.inl ⟨hb, hmoved⟩)
    · cases hbuys
      rw [hload]
      exact .inr (.inr hread)
  · by_cases hover : second' = second ∧ ∃ c, d.buys = some c ∧ F.Moved r c
    · obtain ⟨rfl, hover⟩ := hover
      exact .inr (.inl (.inr ⟨hb, hover⟩))
    · refine .inl (.inr ⟨second', hb, fun c hc hmoved hsecond => hover ⟨hsecond, c, hc, hmoved⟩⟩)

/-- A file is overwritten when nothing was read. -/
lemma Overwritten.loadBuys {b : β} (h : F.Overwritten r second d b) :
    d.Has b ∧ (F.loadBuys r second d).1 = .empty := by
  have hhas : d.Has b := by
    rcases h with ⟨hb, -⟩ | ⟨hb, -⟩
    · exact .inl hb
    · exact .inr ⟨second, hb⟩
  refine ⟨hhas, ?_⟩
  rcases loadBuys_cases F r second d with ⟨-, hload⟩ | ⟨c, -, -, hload⟩ | ⟨c, -, -, hload⟩ |
    ⟨c, data, hbuys, hfails, hread, -⟩
  · rw [hload]
  · rw [hload]
  · rw [hload]
  · -- an object that is read is not overwritten, and moves nothing
    rcases h with ⟨hb, hunread⟩ | ⟨-, c', hc', hmoved⟩
    · rw [hbuys] at hb
      cases hb
      rcases hunread with hu | hu | ⟨hu | hu, -⟩
      · rw [hfails] at hu
        cases hu
      all_goals
        rw [hread] at hu
        cases hu
    · rw [hbuys] at hc'
      cases hc'
      rcases hmoved.2.1 with hu | hu <;> rw [hread] at hu <;> cases hu

/-- **Saves.** A save of what was loaded, without the records of `key` and some that are not live,
keeps the records exactly when what is overwritten is redundant. -/
theorem kept_saveBuys_iff {data : Dict String BuyRecord}
    (hsub : ∀ sym rec, sym ≠ key → data.get? sym = some rec →
      (F.loadBuys r second d).1.get? sym = some rec)
    (hkeep : ∀ sym rec, sym ≠ key → IsLive g now rec →
      (F.loadBuys r second d).1.get? sym = some rec → data.get? sym = some rec) :
    F.Kept g now key d (F.saveBuys data (F.loadBuys r second d).2) ↔
      F.Redundant g now key r second d := by
  constructor
  · intro hkept b sym rec hover hsym hlive hshows
    obtain ⟨hhas, hempty⟩ := hover.loadBuys
    obtain ⟨b', hb' | hb', hshows'⟩ := hkept b sym rec hhas hsym hlive hshows
    · cases hb'
      have hget := hsub sym rec hsym ((F.shows_iff (F.read_dump data) sym rec).mp hshows')
      rw [hempty] at hget
      cases hget
    · exact ⟨b', (quarantined_loadBuys F r second d b').mp hb', hshows'⟩
  · intro hredundant b sym rec hhas hsym hlive hshows
    rcases FileDisk.Has.cases hhas F r second with hremains | hover | hread
    · exact ⟨b, .inr ((quarantined_loadBuys F r second d b).mpr hremains), hshows⟩
    · obtain ⟨b', hb', hshows'⟩ := hredundant b sym rec hover hsym hlive hshows
      exact ⟨b', .inr ((quarantined_loadBuys F r second d b').mpr hb'), hshows'⟩
    · refine ⟨F.dump data, .inl rfl, (F.shows_iff (F.read_dump data) sym rec).mpr ?_⟩
      exact hkeep sym rec hsym hlive ((F.shows_iff hread sym rec).mp hshows)

/-- A record that is live is fresh. -/
lemma IsLive.fresh {rec : BuyRecord} (h : IsLive g now rec) :
    rec.fresh now g.buyMemorySeconds = true := by
  obtain ⟨price, ts, rfl, -, hfresh⟩ := h
  simpa using hfresh

/-- **Failed reads.** Recording a buy, and forgetting one, keeps the live records of the other
symbols exactly when every file that is overwritten is redundant. -/
theorem kept_iff (F : BuyFormat β) (S : PyStr) (g : Guard) (r : ReadOutcome) (second : ℤ)
    (symbol : String) (d d' : FileDisk β) :
    (∀ pruneAt stampAt price, PyFloat.lt (.fin 0) price = true →
      F.recordBuyPrice S g r second pruneAt stampAt symbol price d = .ok () d' →
      (F.Kept g pruneAt (S.upper symbol) d d' ↔
        (symbol ≠ "" ∧ price.isFinite = true →
          F.Redundant g pruneAt (S.upper symbol) r second d))) ∧
    (∀ now, F.forgetBuy S r second symbol d = .ok () d' →
      (F.Kept g now (S.upper symbol) d d' ↔ F.Redundant g now (S.upper symbol) r second d)) := by
  constructor
  · intro pruneAt stampAt price hprice h
    unfold recordBuyPrice at h
    split at h
    · next hskip =>
      cases h
      refine iff_of_true (fun b sym rec hhas _ _ hshows => ⟨b, hhas, hshows⟩) fun hwrites => ?_
      obtain ⟨q, rfl, hq⟩ := PyFloat.eq_fin_of_pos hwrites.2 hprice
      rcases hskip with hskip | hskip | hskip
      · exact absurd hskip hwrites.1
      · exact absurd hq (not_lt.mpr (by simpa using hskip))
      · exact absurd hwrites.2 hskip
    · next hwrites =>
      rw [Raising.bind_of_eq_ok (Raising.get_run d),
        Raising.bind_of_eq_ok (Raising.set_run d _)] at h
      obtain ⟨pruned, t, hpruned, h⟩ := Raising.bind_eq_ok.mp h
      have hfilter : pruned = (F.loadBuys r second d).1.filter (fun _ rec =>
          rec.fresh pruneAt g.buyMemorySeconds) ∧ t = (F.loadBuys r second d).2 := by
        unfold pruneBuys at hpruned
        split at hpruned <;> cases hpruned
        exact ⟨rfl, rfl⟩
      obtain ⟨rfl, rfl⟩ := hfilter
      cases h
      rw [not_or, not_or, not_not] at hwrites
      refine (kept_saveBuys_iff (fun sym rec hsym hget => ?_)
        fun sym rec hsym hlive hget => ?_).trans ⟨fun hred _ => hred, fun hred =>
          hred ⟨hwrites.1, hwrites.2.2⟩⟩
      · rw [Dict.get?_set, if_neg hsym, Dict.get?_filter, Option.filter_eq_some_iff] at hget
        exact hget.1
      · rw [Dict.get?_set, if_neg hsym, Dict.get?_filter, Option.filter_eq_some_iff]
        exact ⟨hget, hlive.fresh⟩
  · intro now h
    cases h
    refine kept_saveBuys_iff (fun sym rec hsym hget => ?_) fun sym rec hsym _ hget => ?_
    · rwa [Dict.get?_erase, if_neg hsym] at hget
    · rwa [Dict.get?_erase, if_neg hsym]

end Kept

/-! ## A read error -/

/-- Files that hold nothing but their contents. -/
def plain : BuyFormat FileContent where
  read := id
  dump := .object
  Shows content sym rec :=
    match content with
    | .object data => data.get? sym = some rec
    | _ => False
  read_dump _ := rfl
  shows_iff := by
    intro content data h sym rec
    change content = .object data at h
    rw [h]

/-- A disk with the records of `MSFT` and `AAPL`. -/
def twoBuys : FileDisk FileContent :=
  ⟨some (.object (.ofList [("MSFT", .at 100 0), ("AAPL", .at 50 0)])), .empty⟩

/-- The price of `MSFT` is live at time `10`, and legible in the file. -/
lemma shows_twoBuys (g : Guard) (hg : g.state = none) : ∃ rec content, IsLive g 10 rec ∧
    twoBuys.Has content ∧ plain.Shows content "MSFT" rec := by
  refine ⟨.at 100 0, _, ⟨100, 0, rfl, by norm_num, ?_⟩, .inl rfl,
    Dict.get?_ofList (by decide) (by simp)⟩
  rw [Guard.buyMemorySeconds, hg]
  norm_num [defaultBuyMemorySeconds]

/-- The read fails once: whether a buy of `AAPL` is recorded or forgotten then, the buy of `MSFT`
is gone. -/
theorem not_kept_readError :
    let g : Guard := ⟨false, none⟩
    let r : ReadOutcome := ⟨true, false⟩
    (∃ d', plain.recordBuyPrice .ascii g r 0 10 10 "AAPL" (.fin 60) twoBuys = .ok () d' ∧
      ¬plain.Kept g 10 "AAPL" twoBuys d') ∧
    ∃ d', plain.forgetBuy .ascii r 0 "AAPL" twoBuys = .ok () d' ∧
      ¬plain.Kept g 10 "AAPL" twoBuys d' := by
  intro g r
  obtain ⟨rec, content, hlive, hhas, hshows⟩ := shows_twoBuys g rfl
  refine ⟨⟨_, rfl, fun hkept => ?_⟩, ⟨_, rfl, fun hkept => ?_⟩⟩
  all_goals
    obtain ⟨b', hb' | ⟨second, hb'⟩, hshows'⟩ :=
      hkept content "MSFT" rec hhas (by decide) hlive hshows
    · cases hb'
      cases hshows'
    · cases hb'

/-- A read that succeeds: the buy of `MSFT` is kept, by both operations. -/
theorem kept_iff_twoBuys :
    let g : Guard := ⟨false, none⟩
    let r : ReadOutcome := ⟨false, false⟩
    (∃ d', plain.recordBuyPrice .ascii g r 0 10 10 "AAPL" (.fin 60) twoBuys = .ok () d' ∧
      plain.Kept g 10 "AAPL" twoBuys d') ∧
    ∃ d', plain.forgetBuy .ascii r 0 "AAPL" twoBuys = .ok () d' ∧
      plain.Kept g 10 "AAPL" twoBuys d' := by
  intro g r
  have hredundant : plain.Redundant g 10 "AAPL" r 0 twoBuys := by
    intro b sym rec hover
    rcases hover with ⟨hb, hunread⟩ | ⟨hb, -⟩
    · cases hb
      rcases hunread with hu | hu | ⟨hu | hu, -⟩ <;> cases hu
    · cases hb
  have hkept := kept_iff plain .ascii g r 0 "AAPL" twoBuys
  exact ⟨⟨_, rfl, ((hkept _).1 10 10 (.fin 60) rfl rfl).mpr fun _ => hredundant⟩,
    ⟨_, rfl, ((hkept _).2 10 rfl).mpr hredundant⟩⟩

end BuyFormat

end KeelTrader.Core
