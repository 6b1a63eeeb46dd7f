import KeelTrader.Lib.Dict
import KeelTrader.Lib.Expiring
import KeelTrader.Lib.PyValue
import KeelTrader.Lib.Raising

set_option relaxedAutoImplicit false
set_option autoImplicit false

/-!
# Buy memory and the death-spiral guard

The file of remembered buys of one account and the functions of `core/alpaca_singleton.py` that
read and write it: loading with quarantine, pruning, recording a buy, forgetting, and the guard
that refuses a sell too far below the last buy.

## Main definitions

* `KeelTrader.Core.Disk` — the buys file and the quarantined files.
* `KeelTrader.Core.loadBuys`, `pruneBuys`, `saveBuys` — one access to the file each.
* `KeelTrader.Core.recordBuyPrice`, `forgetBuy`, `forgetAllBuys`,
  `guardSellAgainstDeathSpiral` — the public operations.
* `KeelTrader.Core.Disk.Clean` — the file is absent or holds finite positive records only.
* `KeelTrader.Core.Guard.Refuses` — when a sell is too far below a remembered buy.
* `KeelTrader.Core.Disk.remembered` — the expiring memory that the files implement.

## Main results

* `KeelTrader.Core.guardSell_spec` — on a clean disk the guard prunes, and raises exactly when
  it refuses.
* `KeelTrader.Core.recordBuyPrice_spec` — on a clean disk a recorded buy prunes and writes its
  key.
* `KeelTrader.Core.Disk.PrunedTo.remembered`, `Disk.Recorded.remembered` — on the expiring
  memory these are a prune, and a prune followed by a write.
* `KeelTrader.Core.guardSell_error_iff` — on any disk, when the guard raises.

## Implementation notes

Clock readings and the outcome of reading the file are arguments. Strings are Unicode strings,
so a file that was written is read back as it was. Each operation runs by itself here; the threads
and processes that share the file are in `SharedBuys`. The `iso` field of a record is never read
and is left out.
-/

namespace KeelTrader.Core

/-! ## Exceptions -/

/-- What the effective tolerance of the guard was taken from. -/
inductive Basis where
  /-- The configured tolerance. -/
  | base
  /-- The widened tolerance, from the volatility and its multiplier. -/
  | atr (atrPct mult : ℚ)
  deriving DecidableEq, Repr

/-- The exceptions of the order path, one constructor for each place that raises. -/
inductive OrderError where
  /-- `OrderRejectedError`: "invalid side …; expected buy/sell". -/
  | invalidSide (side : String)
  /-- `OrderRejectedError`: "missing symbol". -/
  | missingSymbol
  /-- `OrderRejectedError`: "qty must be > 0, got …". -/
  | badQty (qty : PyFloat)
  /-- `OrderRejectedError`: "price must be > 0, got …". -/
  | badPrice (price : PyFloat)
  /-- `RuntimeError`: "alpaca_singleton: refusing death-spiral SELL of … at … (last buy …,
  floor …, tolerance … bps, basis=…)". -/
  | deathSpiral (symbol : String) (price buyPrice floor : PyFloat) (tolBps : ℚ) (basis : Basis)
  /-- `TypeError` or `ValueError`: a field of a record that `float` does not accept. -/
  | malformedRecord
  deriving DecidableEq, Repr

/-- The exception is the refusal of the death-spiral guard. -/
def OrderError.isDeathSpiral : OrderError → Bool
  | .deathSpiral .. => true
  | _ => false

/-- The exception is an `OrderRejectedError`. -/
def OrderError.isRejected : OrderError → Bool
  | .invalidSide _ | .missingSymbol | .badQty _ | .badPrice _ => true
  | .deathSpiral .. | .malformedRecord => false

/-- A rejection is not the refusal of the guard. -/
lemma OrderError.not_isDeathSpiral_of_isRejected {e : OrderError} (h : e.isRejected = true) :
    e.isDeathSpiral = false := by
  cases e <;> first | rfl | cases h

/-! ## The buys file -/

/-- A numeric field of a record: missing, a value `float` accepts, or one it does not. -/
inductive JsonNumber where
  /-- The field is missing. -/
  | absent
  /-- A value that `float` converts. -/
  | number (x : PyFloat)
  /-- A value that `float` raises on. -/
  | malformed
  deriving DecidableEq, Repr

/-- `float(rec.get(field, default))`. -/
def JsonNumber.toFloat (default : ℚ) : JsonNumber → Except OrderError PyFloat
  | .absent => .ok (.fin default)
  | .number x => .ok x
  | .malformed => .error .malformedRecord

/-- A value of the buys object. -/
inductive BuyRecord where
  /-- A JSON object, with its `price` and `ts` fields. -/
  | record (price ts : JsonNumber)
  /-- Any other JSON value. -/
  | notDict
  deriving DecidableEq, Repr

/-- The record that a buy at `price`, stamped `ts`, leaves. -/
def BuyRecord.at (price ts : ℚ) : BuyRecord :=
  .record (.number (.fin price)) (.number (.fin ts))

/-- What a buys file can hold. -/
inductive FileContent where
  /-- A JSON object. -/
  | object (data : Dict String BuyRecord)
  /-- JSON that is not an object. -/
  | notObject
  /-- Text that is not JSON. -/
  | notJson
  /-- Bytes that are not text. -/
  | undecodable
  deriving DecidableEq

/-- The files of the account. -/
structure Disk where
  /-- The buys file, if there is one. -/
  buys : Option FileContent
  /-- The files moved out of the way, oldest first. -/
  quarantined : List FileContent

/-- How the operating system answers while a file is loaded. -/
structure ReadOutcome where
  /-- Reading the file raises. -/
  readFails : Bool
  /-- Moving the file to quarantine raises. -/
  moveFails : Bool

/-- `_quarantine_buy_memory_file`. -/
def quarantineBuyMemoryFile (r : ReadOutcome) (content : FileContent) (disk : Disk) : Disk :=
  if r.moveFails then disk else ⟨none, disk.quarantined ++ [content]⟩

/-- `_load_buys`: the data, and the files afterwards. -/
def loadBuys (r : ReadOutcome) (disk : Disk) : Dict String BuyRecord × Disk :=
  match disk.buys with
  | none => (.empty, disk)
  | some content =>
    if r.readFails then (.empty, disk)
    else
      match content with
      | .undecodable => (.empty, disk)
      | .notJson => (.empty, quarantineBuyMemoryFile r .notJson disk)
      | .notObject => (.empty, quarantineBuyMemoryFile r .notObject disk)
      | .object data => (data, disk)

/-- `_save_buys`. -/
def saveBuys (data : Dict String BuyRecord) (disk : Disk) : Disk :=
  { disk with buys := some (.object data) }

/-- The time stamp of the record is one that `float` raises on. -/
def BuyRecord.badTs : BuyRecord → Bool
  | .record _ .malformed => true
  | _ => false

/-- The record is an object and is at most `maxAgeSeconds` old. -/
def BuyRecord.fresh (now maxAgeSeconds : ℚ) : BuyRecord → Bool
  | .record _ ts =>
    match ts.toFloat 0 with
    | .ok ts => (PyFloat.sub (.fin now) ts).le (.fin maxAgeSeconds)
    | .error _ => false
  | .notDict => false

/-- `_prune_buys`, at the clock reading `now`. -/
def pruneBuys (now maxAgeSeconds : ℚ) (data : Dict String BuyRecord) :
    Except OrderError (Dict String BuyRecord) :=
  if data.entries.any fun e => e.2.badTs then .error .malformedRecord
  else .ok (data.filter fun _ r => r.fresh now maxAgeSeconds)

/-! ## Configuration -/

/-- `DEFAULT_DEATH_SPIRAL_TOLERANCE_BPS`. -/
def defaultDeathSpiralToleranceBps : ℚ := 300

/-- `DEFAULT_ATR_TOLERANCE_MULT`. -/
def defaultAtrToleranceMult : ℚ := 3

/-- `DEFAULT_BUY_MEMORY_SECONDS`: three days. -/
def defaultBuyMemorySeconds : ℤ := 60 * 60 * 24 * 3

/-- The fields of `SingletonState` that the guard reads. -/
structure SingletonState where
  deathSpiralToleranceBps : ℚ := defaultDeathSpiralToleranceBps
  atrToleranceMult : ℚ := defaultAtrToleranceMult
  buyMemorySeconds : ℤ := defaultBuyMemorySeconds

/-- What the process has configured: the override flag and `_STATE`. -/
structure Guard where
  /-- One of `DEATH_SPIRAL_OVERRIDE_ENV_VARS` is set. -/
  override : Bool
  /-- `_STATE`. -/
  state : Option SingletonState

/-- `_current_buy_memory_seconds`. -/
def Guard.buyMemorySeconds (g : Guard) : ℤ :=
  match g.state with
  | none => defaultBuyMemorySeconds
  | some state => state.buyMemorySeconds

/-- The optional arguments of the guard. -/
structure GuardArgs where
  toleranceBps : Option ℚ := none
  atrPct : Option PyFloat := none
  atrToleranceMult : Option ℚ := none

/-- `base_bps`: the explicit tolerance, the configured one or the default. -/
def Guard.baseBps (g : Guard) (args : GuardArgs) : ℚ :=
  match args.toleranceBps, g.state with
  | some tolerance, _ => tolerance
  | none, some state => state.deathSpiralToleranceBps
  | none, none => defaultDeathSpiralToleranceBps

/-- `mult`: the explicit multiplier, the configured one or the default. -/
def Guard.atrMult (g : Guard) (args : GuardArgs) : ℚ :=
  match args.atrToleranceMult, g.state with
  | some mult, _ => mult
  | none, some state => state.atrToleranceMult
  | none, none => defaultAtrToleranceMult

/-- The effective tolerance: the base, widened (never tightened) by the volatility. -/
def Guard.tolBps (g : Guard) (args : GuardArgs) : ℚ × Basis :=
  match args.atrPct with
  | some (.fin atrPct) =>
    let volBps := g.atrMult args * atrPct * 10000
    if atrPct > 0 ∧ volBps > g.baseBps args then (volBps, .atr atrPct (g.atrMult args))
    else (g.baseBps args, .base)
  | _ => (g.baseBps args, .base)

/-! ## The operations -/

/-- `record_buy_price`, with the clock readings of its prune and of its stamp. -/
def recordBuyPrice (S : PyStr) (g : Guard) (r : ReadOutcome) (pruneAt stampAt : ℚ)
    (symbol : String) (price : PyFloat) : Raising OrderError Disk Unit := do
  if symbol = "" ∨ price.le (.fin 0) ∨ ¬price.isFinite then pure ()
  else
    let loaded := loadBuys r (← get)
    set loaded.2
    let data ← Raising.ofExcept (pruneBuys pruneAt g.buyMemorySeconds loaded.1)
    modify (saveBuys (data.set (S.upper symbol) (.record (.number price) (.number (.fin stampAt)))))

/-- `forget_buy`. -/
def forgetBuy (S : PyStr) (r : ReadOutcome) (symbol : String) : Raising OrderError Disk Unit := do
  let loaded := loadBuys r (← get)
  set (saveBuys (loaded.1.erase (S.upper symbol)) loaded.2)

/-- `forget_all_buys`. -/
def forgetAllBuys : Raising OrderError Disk Unit := modify (saveBuys .empty)

/-- The comparison of a sell with the record of its symbol, if there is one. -/
def checkFloor (g : Guard) (args : GuardArgs) (symbol : String) (price : PyFloat) :
    Option BuyRecord → Raising OrderError Disk Unit
  -- no recent buy on record: nothing to compare against
  | none => pure ()
  | some .notDict => throw .malformedRecord
  | some (.record recPrice _) => do
    let buyPrice ← Raising.ofExcept (recPrice.toFloat 0)
    if buyPrice.le (.fin 0) then pure ()
    else
      let floor := buyPrice.scale (1 - (g.tolBps args).1 / 10000)
      if price.lt floor then
        throw (.deathSpiral symbol price buyPrice floor (g.tolBps args).1 (g.tolBps args).2)
      else pure ()

/-- `guard_sell_against_death_spiral`, with the clock reading of its prune. -/
def guardSellAgainstDeathSpiral (S : PyStr) (g : Guard) (r : ReadOutcome) (now : ℚ)
    (symbol side : String) (price : PyFloat) (args : GuardArgs) :
    Raising OrderError Disk Unit := do
  if side = "" then pure ()
  else if S.norm side ≠ "sell" ∧ S.norm side ≠ "short" then pure ()
  else if symbol = "" ∨ ¬price.isFinite ∨ price.le (.fin 0) then pure ()
  else if g.override then pure ()
  else
    let loaded := loadBuys r (← get)
    set loaded.2
    let pruned ← Raising.ofExcept (pruneBuys now g.buyMemorySeconds loaded.1)
    if pruned ≠ loaded.1 then modify (saveBuys pruned) else pure ()
    checkFloor g args symbol price (pruned.get? (S.upper symbol))

/-! ## The operations at a positive price -/

/-- Some record has a time stamp that `float` raises on. -/
def hasBadTs (data : Dict String BuyRecord) : Bool := data.entries.any fun e => e.2.badTs

section Positive

variable {g : Guard} {symbol : String} {p now : ℚ}

/-- A prune raises at a time stamp that is no number. -/
lemma pruneBuys_of_hasBadTs {maxAge : ℚ} {data : Dict String BuyRecord}
    (h : hasBadTs data = true) : pruneBuys now maxAge data = .error .malformedRecord :=
  if_pos h

/-- Any other prune returns the records that are fresh. -/
lemma pruneBuys_of_not_hasBadTs {maxAge : ℚ} {data : Dict String BuyRecord}
    (h : hasBadTs data = false) :
    pruneBuys now maxAge data = .ok (data.filter fun _ rec => rec.fresh now maxAge) :=
  if_neg (by rw [← hasBadTs, h]; exact Bool.false_ne_true)

/-- A buy at a positive price is recorded after a load and a prune. -/
lemma recordBuyPrice_of_pos (hsymbol : symbol ≠ "") (hp : 0 < p) (S : PyStr) (g : Guard)
    (r : ReadOutcome) (pruneAt stampAt : ℚ) (disk : Disk) :
    recordBuyPrice S g r pruneAt stampAt symbol (.fin p) disk =
      match pruneBuys pruneAt g.buyMemorySeconds (loadBuys r disk).1 with
      | .ok data =>
        .ok () (saveBuys (data.set (S.upper symbol) (.at p stampAt)) (loadBuys r disk).2)
      | .error e => .error e (loadBuys r disk).2 := by
  have hnot : ¬p ≤ 0 := not_le.mpr hp
  unfold recordBuyPrice
  simp only [hsymbol, PyFloat.le_fin, hnot, decide_false, Bool.false_eq_true,
    PyFloat.isFinite_fin, not_true_eq_false, or_self, ↓reduceIte]
  rw [Raising.bind_of_eq_ok (Raising.get_run disk), Raising.bind_of_eq_ok (Raising.set_run disk _)]
  cases pruneBuys pruneAt g.buyMemorySeconds (loadBuys r disk).1 with
  | ok data => exact Raising.bind_of_eq_ok (Raising.ofExcept_ok data _)
  | error e => exact Raising.bind_of_eq_error (Raising.ofExcept_error e _)

/-- A sell at a positive price is compared after a load and a prune, unless it is overridden. -/
lemma guardSell_of_pos (hoverride : g.override = false) (hsymbol : symbol ≠ "") (hp : 0 < p)
    (S : PyStr) (r : ReadOutcome) (now : ℚ) (args : GuardArgs) (disk : Disk) :
    guardSellAgainstDeathSpiral S g r now symbol "sell" (.fin p) args disk =
      match pruneBuys now g.buyMemorySeconds (loadBuys r disk).1 with
      | .ok pruned =>
        checkFloor g args symbol (.fin p) (pruned.get? (S.upper symbol))
          (if pruned ≠ (loadBuys r disk).1 then saveBuys pruned (loadBuys r disk).2
            else (loadBuys r disk).2)
      | .error e => .error e (loadBuys r disk).2 := by
  have hnot : ¬p ≤ 0 := not_le.mpr hp
  unfold guardSellAgainstDeathSpiral
  simp only [String.reduceEq, PyStr.norm_sell, ne_eq, not_true_eq_false, false_and, hsymbol,
    PyFloat.isFinite_fin, PyFloat.le_fin, hnot, decide_false, hoverride, Bool.false_eq_true,
    or_self, ↓reduceIte]
  rw [Raising.bind_of_eq_ok (Raising.get_run disk), Raising.bind_of_eq_ok (Raising.set_run disk _)]
  cases pruneBuys now g.buyMemorySeconds (loadBuys r disk).1 with
  | error e => exact Raising.bind_of_eq_error (Raising.ofExcept_error e _)
  | ok pruned =>
    rw [Raising.bind_of_eq_ok (Raising.ofExcept_ok pruned _)]
    by_cases hchanged : pruned = (loadBuys r disk).1
    · simp [hchanged]
    · simp only [hchanged, not_false_eq_true, ↓reduceIte]
      exact Raising.bind_of_eq_ok rfl

end Positive

/-! ## Clean disks -/

/-- The records on disk. -/
def Disk.memory (disk : Disk) : Dict String BuyRecord :=
  match disk.buys with
  | some (.object data) => data
  | _ => .empty

/-- The buys file is absent or an object, and every record in it has a finite positive price
and a finite time stamp. -/
structure Disk.Clean (disk : Disk) : Prop where
  /-- What there is to read is an object. -/
  readable : ∀ content, disk.buys = some content → ∃ data, content = .object data
  /-- Every record is well formed. -/
  records : ∀ key rec, disk.memory.get? key = some rec →
    ∃ price ts, rec = BuyRecord.at price ts ∧ 0 < price

/-- The records on disk that are fresh at `now`. -/
def Disk.freshAt (g : Guard) (now : ℚ) (disk : Disk) : Dict String BuyRecord :=
  disk.memory.filter fun _ rec => rec.fresh now g.buyMemorySeconds

/-- `disk'` is clean and holds the records of `disk` that are fresh at `now`. -/
structure Disk.PrunedTo (g : Guard) (now : ℚ) (disk disk' : Disk) : Prop where
  /-- The file can be read again. -/
  clean : disk'.Clean
  /-- Each key keeps its record exactly when it is fresh. -/
  get? : ∀ key, disk'.memory.get? key =
    (disk.memory.get? key).filter (BuyRecord.fresh now g.buyMemorySeconds)

/-- `disk'` is clean and holds the fresh records of `disk`, with one written under `key`. -/
structure Disk.Recorded (g : Guard) (now : ℚ) (key : String) (price stampAt : ℚ)
    (disk disk' : Disk) : Prop where
  /-- The file can be read again. -/
  clean : disk'.Clean
  /-- The key has the new record, and the others keep theirs exactly when it is fresh. -/
  get? : ∀ key', disk'.memory.get? key' = if key' = key then some (.at price stampAt)
    else (disk.memory.get? key').filter (BuyRecord.fresh now g.buyMemorySeconds)

/-- The price and the time stamp of a well-formed record. -/
def BuyRecord.remembered : BuyRecord → Option (PyFloat × ℚ)
  | .record (.number price) (.number (.fin ts)) => some (price, ts)
  | _ => none

/-- The expiring memory that the files implement: the price last paid under each key. -/
def Disk.remembered (disk : Disk) : Expiring.Memory String PyFloat ℚ :=
  fun key => (disk.memory.get? key).bind BuyRecord.remembered

/-- A sell of the symbol `key` at `price` is below the floor of a remembered buy. -/
def Guard.Refuses (g : Guard) (now : ℚ) (disk : Disk) (args : GuardArgs) (key : String)
    (price : ℚ) : Prop :=
  ∃ buyPrice ts, disk.memory.get? key = some (.at buyPrice ts) ∧
    now - ts ≤ g.buyMemorySeconds ∧ price < buyPrice * (1 - (g.tolBps args).1 / 10000)

@[simp] lemma BuyRecord.fresh_at (now maxAge price ts : ℚ) :
    (BuyRecord.at price ts).fresh now maxAge = decide (now - ts ≤ maxAge) := rfl

@[simp] lemma BuyRecord.badTs_at (price ts : ℚ) : (BuyRecord.at price ts).badTs = false := rfl

@[simp] lemma BuyRecord.remembered_at (price ts : ℚ) :
    (BuyRecord.at price ts).remembered = some (.fin price, ts) := rfl

@[simp] lemma memory_saveBuys (data : Dict String BuyRecord) (disk : Disk) :
    (saveBuys data disk).memory = data := rfl

lemma Disk.get?_freshAt (g : Guard) (now : ℚ) (disk : Disk) (key : String) :
    (disk.freshAt g now).get? key =
      (disk.memory.get? key).filter (BuyRecord.fresh now g.buyMemorySeconds) :=
  Dict.get?_filter _ _ _

/-- A file of well-formed records is clean. -/
lemma clean_saveBuys {data : Dict String BuyRecord} {disk : Disk}
    (h : ∀ key rec, data.get? key = some rec →
      ∃ price ts, rec = BuyRecord.at price ts ∧ 0 < price) : (saveBuys data disk).Clean where
  readable := by
    intro content hcontent
    exact ⟨data, (Option.some.inj hcontent).symm⟩
  records := h

section Clean

variable {S : PyStr} {g : Guard} {r : ReadOutcome} {disk : Disk} {now : ℚ} {symbol : String}
  {price : ℚ}

/-- Loading a clean disk that can be read gives its records and changes nothing. -/
lemma loadBuys_of_clean (h : disk.Clean) (hr : r.readFails = false) :
    loadBuys r disk = (disk.memory, disk) := by
  unfold loadBuys Disk.memory
  cases hbuys : disk.buys with
  | none => rfl
  | some content =>
    obtain ⟨data, rfl⟩ := h.readable content hbuys
    simp [hr]

/-- Pruning a clean disk does not raise. -/
lemma pruneBuys_of_clean (h : disk.Clean) (g : Guard) (now : ℚ) :
    pruneBuys now g.buyMemorySeconds disk.memory = .ok (disk.freshAt g now) := by
  have hany : (disk.memory.entries.any fun e => e.2.badTs) = false := by
    rw [List.any_eq_false]
    rintro ⟨key, rec⟩ hmem
    obtain ⟨p, ts, rfl, -⟩ := h.records key rec (Dict.get?_eq_some_iff.mpr hmem)
    simp
  unfold pruneBuys Disk.freshAt
  simp [hany]

/-- The fresh records of a clean disk are well formed. -/
lemma Disk.Clean.freshAt (h : disk.Clean) (g : Guard) (now : ℚ) (key : String)
    (rec : BuyRecord) (hrec : (disk.freshAt g now).get? key = some rec) :
    ∃ price ts, rec = BuyRecord.at price ts ∧ 0 < price := by
  rw [Disk.get?_freshAt, Option.filter_eq_some_iff] at hrec
  exact h.records key rec hrec.1

/-- A buy passes the guard untouched. -/
lemma guardSell_of_buy (S : PyStr) (g : Guard) (r : ReadOutcome) (now : ℚ) (symbol : String)
    (price : PyFloat) (args : GuardArgs) :
    guardSellAgainstDeathSpiral S g r now symbol "buy" price args = pure () := by
  unfold guardSellAgainstDeathSpiral
  simp

/-- The comparison with a well-formed record. -/
lemma checkFloor_at (g : Guard) (args : GuardArgs) (symbol : String) (price : ℚ)
    {buyPrice : ℚ} (hbuy : 0 < buyPrice) (ts : ℚ) :
    checkFloor g args symbol (.fin price) (some (.at buyPrice ts)) =
      if price < buyPrice * (1 - (g.tolBps args).1 / 10000) then
        throw (.deathSpiral symbol (.fin price) (.fin buyPrice)
          (.fin (buyPrice * (1 - (g.tolBps args).1 / 10000))) (g.tolBps args).1
          (g.tolBps args).2)
      else pure () := by
  have hnot : ¬buyPrice ≤ 0 := not_le.mpr hbuy
  funext s
  simp only [checkFloor, BuyRecord.at, JsonNumber.toFloat]
  rw [Raising.bind_of_eq_ok (Raising.ofExcept_ok _ s)]
  by_cases hlt : price < buyPrice * (1 - (g.tolBps args).1 / 10000) <;> simp [hnot, hlt]

/-- Whether or not pruning changed anything, what is then on disk is the fresh records. -/
lemma prunedTo_ite (hclean : disk.Clean) (g : Guard) (now : ℚ) :
    disk.PrunedTo g now
      (if disk.freshAt g now ≠ disk.memory then saveBuys (disk.freshAt g now) disk else disk) := by
  by_cases hchanged : disk.freshAt g now ≠ disk.memory
  · rw [if_pos hchanged]
    exact ⟨clean_saveBuys (hclean.freshAt g now), disk.get?_freshAt g now⟩
  · rw [if_neg hchanged]
    refine ⟨hclean, fun key => ?_⟩
    rw [← Disk.get?_freshAt, not_not.mp hchanged]

/-- **The guard on a clean disk.** It keeps the fresh records, and raises exactly when it
refuses the sell. -/
theorem guardSell_spec (hoverride : g.override = false) (hr : r.readFails = false)
    (hclean : disk.Clean) (hsymbol : symbol ≠ "") (hprice : 0 < price) (now : ℚ)
    (args : GuardArgs) : Raising.Spec (· = disk)
      (guardSellAgainstDeathSpiral S g r now symbol "sell" (.fin price) args)
      (fun _ disk' => disk.PrunedTo g now disk' ∧
        ¬g.Refuses now disk args (S.upper symbol) price)
      (fun e disk' => disk.PrunedTo g now disk' ∧
        g.Refuses now disk args (S.upper symbol) price ∧
        ∃ buyPrice floor tol basis,
          e = .deathSpiral symbol (.fin price) buyPrice floor tol basis) := by
  rintro s rfl
  have hsaved := prunedTo_ite hclean g now
  have hrun := guardSell_of_pos hoverride hsymbol hprice S r now args s
  rw [loadBuys_of_clean hclean hr, pruneBuys_of_clean hclean] at hrun
  dsimp only at hrun
  rw [hrun]
  cases hget : (s.freshAt g now).get? (S.upper symbol) with
  | none =>
    refine ⟨hsaved, ?_⟩
    rintro ⟨buyPrice, ts, hmem, hfresh, -⟩
    rw [Disk.get?_freshAt, hmem] at hget
    simp [hfresh] at hget
  | some rec =>
    obtain ⟨buyPrice, ts, rfl, hbuy⟩ := hclean.freshAt g now _ _ hget
    rw [Disk.get?_freshAt, Option.filter_eq_some_iff] at hget
    obtain ⟨hmem, hfresh⟩ := hget
    have hrefuses : g.Refuses now s args (S.upper symbol) price ↔
        price < buyPrice * (1 - (g.tolBps args).1 / 10000) := by
      constructor
      · rintro ⟨buyPrice', ts', hmem', -, hlt⟩
        rw [hmem] at hmem'
        cases hmem'
        exact hlt
      · intro hlt
        exact ⟨buyPrice, ts, hmem, by simpa using hfresh, hlt⟩
    rw [checkFloor_at g args symbol price hbuy ts]
    by_cases hlt : price < buyPrice * (1 - (g.tolBps args).1 / 10000)
    · rw [if_pos hlt]
      exact ⟨hsaved, hrefuses.mpr hlt, _, _, _, _, rfl⟩
    · rw [if_neg hlt]
      exact ⟨hsaved, fun href => hlt (hrefuses.mp href)⟩

/-- **Recording a buy on a clean disk.** It does not raise, keeps the fresh records of the other
keys, and writes its own. -/
theorem recordBuyPrice_spec (hr : r.readFails = false) (hclean : disk.Clean)
    (hsymbol : symbol ≠ "") (hprice : 0 < price) (now stampAt : ℚ) :
    Raising.Spec (· = disk) (recordBuyPrice S g r now stampAt symbol (.fin price))
      (fun _ disk' => disk.Recorded g now (S.upper symbol) price stampAt disk')
      (fun _ _ => False) := by
  rintro s rfl
  have hrun := recordBuyPrice_of_pos hsymbol hprice S g r now stampAt s
  rw [loadBuys_of_clean hclean hr, pruneBuys_of_clean hclean] at hrun
  rw [hrun]
  refine ⟨clean_saveBuys fun key rec hrec => ?_, fun key => ?_⟩
  · rw [Dict.get?_set] at hrec
    by_cases hkey : key = S.upper symbol
    · rw [if_pos hkey] at hrec
      exact ⟨price, stampAt, (Option.some.inj hrec).symm, hprice⟩
    · rw [if_neg hkey] at hrec
      exact hclean.freshAt g now key rec hrec
  · rw [memory_saveBuys, Dict.get?_set, Disk.get?_freshAt]

/-- On a clean disk, what is remembered under a key is its record. -/
lemma Disk.Clean.remembered_eq_some (h : disk.Clean) {key : String} {x : PyFloat} {ts : ℚ} :
    disk.remembered key = some (x, ts) ↔
      ∃ price, x = .fin price ∧ disk.memory.get? key = some (.at price ts) := by
  unfold Disk.remembered
  cases hget : disk.memory.get? key with
  | none => simp
  | some rec =>
    obtain ⟨price, ts', rfl, -⟩ := h.records key rec hget
    simp only [BuyRecord.remembered, BuyRecord.at, Option.bind_some, Option.some.injEq,
      Prod.mk.injEq, BuyRecord.record.injEq, JsonNumber.number.injEq, PyFloat.fin.injEq]
    constructor
    · rintro ⟨rfl, rfl⟩
      exact ⟨price, rfl, rfl, rfl⟩
    · rintro ⟨_, rfl, rfl, rfl⟩
      exact ⟨rfl, rfl⟩

/-- The fresh records of a clean disk are what is left of its memory after a prune. -/
lemma remembered_filter_fresh (h : disk.Clean) (g : Guard) (now : ℚ) (key : String) :
    ((disk.memory.get? key).filter (BuyRecord.fresh now g.buyMemorySeconds)).bind
        BuyRecord.remembered =
      Expiring.prune (g.buyMemorySeconds : ℚ) now disk.remembered key := by
  unfold Expiring.prune Disk.remembered
  cases hget : disk.memory.get? key with
  | none => rfl
  | some rec =>
    obtain ⟨price, ts, rfl, -⟩ := h.records key rec hget
    rw [Option.bind_some, BuyRecord.remembered_at, Option.filter_some, Option.filter_some,
      BuyRecord.fresh_at]
    by_cases hfresh : now - ts ≤ g.buyMemorySeconds
    · rw [if_pos (by simpa using hfresh), if_pos (by simpa using hfresh)]
      rfl
    · rw [if_neg (by simpa using hfresh), if_neg (by simpa using hfresh)]
      rfl

/-- **Refinement.** Pruning the file prunes the memory. -/
theorem Disk.PrunedTo.remembered {disk' : Disk} (h : disk.PrunedTo g now disk')
    (hclean : disk.Clean) :
    disk'.remembered = Expiring.prune (g.buyMemorySeconds : ℚ) now disk.remembered := by
  funext key
  rw [← remembered_filter_fresh hclean, ← h.get? key]
  rfl

/-- **Refinement.** Recording a buy prunes the memory and writes the price. -/
theorem Disk.Recorded.remembered {disk' : Disk} {key : String} {stampAt : ℚ}
    (h : disk.Recorded g now key price stampAt disk') (hclean : disk.Clean) :
    disk'.remembered = Expiring.write key (.fin price) stampAt
      (Expiring.prune (g.buyMemorySeconds : ℚ) now disk.remembered) := by
  funext key'
  rw [Disk.remembered, h.get? key']
  by_cases hkey : key' = key
  · subst hkey
    simp [Expiring.write]
  · rw [if_neg hkey, remembered_filter_fresh hclean, Expiring.write,
      Function.update_of_ne hkey]

end Clean

/-! ## Any disk -/

/-- The guard of a sell of `key` meets a field that `float` raises on: the time stamp of some
record, or the price of the fresh record of `key`. -/
def GuardStumbles (g : Guard) (r : ReadOutcome) (now : ℚ) (key : String) (disk : Disk) : Prop :=
  hasBadTs (loadBuys r disk).1 = true ∨ ∃ ts, (loadBuys r disk).1.get? key =
    some (.record .malformed ts) ∧
      BuyRecord.fresh now g.buyMemorySeconds (.record .malformed ts) = true

/-- The price is below the floor of the record. -/
def BelowFloor (g : Guard) (args : GuardArgs) (price : PyFloat) : BuyRecord → Prop
  | .record recPrice _ => ∃ buyPrice, recPrice.toFloat 0 = .ok buyPrice ∧
      buyPrice.le (.fin 0) = false ∧
        price.lt (buyPrice.scale (1 - (g.tolBps args).1 / 10000)) = true
  | .notDict => False

/-- A sell of `key` at `price` is below the floor of the fresh record of `key`. -/
def GuardUndercut (g : Guard) (args : GuardArgs) (r : ReadOutcome) (now : ℚ) (key : String)
    (price : PyFloat) (disk : Disk) : Prop :=
  ∃ rec, (loadBuys r disk).1.get? key = some rec ∧ rec.fresh now g.buyMemorySeconds = true ∧
    BelowFloor g args price rec

section AnyDisk

variable {S : PyStr} {g : Guard} {r : ReadOutcome} {disk disk' : Disk} {now pruneAt stampAt : ℚ}
  {symbol : String} {price : PyFloat} {p : ℚ} {e : OrderError}

/-- The exception of a fallible expression is the one it raises. -/
lemma pruneBuys_error {now maxAge : ℚ} {data : Dict String BuyRecord} {e : OrderError}
    (h : pruneBuys now maxAge data = .error e) : e = .malformedRecord := by
  unfold pruneBuys at h
  split at h
  · exact (Except.error.inj h).symm
  · cases h

/-- A bad time stamp was read from the buys file, which stays where it is. -/
lemma loadBuys_of_hasBadTs (h : hasBadTs (loadBuys r disk).1 = true) :
    loadBuys r disk = (disk.memory, disk) := by
  unfold loadBuys Disk.memory at *
  cases hbuys : disk.buys with
  | none => rfl
  | some content =>
    rw [hbuys] at h
    dsimp only at h ⊢
    split at h
    · cases h
    · next hread =>
      rw [if_neg hread]
      cases content with
      | object data => rfl
      | notObject | notJson | undecodable => cases h

/-- The guard passes over a symbol without a name and a price that is not positive. -/
lemma guardSell_of_skipped (h : symbol = "" ∨ price.isFinite = false ∨ price.le (.fin 0) = true)
    (args : GuardArgs) :
    guardSellAgainstDeathSpiral S g r now symbol "sell" price args = pure () := by
  unfold guardSellAgainstDeathSpiral
  rcases h with h | h | h <;> simp [h]

/-- The override lets every sell pass. -/
lemma guardSell_of_override (h : g.override = true) {side : String} {args : GuardArgs} :
    guardSellAgainstDeathSpiral S g r now symbol side price args disk = .ok () disk := by
  unfold guardSellAgainstDeathSpiral
  rw [if_pos h]
  split_ifs <;> rfl

/-- The comparison raises exactly at a record without a price, or above the price. -/
lemma checkFloor_error_iff {args : GuardArgs} {rec : Option BuyRecord} :
    (∃ e disk', checkFloor g args symbol price rec disk = .error e disk') ↔
      rec = some .notDict ∨ (∃ ts, rec = some (.record .malformed ts)) ∨
        ∃ rec', rec = some rec' ∧ BelowFloor g args price rec' := by
  cases rec with
  | none => simp [checkFloor]
  | some rec =>
    cases rec with
    | notDict => simp [checkFloor]
    | record recPrice ts =>
      cases recPrice with
      | malformed => simp [checkFloor, JsonNumber.toFloat, Raising.bind_eq_error]
      | absent =>
        simp only [checkFloor, JsonNumber.toFloat]
        rw [Raising.bind_of_eq_ok (Raising.ofExcept_ok _ disk)]
        simp [BelowFloor, JsonNumber.toFloat]
      | number x =>
        simp only [checkFloor, JsonNumber.toFloat]
        rw [Raising.bind_of_eq_ok (Raising.ofExcept_ok _ disk)]
        cases hle : x.le (.fin 0) <;>
          cases hlt : price.lt (x.scale (1 - (g.tolBps args).1 / 10000)) <;>
          simp [BelowFloor, JsonNumber.toFloat, hle, hlt]

/-- The exceptions of a sell: the prune raises at a time stamp that is no number, and otherwise the
comparison with the fresh record does. -/
lemma guardSell_raises_iff (args : GuardArgs) {Q : OrderError → Prop}
    {R : Option BuyRecord → Prop}
    (hcheck : ∀ rec t, (∃ e t', checkFloor g args symbol price rec t = .error e t' ∧ Q e) ↔ R rec)
    (hsymbol : symbol ≠ "") (hprice : (PyFloat.fin 0).lt price = true) (S : PyStr)
    (r : ReadOutcome) (now : ℚ) (disk : Disk) :
    (∃ e disk', guardSellAgainstDeathSpiral S g r now symbol "sell" price args disk =
        .error e disk' ∧ Q e) ↔
      price.isFinite = true ∧ g.override = false ∧
        (hasBadTs (loadBuys r disk).1 = true ∧ Q .malformedRecord ∨
          hasBadTs (loadBuys r disk).1 = false ∧
            R (((loadBuys r disk).1.get? (S.upper symbol)).filter
              (BuyRecord.fresh now g.buyMemorySeconds))) := by
  cases hfinite : price.isFinite with
  | false =>
    rw [guardSell_of_skipped (.inr (.inl hfinite))]
    simp
  | true =>
    obtain ⟨p, rfl, hp⟩ := PyFloat.eq_fin_of_pos hfinite hprice
    cases hoverride : g.override with
    | true =>
      rw [guardSell_of_override hoverride]
      simp
    | false =>
      rw [guardSell_of_pos hoverride hsymbol hp]
      cases hbad : hasBadTs (loadBuys r disk).1 with
      | true =>
        rw [pruneBuys_of_hasBadTs hbad]
        simp
      | false =>
        rw [pruneBuys_of_not_hasBadTs hbad]
        dsimp only
        rw [hcheck, Dict.get?_filter]
        simp

/-- **The guard on any disk.** A sell raises exactly when its price is finite, it is not
overridden, and the guard stumbles or the price is below the floor. -/
theorem guardSell_error_iff (hsymbol : symbol ≠ "") (hprice : (PyFloat.fin 0).lt price = true)
    (S : PyStr) (g : Guard) (r : ReadOutcome) (now : ℚ) (args : GuardArgs) (disk : Disk) :
    (∃ e disk', guardSellAgainstDeathSpiral S g r now symbol "sell" price args disk =
        .error e disk') ↔
      price.isFinite = true ∧ g.override = false ∧
        (GuardStumbles g r now (S.upper symbol) disk ∨
          GuardUndercut g args r now (S.upper symbol) price disk) := by
  have hraises := guardSell_raises_iff args (g := g) (Q := fun _ => True) (fun _ _ =>
    by simpa only [and_true] using checkFloor_error_iff) hsymbol hprice S r now disk
  simp only [and_true] at hraises
  rw [hraises, GuardStumbles, GuardUndercut]
  refine and_congr_right fun _ => and_congr_right fun _ => ?_
  cases hasBadTs (loadBuys r disk).1 <;>
    simp [Option.filter_eq_some_iff, BuyRecord.fresh, and_assoc]

/-- Recording passes over a symbol without a name and a price that is not positive. -/
lemma recordBuyPrice_of_skipped
    (h : symbol = "" ∨ price.isFinite = false ∨ price.le (.fin 0) = true) (pruneAt stampAt : ℚ) :
    recordBuyPrice S g r pruneAt stampAt symbol price = pure () := by
  unfold recordBuyPrice
  rcases h with h | h | h <;> simp [h]

/-- Recording a buy raises at a malformed record only. -/
lemma recordBuyPrice_error
    (h : recordBuyPrice S g r pruneAt stampAt symbol price disk = .error e disk') :
    e = .malformedRecord := by
  unfold recordBuyPrice at h
  split at h
  · cases h
  · rw [Raising.bind_of_eq_ok (Raising.get_run disk),
      Raising.bind_of_eq_ok (Raising.set_run disk _)] at h
    rcases Raising.bind_eq_error.mp h with hprune | ⟨data, t, -, hsave⟩
    · exact pruneBuys_error (Raising.ofExcept_eq_error.mp hprune).1
    · cases hsave

end AnyDisk

end KeelTrader.Core
