import KeelTrader.Sim.Binpack

set_option relaxedAutoImplicit false
set_option autoImplicit false

/-!
# Files that the loader accepts

`market_data_load` takes the sizes of its arrays from the header of the file and lays them over
the buffer one after the other. It compares the end of the mask with the length of the file, and
returns `NULL` for a file of version 2 or later that is shorter. A file of version 1 need not have
a mask: there the comparison only decides whether one is present, and nothing else is compared.

## Main definitions

* `KeelTrader.Sim.LoadedData.getFeature`, `getPrice`, `isTradable` — the accessors.
* `KeelTrader.Sim.LoadedData.Complete` — every entry lies inside the buffer, at an index that is
  an `int`.
* `KeelTrader.Sim.LoadsOnlyComplete` — the loader stays inside the file, and what it accepts is
  complete.
* `KeelTrader.Sim.Sized` — a file whose header fits its length.

## Main results

* `KeelTrader.Sim.LoadedData.Complete.getFeature_returns`, `getPrice_returns`,
  `isTradable_returns` — the accessors of complete data.
* `KeelTrader.Sim.LoadedData.complete_iff` — completeness by the sizes of the arrays.
* `KeelTrader.Sim.marketDataLoad_iff` — the weakest precondition of the loader.
* `KeelTrader.Sim.loadsOnlyComplete_iff` — the loader accepts only complete files when their
  headers fit their lengths.

## Implementation notes

A buffer is read only inside its bounds: the model faults where the C code reads past them, and a
load that faults is not one that accepts only complete files.
-/

namespace KeelTrader.Sim

open Checked Packed

/-! ## Reads and indices as guarded values -/

/-- A value of type `int`. -/
def IsInt (n : ℤ) : Prop := -2 ^ 31 ≤ n ∧ n < 2 ^ 31

instance (n : ℤ) : Decidable (IsInt n) := inferInstanceAs (Decidable (_ ∧ _))

lemma intResult_iff {n : ℤ} {P : ℤ → Prop} : Returns (intResult n) P ↔ IsInt n ∧ P n :=
  Returns.guard_iff

lemma readBytes_iff {buf : List UInt8} {offset : ℤ} {count : ℕ} {P : List UInt8 → Prop} :
    Returns (readBytes buf offset count) P ↔
      (0 ≤ offset ∧ offset + count ≤ buf.length) ∧ P (slice offset.toNat count buf) :=
  Returns.guard_iff

/-! ## The accessors -/

namespace LoadedData

variable (md : LoadedData)

/-- `get_feature`. -/
def getFeature (t s f : ℤ) : Checked Single := readEntry md md.features md.featuresPerSym t s f

/-- `get_price`. -/
def getPrice (t s p : ℤ) : Checked Single := readEntry md md.prices priceFeatures t s p

/-- `is_tradable`. -/
def isTradable (t s : ℤ) : Checked Bool :=
  match md.tradable with
  | none => pure true
  | some mask => do
    let i ← intResult (t * md.numSymbols)
    let i ← intResult (i + s)
    let flag ← readByte md.fileBuf (mask + i)
    pure (flag ≠ 0)

/-! ## Complete data -/

/-- A timestep and a symbol of the data. -/
def Cell (t s : ℤ) : Prop := (0 ≤ t ∧ t < md.numTimesteps) ∧ 0 ≤ s ∧ s < md.numSymbols

/-- `count` bytes of the buffer. -/
def Inside (offset count : ℤ) : Prop := 0 ≤ offset ∧ offset + count ≤ md.fileBuf.length

/-- The index expression `(t * S + s) * per + k` does not overflow. -/
structure IndexFits (per t s k : ℤ) : Prop where
  row : IsInt (t * md.numSymbols)
  cell : IsInt (t * md.numSymbols + s)
  scaled : IsInt ((t * md.numSymbols + s) * per)
  entry : IsInt ((t * md.numSymbols + s) * per + k)

/-- The entry `[t][s][k]` of the array at offset `base` lies inside the buffer, at an index that
does not overflow. -/
structure EntryInside (base per t s k : ℤ) : Prop where
  index : md.IndexFits per t s k
  inside : md.Inside (base + 4 * ((t * md.numSymbols + s) * per + k)) 4

/-- The data is complete. -/
structure Complete : Prop where
  symbols_nonneg : 0 ≤ md.numSymbols
  symbols_le : md.numSymbols ≤ maxSymbols
  feature : ∀ t s, md.Cell t s → ∀ f, 0 ≤ f → f < md.featuresPerSym →
    md.EntryInside md.features md.featuresPerSym t s f
  price : ∀ t s, md.Cell t s → ∀ p : ℤ, 0 ≤ p → p < priceFeatures →
    md.EntryInside md.prices priceFeatures t s p
  mask : ∀ mask, md.tradable = some mask → ∀ t s, md.Cell t s →
    md.Inside (mask + (t * md.numSymbols + s)) 1

variable {md}

/-- An entry is read when it lies inside the buffer, at an index that does not overflow. -/
theorem readEntry_iff {base per t s k : ℤ} :
    Returns (readEntry md base per t s k) (fun _ => True) ↔ md.EntryInside base per t s k := by
  unfold readEntry readSingle
  simp only [Returns.bind_iff, intResult_iff, readBytes_iff, Returns.pure_iff, and_true]
  constructor
  · rintro ⟨hrow, hcell, hscaled, hentry, hinside⟩
    exact ⟨⟨hrow, hcell, hscaled, hentry⟩, hinside⟩
  · rintro ⟨⟨hrow, hcell, hscaled, hentry⟩, hinside⟩
    exact ⟨hrow, hcell, hscaled, hentry, hinside⟩

lemma readByte_returns {offset : ℤ} (h : md.Inside offset 1) :
    Returns (readByte md.fileBuf offset) fun _ => True := by
  unfold readByte
  simp only [Returns.bind_iff, readBytes_iff, Returns.pure_iff, and_true]
  exact h

namespace Complete

variable (h : md.Complete) {t s : ℤ} (hcell : md.Cell t s)
include h hcell

/-- Every feature is read. -/
theorem getFeature_returns {f : ℤ} (hf : 0 ≤ f) (hf' : f < md.featuresPerSym) :
    Returns (md.getFeature t s f) fun _ => True :=
  readEntry_iff.mpr (h.feature t s hcell f hf hf')

/-- Every price is read. -/
theorem getPrice_returns {p : ℤ} (hp : 0 ≤ p) (hp' : p < priceFeatures) :
    Returns (md.getPrice t s p) fun _ => True :=
  readEntry_iff.mpr (h.price t s hcell p hp hp')

/-- Every flag of the mask is read. -/
theorem isTradable_returns : Returns (md.isTradable t s) fun _ => True := by
  -- the index of the flag is that of the cell in the prices
  have hindex := (h.price t s hcell 0 le_rfl (by decide)).index
  unfold isTradable
  cases hmask : md.tradable with
  | none => exact Returns.pure trivial
  | some mask =>
    simp only [Returns.bind_iff, intResult_iff, Returns.pure_iff]
    refine ⟨hindex.row, hindex.cell, ?_⟩
    exact readByte_returns (h.mask mask hmask t s hcell)

end Complete

/-! ### The sizes of the arrays -/

/-- The row-major index of a cell. -/
lemma rowMajor {n m i j : ℤ} (hi : 0 ≤ i) (hin : i < n) (hj : 0 ≤ j) (hjm : j < m) :
    0 ≤ i * m ∧ i * m + j < n * m := by
  constructor
  · apply mul_nonneg hi
    omega
  · have hrow : (i + 1) * m ≤ n * m := by
      apply mul_le_mul_of_nonneg_right <;> omega
    linarith

/-- An array lies inside the buffer when its first entry does not lie before the buffer and its
last one does not lie past it. -/
lemma entries_iff {base per : ℤ} (ht : 0 < md.numTimesteps) (hs : 0 < md.numSymbols)
    (hper : 0 < per) :
    (∀ t s, md.Cell t s → ∀ k, 0 ≤ k → k < per → md.EntryInside base per t s k) ↔
      md.Inside base (4 * (md.numTimesteps * md.numSymbols * per)) ∧
        md.numTimesteps * md.numSymbols * per ≤ 2 ^ 31 := by
  constructor
  · intro h
    have hfirst := h 0 0 ⟨⟨le_rfl, ht⟩, le_rfl, hs⟩ 0 le_rfl hper
    have hlast := h (md.numTimesteps - 1) (md.numSymbols - 1)
      ⟨⟨by omega, by omega⟩, by omega, by omega⟩ (per - 1) (by omega) (by omega)
    have hindex : ((md.numTimesteps - 1) * md.numSymbols + (md.numSymbols - 1)) * per + (per - 1) =
        md.numTimesteps * md.numSymbols * per - 1 := by ring
    have hbase := hfirst.inside.1
    have hend := hlast.inside.2
    have hmax := hlast.index.entry.2
    simp only [zero_mul, add_zero, mul_zero] at hbase
    rw [hindex] at hend hmax
    refine ⟨⟨hbase, ?_⟩, ?_⟩ <;> omega
  · rintro ⟨⟨hbase, hend⟩, hmax⟩ t s ⟨⟨ht0, htT⟩, hs0, hsS⟩ k hk0 hkper
    obtain ⟨hrow0, hcellT⟩ := rowMajor ht0 htT hs0 hsS
    obtain ⟨hcell0, hentry⟩ := rowMajor (by omega) hcellT hk0 hkper
    have hscale : t * md.numSymbols + s ≤ (t * md.numSymbols + s) * per := by
      apply le_mul_of_one_le_right <;> omega
    refine ⟨⟨⟨?_, ?_⟩, ⟨?_, ?_⟩, ⟨?_, ?_⟩, ⟨?_, ?_⟩⟩, ?_, ?_⟩ <;> omega

/-- The flags of a mask lie inside the buffer when the mask does. -/
lemma flags_iff {mask : ℤ} (ht : 0 < md.numTimesteps) (hs : 0 < md.numSymbols) :
    (∀ t s, md.Cell t s → md.Inside (mask + (t * md.numSymbols + s)) 1) ↔
      md.Inside mask (md.numTimesteps * md.numSymbols) := by
  constructor
  · intro h
    have hfirst := (h 0 0 ⟨⟨le_rfl, ht⟩, le_rfl, hs⟩).1
    have hlast := (h (md.numTimesteps - 1) (md.numSymbols - 1)
      ⟨⟨by omega, by omega⟩, by omega, by omega⟩).2
    have hindex : (md.numTimesteps - 1) * md.numSymbols + (md.numSymbols - 1) =
        md.numTimesteps * md.numSymbols - 1 := by ring
    rw [hindex] at hlast
    constructor <;> omega
  · rintro ⟨hbase, hend⟩ t s ⟨⟨ht0, htT⟩, hs0, hsS⟩
    obtain ⟨hrow0, hcellT⟩ := rowMajor ht0 htT hs0 hsS
    constructor <;> omega

/-- **Completeness by sizes.** Where there is a cell, the arrays lie inside the buffer as a whole,
and the number of their entries is the largest `int` plus one at most. -/
theorem complete_iff : md.Complete ↔ 0 ≤ md.numSymbols ∧ md.numSymbols ≤ maxSymbols ∧
    (0 < md.numTimesteps → 0 < md.numSymbols →
      (0 < md.featuresPerSym →
        md.Inside md.features (4 * (md.numTimesteps * md.numSymbols * md.featuresPerSym)) ∧
          md.numTimesteps * md.numSymbols * md.featuresPerSym ≤ 2 ^ 31) ∧
      (md.Inside md.prices (4 * (md.numTimesteps * md.numSymbols * priceFeatures)) ∧
        md.numTimesteps * md.numSymbols * priceFeatures ≤ 2 ^ 31) ∧
      ∀ mask, md.tradable = some mask → md.Inside mask (md.numTimesteps * md.numSymbols)) := by
  have hprice : (0 : ℤ) < priceFeatures := by decide
  constructor
  · intro h
    refine ⟨h.symbols_nonneg, h.symbols_le, fun ht hs => ⟨fun hf => ?_, ?_, ?_⟩⟩
    · exact (entries_iff ht hs hf).mp h.feature
    · exact (entries_iff ht hs hprice).mp h.price
    · exact fun mask hmask => (flags_iff ht hs).mp (h.mask mask hmask)
  · rintro ⟨hs0, hs128, hsizes⟩
    -- without a cell there is nothing to show
    have hpos : ∀ {t s : ℤ}, md.Cell t s → 0 < md.numTimesteps ∧ 0 < md.numSymbols := by
      rintro t s ⟨ht, hs⟩
      constructor <;> omega
    refine ⟨hs0, hs128, fun t s hcell f hf hf' => ?_, fun t s hcell => ?_,
      fun mask hmask t s hcell => ?_⟩ <;> obtain ⟨ht, hs⟩ := hpos hcell
    · exact (entries_iff ht hs (by omega)).mpr ((hsizes ht hs).1 (by omega)) t s hcell f hf hf'
    · exact (entries_iff ht hs hprice).mpr (hsizes ht hs).2.1 t s hcell
    · exact (flags_iff ht hs).mpr ((hsizes ht hs).2.2 mask hmask) t s hcell

end LoadedData

/-! ## The loader -/

/-- The numbers of the header, as the loader narrows them. -/
structure LoadHeader where
  version : ℕ
  numSymbols : ℤ
  numTimesteps : ℤ
  featuresPerSym : ℤ
  deriving DecidableEq, Repr

/-- The header of a file. -/
def loadHeader (buf : List UInt8) : LoadHeader where
  version := ofLE (slice 4 4 buf)
  numSymbols := toInt (ofLE (slice 8 4 buf))
  numTimesteps := toInt (ofLE (slice 12 4 buf))
  featuresPerSym :=
    if ofLE (slice 16 4 buf) > 0 then toInt (ofLE (slice 16 4 buf)) else defaultFeaturesPerSym

namespace LoadHeader

variable (h : LoadHeader)

/-- The offset of the features. -/
def featuresStart : ℤ := headerSize + h.numSymbols * symNameLen

/-- The offset of the prices. -/
def pricesStart : ℤ :=
  h.featuresStart + 4 * (h.numTimesteps * h.numSymbols * h.featuresPerSym)

/-- The offset past the prices. -/
def pricesEnd : ℤ := h.pricesStart + 4 * (h.numTimesteps * h.numSymbols * priceFeatures)

/-- The pointer to the prices, as it is computed. -/
def pricesPtr : ℤ :=
  movePtr h.featuresStart (blockBytes h.numTimesteps h.numSymbols h.featuresPerSym)

/-- The pointer past the prices, as it is computed. -/
def maskPtr : ℤ := movePtr h.pricesPtr (blockBytes h.numTimesteps h.numSymbols priceFeatures)

/-- The table of names lies in a file of length `len`, and its size is an `int`. -/
def TableFits (len : ℕ) : Prop :=
  (0 < h.numSymbols → h.featuresStart ≤ len) ∧ -2 ^ 31 ≤ h.numSymbols * symNameLen

/-- The end of a mask, as a `size_t`, is not past the length. -/
def MaskFound (len : ℕ) : Prop :=
  (h.pricesEnd + h.numTimesteps * h.numSymbols) % 2 ^ 64 ≤ len

/-- A file is accepted with a mask whose cache can be allocated, and before version 2 also without
a mask. -/
def Accepted (len : ℕ) : Prop :=
  (h.MaskFound len → 0 ≤ h.numTimesteps) ∧ (¬h.MaskFound len → h.version < 2)

/-- The arrays lie in a file of length `len`, and their indices are `int`s. -/
structure ArraysFit (len : ℕ) : Prop where
  prices_start : 0 ≤ h.pricesStart
  prices_end : h.pricesEnd ≤ len
  features_index : h.numTimesteps * h.numSymbols * h.featuresPerSym ≤ 2 ^ 31
  prices_index : h.numTimesteps * h.numSymbols * priceFeatures ≤ 2 ^ 31

end LoadHeader

/-- The entry `i` of the table of names, as it is copied. -/
def copiedName (buf : List UInt8) (i : ℕ) : List UInt8 :=
  (slice (headerSize + i * symNameLen) symNameLen buf).set (symNameLen - 1) 0

/-- The data that is loaded, given its mask and the cache of it. -/
def loadedFile (buf : List UInt8) (mask : Option ℤ × Option (List Bool)) : LoadedData :=
  let h := loadHeader buf
  { numSymbols := h.numSymbols
    numTimesteps := h.numTimesteps
    featuresPerSym := h.featuresPerSym
    symNames := (List.range h.numSymbols.toNat).map (copiedName buf)
    features := h.featuresStart
    prices := h.pricesPtr
    tradable := mask.1
    anyTradable := mask.2
    fileBuf := buf }

/-! ### Sizes modulo the address space -/

lemma toSize_modEq (n : ℤ) : (toSize n : ℤ) ≡ n [ZMOD 2 ^ 64] := by
  have hcast : (toSize n : ℤ) = n % 2 ^ 64 := by
    unfold toSize
    omega
  rw [hcast]
  exact Int.mod_modEq n _

lemma sizeMul_modEq {m n : ℕ} {a b : ℤ} (hm : (m : ℤ) ≡ a [ZMOD 2 ^ 64])
    (hn : (n : ℤ) ≡ b [ZMOD 2 ^ 64]) : (sizeMul m n : ℤ) ≡ a * b [ZMOD 2 ^ 64] := by
  have hcast : (sizeMul m n : ℤ) = m * n % 2 ^ 64 := by
    unfold sizeMul
    push_cast
    rfl
  rw [hcast]
  exact (Int.mod_modEq _ _).trans (hm.mul hn)

lemma blockBytes_modEq (t s per : ℤ) :
    (blockBytes t s per : ℤ) ≡ 4 * (t * s * per) [ZMOD 2 ^ 64] := by
  have hcells := sizeMul_modEq (toSize_modEq t) (toSize_modEq s)
  have hentries := sizeMul_modEq hcells (toSize_modEq per)
  rw [mul_comm 4]
  exact sizeMul_modEq hentries rfl

/-- A pointer moves past an array. -/
lemma movePtr_block (ptr t s per : ℤ) :
    movePtr ptr (blockBytes t s per) = (ptr + 4 * (t * s * per)).bmod (2 ^ 64) := by
  have hsum : ptr + blockBytes t s per ≡ ptr + 4 * (t * s * per) [ZMOD 2 ^ 64] :=
    (blockBytes_modEq t s per).add_left ptr
  unfold movePtr
  rw [← Int.emod_bmod, ← Int.emod_bmod (ptr + 4 * (t * s * per))]
  exact congrArg (Int.bmod · (2 ^ 64)) hsum

namespace LoadHeader

variable (h : LoadHeader)

lemma pricesPtr_eq : h.pricesPtr = h.pricesStart.bmod (2 ^ 64) := movePtr_block _ _ _ _

lemma maskPtr_eq : h.maskPtr = h.pricesEnd.bmod (2 ^ 64) := by
  unfold maskPtr
  rw [movePtr_block, h.pricesPtr_eq, Int.bmod_add_bmod]
  rfl

/-- The comparison of the end of the mask with the length of the file. -/
lemma maskFound_iff (len : ℕ) :
    (toSize h.maskPtr + sizeMul (toSize h.numTimesteps) (toSize h.numSymbols)) % 2 ^ 64 ≤ len ↔
      h.MaskFound len := by
  have hptr : (toSize h.maskPtr : ℤ) ≡ h.pricesEnd [ZMOD 2 ^ 64] := by
    rw [h.maskPtr_eq]
    exact (toSize_modEq _).trans Int.bmod_emod
  have hmask := sizeMul_modEq (toSize_modEq h.numTimesteps) (toSize_modEq h.numSymbols)
  have hend := hptr.add hmask
  unfold MaskFound
  rw [← hend]
  norm_cast

/-- The names are read and their table is skipped. -/
lemma tableFits_iff (hfew : h.numSymbols ≤ maxSymbols) (len : ℕ) :
    (∀ i ∈ List.range h.numSymbols.toNat, headerSize + i * symNameLen + symNameLen ≤ len) ∧
      IsInt (h.numSymbols * symNameLen) ↔ h.TableFits len := by
  unfold TableFits featuresStart IsInt headerSize symNameLen
  unfold maxSymbols at hfew
  simp only [List.mem_range]
  constructor
  · rintro ⟨hnames, hlow, -⟩
    refine ⟨fun hpos => ?_, hlow⟩
    have hlast := hnames (h.numSymbols.toNat - 1) (by omega)
    omega
  · rintro ⟨htable, hlow⟩
    refine ⟨fun i hi => ?_, hlow, by omega⟩
    have hend := htable (by omega)
    omega

end LoadHeader

/-! ### Weakest preconditions -/

lemma readU32_iff {buf : List UInt8} {offset : ℤ} {P : ℕ → Prop} :
    Returns (readU32 buf offset) P ↔
      (0 ≤ offset ∧ offset + 4 ≤ buf.length) ∧ P (ofLE (slice offset.toNat 4 buf)) := by
  unfold readU32
  simp only [Returns.bind_iff, readBytes_iff, Returns.pure_iff]
  rfl

lemma copyName_iff {buf : List UInt8} {i : ℕ} {P : List UInt8 → Prop} :
    Returns (copyName buf headerSize i) P ↔
      headerSize + i * symNameLen + symNameLen ≤ buf.length ∧ P (copiedName buf i) := by
  have hoffset : ((headerSize : ℤ) + i * symNameLen).toNat = headerSize + i * symNameLen := by
    unfold headerSize symNameLen
    omega
  have hin : (0 ≤ (headerSize : ℤ) + i * symNameLen ∧
      (headerSize : ℤ) + i * symNameLen + symNameLen ≤ buf.length) ↔
        headerSize + i * symNameLen + symNameLen ≤ buf.length := by
    unfold headerSize symNameLen
    omega
  unfold copyName
  simp only [Returns.bind_iff, readBytes_iff, Returns.pure_iff, hin, hoffset]
  rfl

/-- The search for the mask. -/
lemma findMask_iff {buf : List UInt8} {h : LoadHeader}
    {P : Option (Option ℤ × Option (List Bool)) → Prop} :
    Returns (findMask buf h.version h.maskPtr h.numTimesteps h.numSymbols) P ↔
      (¬h.Accepted buf.length → P none) ∧
      (h.Accepted buf.length → h.MaskFound buf.length →
        Returns (anyOpenRows buf h.maskPtr h.numTimesteps h.numSymbols)
          fun cache => P (some (some h.maskPtr, some cache))) ∧
      (h.Accepted buf.length → ¬h.MaskFound buf.length → P (some (none, none))) := by
  unfold findMask LoadHeader.Accepted
  simp only [h.maskFound_iff, Returns.ite_iff, Returns.bind_iff, Returns.pure_iff]
  by_cases hfound : h.MaskFound buf.length
  · simp [hfound]
  · simp [hfound, and_comm, Nat.succ_le_iff]

/-- **The loader.** Its weakest precondition: the header and the table of names are in the file, and
the file is rejected or its data satisfies the postcondition. -/
theorem marketDataLoad_iff {buf : List UInt8} {P : Option LoadedData → Prop} :
    Returns (marketDataLoad buf) P ↔ 4 ≤ buf.length ∧ (slice 0 4 buf ≠ magic → P none) ∧
      (slice 0 4 buf = magic → 20 ≤ buf.length ∧
        (maxSymbols < (loadHeader buf).numSymbols → P none) ∧
        ((loadHeader buf).numSymbols ≤ maxSymbols → (loadHeader buf).TableFits buf.length ∧
          Returns (findMask buf (loadHeader buf).version (loadHeader buf).maskPtr
              (loadHeader buf).numTimesteps (loadHeader buf).numSymbols)
            fun mask => P (mask.map (loadedFile buf)))) := by
  unfold marketDataLoad
  simp only [Returns.bind_iff, Returns.ite_iff, Returns.pure_iff, readBytes_iff, readU32_iff,
    intResult_iff, Returns.mapM_iff fun i Q => copyName_iff]
  constructor
  · rintro ⟨⟨-, hlen⟩, hother, hmagic⟩
    refine ⟨by omega, hother, fun hm => ?_⟩
    obtain ⟨-, -, -, ⟨-, hheader⟩, hmany, hload⟩ := hmagic (not_not_intro hm)
    refine ⟨by omega, hmany, fun hfew => ?_⟩
    obtain ⟨hnames, htable, hmask⟩ := hload (not_lt.mpr hfew)
    exact ⟨((loadHeader buf).tableFits_iff hfew _).mp ⟨hnames, htable⟩, hmask⟩
  · rintro ⟨hlen, hother, hmagic⟩
    refine ⟨⟨le_rfl, by omega⟩, hother, fun hm => ?_⟩
    obtain ⟨hheader, hmany, hload⟩ := hmagic (not_not.mp hm)
    refine ⟨⟨by omega, by omega⟩, ⟨by omega, by omega⟩, ⟨by omega, by omega⟩,
      ⟨by omega, by omega⟩, hmany, fun hfew => ?_⟩
    obtain ⟨htable, hmask⟩ := hload (not_lt.mp hfew)
    obtain ⟨hnames, hint⟩ := ((loadHeader buf).tableFits_iff (not_lt.mp hfew) _).mpr htable
    exact ⟨hnames, hint, hmask⟩

/-! ## Accepting only complete files -/

/-- The loader stays inside the file, and data that it returns is complete. -/
def LoadsOnlyComplete (buf : List UInt8) : Prop :=
  Returns (marketDataLoad buf) fun data => ∀ md, data = some md → md.Complete

/-- The file is long enough for its header, for the table of names, and, if it is accepted, for its
arrays. -/
def Sized (buf : List UInt8) : Prop :=
  4 ≤ buf.length ∧ (slice 0 4 buf = magic → 20 ≤ buf.length ∧
    ((loadHeader buf).numSymbols ≤ maxSymbols → (loadHeader buf).TableFits buf.length ∧
      ((loadHeader buf).Accepted buf.length → 0 ≤ (loadHeader buf).numSymbols ∧
        (0 < (loadHeader buf).numTimesteps → 0 < (loadHeader buf).numSymbols →
          (loadHeader buf).ArraysFit buf.length))))

lemma isInt_toInt {n : ℕ} (h : n < 2 ^ 32) : IsInt (toInt n) := by
  unfold IsInt toInt
  split <;> omega

/-- The number of features is an `int`. -/
lemma isInt_featuresPerSym (buf : List UInt8) : IsInt (loadHeader buf).featuresPerSym := by
  have hword : ofLE (slice 16 4 buf) < 2 ^ 32 := by
    have hlt := ofLE_lt (slice 16 4 buf)
    have hle : 256 ^ (slice 16 4 buf).length ≤ 256 ^ 4 :=
      Nat.pow_le_pow_right (by omega) (length_slice_le 16 4 buf)
    omega
  unfold loadHeader
  dsimp only
  split
  · exact isInt_toInt hword
  · decide

section Pointers

variable {h : LoadHeader} (ht : 0 < h.numTimesteps) (hs : 0 < h.numSymbols)
  (hfew : h.numSymbols ≤ maxSymbols) (hper : -2 ^ 31 ≤ h.featuresPerSym)
  (hfeatures : h.numTimesteps * h.numSymbols * h.featuresPerSym ≤ 2 ^ 31)
  (hprices : h.numTimesteps * h.numSymbols * priceFeatures ≤ 2 ^ 31)
include ht hs hfew hper hfeatures hprices

/-- Where the indices are `int`s, the offset of the prices is one of the address space. -/
lemma LoadHeader.pricesStart_bounds : -2 ^ 62 ≤ h.pricesStart - 64 ∧ h.pricesStart < 2 ^ 62 := by
  have hcells : 0 < h.numTimesteps * h.numSymbols := mul_pos ht hs
  have hlow : h.numTimesteps * h.numSymbols * -2 ^ 31 ≤
      h.numTimesteps * h.numSymbols * h.featuresPerSym :=
    mul_le_mul_of_nonneg_left hper hcells.le
  unfold maxSymbols at hfew
  unfold priceFeatures at hprices
  unfold LoadHeader.pricesStart LoadHeader.featuresStart headerSize symNameLen
  constructor <;> omega

lemma LoadHeader.pricesPtr_of_fits : h.pricesPtr = h.pricesStart := by
  have hbounds := LoadHeader.pricesStart_bounds ht hs hfew hper hfeatures hprices
  rw [h.pricesPtr_eq]
  apply Int.bmod_eq_of_le <;> omega

lemma LoadHeader.maskPtr_of_fits : h.maskPtr = h.pricesEnd := by
  have hbounds := LoadHeader.pricesStart_bounds ht hs hfew hper hfeatures hprices
  have hcells : 0 < h.numTimesteps * h.numSymbols := mul_pos ht hs
  rw [h.maskPtr_eq]
  unfold priceFeatures at hprices
  unfold LoadHeader.pricesEnd priceFeatures
  apply Int.bmod_eq_of_le <;> omega

end Pointers

section Arrays

variable {buf : List UInt8} {mask : Option ℤ × Option (List Bool)}

/-- The arrays of complete data fit the file. -/
lemma arraysFit_of_complete (hc : (loadedFile buf mask).Complete)
    (ht : 0 < (loadHeader buf).numTimesteps) (hs : 0 < (loadHeader buf).numSymbols) :
    (loadHeader buf).ArraysFit buf.length := by
  obtain ⟨-, hfew, hsizes⟩ := LoadedData.complete_iff.mp hc
  obtain ⟨hfeatures, ⟨⟨hstart, hend⟩, hprices⟩, -⟩ := hsizes ht hs
  have hcells : 0 < (loadHeader buf).numTimesteps * (loadHeader buf).numSymbols := mul_pos ht hs
  have hindex : (loadHeader buf).numTimesteps * (loadHeader buf).numSymbols *
      (loadHeader buf).featuresPerSym ≤ 2 ^ 31 := by
    by_cases hf : 0 < (loadHeader buf).featuresPerSym
    · exact (hfeatures hf).2
    · have hle := mul_nonpos_of_nonneg_of_nonpos hcells.le (not_lt.mp hf)
      omega
  have hptr := LoadHeader.pricesPtr_of_fits ht hs hfew (isInt_featuresPerSym buf).1 hindex hprices
  change 0 ≤ (loadHeader buf).pricesPtr at hstart
  change (loadHeader buf).pricesPtr + _ ≤ _ at hend
  rw [hptr] at hstart hend
  exact ⟨hstart, hend, hindex, hprices⟩

/-- A mask that is found after arrays that fit lies inside the file. -/
lemma mask_inside (ht : 0 < (loadHeader buf).numTimesteps) (hs : 0 < (loadHeader buf).numSymbols)
    (hfew : (loadHeader buf).numSymbols ≤ maxSymbols)
    (hfit : (loadHeader buf).ArraysFit buf.length)
    (hfound : (loadHeader buf).MaskFound buf.length) :
    0 ≤ (loadHeader buf).maskPtr ∧ (loadHeader buf).maskPtr +
      (loadHeader buf).numTimesteps * (loadHeader buf).numSymbols ≤ buf.length := by
  have hper := (isInt_featuresPerSym buf).1
  have hcells : 0 < (loadHeader buf).numTimesteps * (loadHeader buf).numSymbols := mul_pos ht hs
  have hstart := hfit.prices_start
  have hprices := hfit.prices_index
  obtain ⟨-, hbound⟩ := LoadHeader.pricesStart_bounds ht hs hfew hper hfit.features_index hprices
  rw [LoadHeader.maskPtr_of_fits ht hs hfew hper hfit.features_index hprices]
  unfold LoadHeader.MaskFound at hfound
  unfold LoadHeader.pricesEnd at hfound ⊢
  unfold priceFeatures at hprices hfound ⊢
  rw [Int.emod_eq_of_lt (by omega) (by omega)] at hfound
  constructor <;> omega

variable (hfew : (loadHeader buf).numSymbols ≤ maxSymbols)
  (hfit : 0 < (loadHeader buf).numTimesteps → 0 < (loadHeader buf).numSymbols →
    (loadHeader buf).ArraysFit buf.length)
include hfew hfit

/-- The cache is filled from the mask. -/
lemma anyOpenRows_returns (hfound : (loadHeader buf).MaskFound buf.length) :
    Returns (anyOpenRows buf (loadHeader buf).maskPtr (loadHeader buf).numTimesteps
      (loadHeader buf).numSymbols) fun _ => True := by
  unfold anyOpenRows
  apply Returns.mapM
  intro t hrow
  apply Returns.anyM
  intro s hcell
  rw [List.mem_range] at hrow hcell
  -- the mask is not empty
  have ht : 0 < (loadHeader buf).numTimesteps := by omega
  have hs : 0 < (loadHeader buf).numSymbols := by omega
  obtain ⟨hstart, hend⟩ := mask_inside ht hs hfew (hfit ht hs) hfound
  have htT : (t : ℤ) < (loadHeader buf).numTimesteps := by omega
  have hsS : (s : ℤ) < (loadHeader buf).numSymbols := by omega
  obtain ⟨hrow, hcell⟩ := LoadedData.rowMajor (by omega) htT (by omega) hsS
  have hbyte : (loadedFile buf (none, none)).Inside
      ((loadHeader buf).maskPtr + t * (loadHeader buf).numSymbols + s) 1 := by
    show 0 ≤ _ ∧ _ ≤ (buf.length : ℤ)
    constructor <;> omega
  exact (LoadedData.readByte_returns hbyte).bind fun _ _ => Returns.pure trivial

/-- The data of a file whose arrays fit is complete. -/
lemma complete_of_arraysFit (hs0 : 0 ≤ (loadHeader buf).numSymbols)
    (hmask : ∀ ptr, mask.1 = some ptr →
      ptr = (loadHeader buf).maskPtr ∧ (loadHeader buf).MaskFound buf.length) :
    (loadedFile buf mask).Complete := by
  refine LoadedData.complete_iff.mpr ⟨hs0, hfew, fun ht hs => ?_⟩
  have hsizes := hfit ht hs
  have hper := (isInt_featuresPerSym buf).1
  have hcells : 0 < (loadHeader buf).numTimesteps * (loadHeader buf).numSymbols := mul_pos ht hs
  have hptr := LoadHeader.pricesPtr_of_fits ht hs hfew hper hsizes.features_index
    hsizes.prices_index
  have hend := hsizes.prices_end
  refine ⟨fun hf => ⟨⟨?_, ?_⟩, hsizes.features_index⟩, ⟨⟨?_, ?_⟩, hsizes.prices_index⟩,
    fun ptr hptr => ?_⟩
  · change 0 ≤ (loadHeader buf).featuresStart
    unfold LoadHeader.featuresStart
    positivity
  · change (loadHeader buf).pricesStart ≤ buf.length
    unfold LoadHeader.pricesEnd priceFeatures at hend
    omega
  · change 0 ≤ (loadHeader buf).pricesPtr
    exact hptr ▸ hsizes.prices_start
  · change (loadHeader buf).pricesPtr + _ ≤ _
    exact hptr ▸ hend
  · obtain ⟨rfl, hfound⟩ := hmask ptr hptr
    exact mask_inside ht hs hfew hsizes hfound

end Arrays

/-- **Accepting only complete files.** The loader stays inside the file and accepts only complete
data exactly when the file is long enough for its header.

**Proof sketch.** By the weakest precondition of the loader, only a file that is accepted is left to
consider. Its data is complete when the arrays lie in the file by their sizes. The pointers are
computed modulo the address space; where all indices are `int`s the sizes are too small for that
to matter. A mask that is found lies in the file then, and its cache is filled. -/
theorem loadsOnlyComplete_iff (buf : List UInt8) : LoadsOnlyComplete buf ↔ Sized buf := by
  unfold LoadsOnlyComplete Sized
  rw [marketDataLoad_iff]
  refine and_congr_right fun _ => ?_
  constructor
  · rintro ⟨-, hload⟩ hmagic
    obtain ⟨hheader, -, haccept⟩ := hload hmagic
    refine ⟨hheader, fun hfew => ?_⟩
    obtain ⟨htable, hmask⟩ := haccept hfew
    refine ⟨htable, fun hacc => ?_⟩
    obtain ⟨-, hfound, hmissing⟩ := findMask_iff.mp hmask
    -- the data that is returned, with or without a mask
    obtain ⟨mask, hcomplete⟩ : ∃ mask, (loadedFile buf mask).Complete := by
      by_cases h : (loadHeader buf).MaskFound buf.length
      · obtain ⟨cache, -, hcache⟩ := hfound hacc h
        exact ⟨_, hcache _ rfl⟩
      · exact ⟨_, hmissing hacc h _ rfl⟩
    exact ⟨hcomplete.symbols_nonneg, arraysFit_of_complete hcomplete⟩
  · intro hsized
    refine ⟨fun _ md hmd => absurd hmd (by simp), fun hmagic => ?_⟩
    obtain ⟨hheader, haccept⟩ := hsized hmagic
    refine ⟨hheader, fun _ md hmd => absurd hmd (by simp), fun hfew => ?_⟩
    obtain ⟨htable, harrays⟩ := haccept hfew
    refine ⟨htable, findMask_iff.mpr ⟨fun _ md hmd => absurd hmd (by simp), ?_, ?_⟩⟩
    · intro hacc hfound
      obtain ⟨hs0, hfit⟩ := harrays hacc
      apply (anyOpenRows_returns hfew hfit hfound).mono
      rintro cache - md ⟨rfl⟩
      apply complete_of_arraysFit hfew hfit hs0
      rintro ptr ⟨rfl⟩
      exact ⟨rfl, hfound⟩
    · rintro hacc hmissing md ⟨rfl⟩
      obtain ⟨hs0, hfit⟩ := harrays hacc
      apply complete_of_arraysFit hfew hfit hs0
      rintro ptr ⟨⟩

instance (h : LoadHeader) (len : ℕ) : Decidable (h.TableFits len) :=
  inferInstanceAs (Decidable (_ ∧ _))

instance (h : LoadHeader) (len : ℕ) : Decidable (h.Accepted len) :=
  inferInstanceAs (Decidable ((_ % _ ≤ _ → _) ∧ (¬_ % _ ≤ _ → _)))

instance (h : LoadHeader) (len : ℕ) : Decidable (h.ArraysFit len) :=
  decidable_of_iff (_ ∧ _ ∧ _ ∧ _)
    ⟨fun ⟨hstart, hend, hfeatures, hprices⟩ => ⟨hstart, hend, hfeatures, hprices⟩,
      fun h => ⟨h.prices_start, h.prices_end, h.features_index, h.prices_index⟩⟩

instance (buf : List UInt8) : Decidable (Sized buf) := inferInstanceAs (Decidable (_ ∧ _))

/-- A file of version 1 with its feature and its prices. -/
example : Sized (magic ++ (toLE 4 1 ++ (toLE 4 1 ++ (toLE 4 1 ++ (toLE 4 1 ++ (toLE 4 5 ++
    List.replicate (40 + symNameLen + 4 + 20) 0)))))) := by decide

/-- A file of version 1 that ends after the name of its symbol. -/
def truncatedFile : List UInt8 :=
  magic ++ (toLE 4 1 ++ (toLE 4 1 ++ (toLE 4 1 ++ (toLE 4 1 ++ (toLE 4 5 ++
    (List.replicate 40 0 ++ ljust symNameLen [66, 84, 67]))))))

/-- The file is accepted, and neither its feature nor its prices are in it. -/
theorem not_loadsOnlyComplete_truncated :
    (∃ md, marketDataLoad truncatedFile = .ok (some md)) ∧ ¬LoadsOnlyComplete truncatedFile := by
  have hload :
      marketDataLoad truncatedFile = .ok (some (loadedFile truncatedFile (none, none))) := rfl
  refine ⟨⟨_, hload⟩, ?_⟩
  rintro ⟨data, hdata, hcomplete⟩
  rw [hload] at hdata
  cases hdata
  have hprice := (hcomplete _ rfl).price 0 0 ⟨by decide, by decide⟩ 0 le_rfl (by decide)
  exact absurd hprice.inside.2 (by decide)

end KeelTrader.Sim
