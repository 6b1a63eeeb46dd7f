import KeelTrader.Lib.Checked
import KeelTrader.Lib.Packed

set_option relaxedAutoImplicit false
set_option autoImplicit false

/-!
# The market data file

The `MKTD` format: a header of 64 bytes, a table of symbol names, the features and the prices. It
is written and read by `sim/binpack.py`, and read once more by `market_data_load` of
`sim/src/trading_env.c`, whose arrays `keel_md_feature` and `keel_md_price` index.

## Main definitions

* `KeelTrader.Sim.ArrayArg` — an array, given as nested sequences or as a numpy array.
* `KeelTrader.Sim.writeMarketBin` — the encoder, with its two branches.
* `KeelTrader.Sim.readHeader`, `readSymbols`, `readFeatures`, `readPrices` — the Python decoder.
* `KeelTrader.Sim.marketDataLoad`, `keelMdFeature`, `keelMdPrice` — the C decoder.

## Implementation notes

A `float32` is its bit pattern, and the machine is little-endian. The calls of the Python code
raise, and the C code returns `NULL` or faults when it leaves its buffer or overflows an `int`.
Files are opened and memory is allocated without failure, unless a negative number of bytes is
asked for.
-/

namespace KeelTrader.Sim

open Checked Packed

/-! ## The format -/

/-- A `float32`. -/
structure Single where
  bits : UInt32
  deriving DecidableEq, Repr

/-- The four bytes of a `float32`. -/
def single : Codec Single where
  width := 4
  encode x := toLE 4 x.bits.toNat
  decode bs := ⟨UInt32.ofNat (ofLE bs)⟩
  length_encode x := length_toLE 4 _
  decode_encode x := by
    rw [ofLE_toLE x.bits.toNat_lt, UInt32.ofNat_toNat]

/-- `MAGIC`. -/
def magic : List UInt8 := [77, 75, 84, 68]

/-- `PRICE_FEATURES` and `PRICE_FEATS`. -/
def priceFeatures : ℕ := 5

/-- `HEADER_SIZE`. -/
def headerSize : ℕ := 64

/-- `SYM_NAME_LEN`. -/
def symNameLen : ℕ := 16

/-- `MAX_SYMBOLS`. -/
def maxSymbols : ℕ := 128

/-- `FEATURES_PER_SYM`. -/
def defaultFeaturesPerSym : ℕ := 16

/-! ## The Python encoder -/

/-- The exceptions of the Python code: `struct.error`, `IndexError`, `UnicodeError` and
`ValueError`. -/
inductive PackError where
  | structError | indexError | unicodeError | valueError
  deriving DecidableEq, Repr

/-- A numpy array of three dimensions. -/
structure NdArray where
  shape : ℕ × ℕ × ℕ
  get : ℕ → ℕ → ℕ → Single

/-- The entries of an array, as nested lists. -/
def NdArray.toNested (a : NdArray) : List (List (List Single)) :=
  (List.range a.shape.1).map fun t => (List.range a.shape.2.1).map fun s =>
    (List.range a.shape.2.2).map fun k => a.get t s k

/-- An array argument. -/
inductive ArrayArg where
  | nested (rows : List (List (List Single)))
  | ndarray (a : NdArray)

namespace ArrayArg

/-- `_is_ndarray`. -/
def isNdarray : ArrayArg → Bool
  | nested _ => false
  | ndarray _ => true

/-- The entries. -/
def toNested : ArrayArg → List (List (List Single))
  | nested rows => rows
  | ndarray a => a.toNested

/-- `x[t][s]`. -/
def item (x : ArrayArg) (t s : ℕ) : Except PackError (List Single) :=
  match x.toNested[t]? with
  | none => throw .indexError
  | some row =>
    match row[s]? with
    | none => throw .indexError
    | some cell => pure cell

/-- The nested lists have the shape of their first entries, as numpy asks for. -/
def Rectangular (rows : List (List (List Single))) : Prop :=
  Shaped rows.length (rows.headD []).length ((rows.headD []).headD []).length rows

instance (rows : List (List (List Single))) : Decidable (Rectangular rows) :=
  decidable_of_iff
    (Rows (rows.headD []).length rows ∧ ∀ row ∈ rows, Rows ((rows.headD []).headD []).length row)
    ⟨fun h => ⟨rfl, h.1, h.2⟩, fun h => ⟨h.rows, h.cells⟩⟩

/-- `np.ascontiguousarray(x, dtype=np.float32).tobytes()`. -/
def tobytes (x : ArrayArg) : Except PackError (List UInt8) :=
  if Rectangular x.toNested then pure (single.encodeAll x.toNested.flatten.flatten)
  else throw .valueError

end ArrayArg

/-- `struct.pack("<I", n)`. -/
def packU32 (n : ℕ) : Except PackError (List UInt8) :=
  if n < 2 ^ 32 then pure (toLE 4 n) else throw .structError

/-- `struct.pack(f"<{count}f", *values)`. -/
def packSingles (count : ℕ) (values : List Single) : Except PackError (List UInt8) :=
  if values.length = count then pure (single.encodeAll values) else throw .structError

/-- The header of a file. -/
def packHeader (version numSymbols numTimesteps featuresPerSym : ℕ) :
    Except PackError (List UInt8) := do
  let version ← packU32 version
  let numSymbols ← packU32 numSymbols
  let numTimesteps ← packU32 numTimesteps
  let featuresPerSym ← packU32 featuresPerSym
  let priceFeats ← packU32 priceFeatures
  pure (magic ++ (version ++ (numSymbols ++ (numTimesteps ++ (featuresPerSym ++
    (priceFeats ++ List.replicate 40 0))))))

/-- `name.encode("ascii")`. -/
def encodeAscii (name : String) : Except PackError (List UInt8) :=
  name.toList.mapM fun c =>
    if c.toNat < 128 then pure (UInt8.ofNat c.toNat) else throw .unicodeError

/-- `bs.ljust(width, b"\x00")`. -/
def ljust (width : ℕ) (bs : List UInt8) : List UInt8 :=
  bs ++ List.replicate (width - bs.length) 0

/-- The entry of a name in the table. -/
def packName (name : String) : Except PackError (List UInt8) := do
  let raw ← encodeAscii name
  pure (ljust symNameLen (raw.take (symNameLen - 1)))

/-- The loops of `write_market_bin` over one nested array. -/
def packBlock (x : ArrayArg) (numTimesteps numSymbols per : ℕ) :
    Except PackError (List UInt8) := do
  let rows ← (List.range numTimesteps).mapM fun t =>
    (List.range numSymbols).mapM fun s => do
      let values ← x.item t s
      packSingles per values
  pure rows.flatten.flatten

/-- `write_market_bin`: the bytes of the file. -/
def writeMarketBin (symbolNames : List String) (features prices : ArrayArg)
    (numTimesteps featuresPerSym version : ℕ) : Except PackError (List UInt8) := do
  let numSymbols := symbolNames.length
  let header ← packHeader version numSymbols numTimesteps featuresPerSym
  let table ← symbolNames.mapM packName
  if features.isNdarray then
    let featureBytes ← features.tobytes
    let priceBytes ← prices.tobytes
    pure (header ++ (table.flatten ++ (featureBytes ++ priceBytes)))
  else
    let featureBytes ← packBlock features numTimesteps numSymbols featuresPerSym
    let priceBytes ← packBlock prices numTimesteps numSymbols priceFeatures
    pure (header ++ (table.flatten ++ (featureBytes ++ priceBytes)))

/-! ## The Python decoder -/

/-- The result of `read_header`. -/
structure Header where
  version : ℕ
  numSymbols : ℕ
  numTimesteps : ℕ
  featuresPerSym : ℕ
  priceFeatures : ℕ
  deriving DecidableEq, Repr

/-- `read_header`. -/
def readHeader (file : List UInt8) : Except PackError Header :=
  let raw := slice 0 headerSize file
  if raw.length = headerSize then
    if slice 0 4 raw = magic then
      pure
        { version := ofLE (slice 4 4 raw)
          numSymbols := ofLE (slice 8 4 raw)
          numTimesteps := ofLE (slice 12 4 raw)
          featuresPerSym := ofLE (slice 16 4 raw)
          priceFeatures := ofLE (slice 20 4 raw) }
    else throw .valueError
  else throw .structError

/-- The inner loop of `_read_block`: one row of `ns` cells from index `i` on, and the index after
it. -/
def readRow (flat : List Single) (per : ℕ) : ℕ → ℕ → List (List Single) × ℕ
  | 0, i => ([], i)
  | ns + 1, i =>
    let (row, i') := readRow flat per ns (i + per)
    (slice i per flat :: row, i')

/-- The outer loop of `_read_block`. -/
def readRows (flat : List Single) (ns per : ℕ) : ℕ → ℕ → List (List (List Single))
  | 0, _ => []
  | nt + 1, i =>
    let (row, i') := readRow flat per ns i
    row :: readRows flat ns per nt i'

/-- `_read_block`. -/
def readBlock (file : List UInt8) (offset nt ns per : ℕ) :
    Except PackError (List (List (List Single))) :=
  let count := nt * ns * per
  let raw := slice offset (count * 4) file
  if raw.length = count * 4 then pure (readRows (single.decodeAll count raw) ns per nt 0)
  else throw .structError

/-- `read_features`. -/
def readFeatures (file : List UInt8) : Except PackError (List (List (List Single))) := do
  let hdr ← readHeader file
  let offset := headerSize + hdr.numSymbols * symNameLen
  readBlock file offset hdr.numTimesteps hdr.numSymbols hdr.featuresPerSym

/-- `read_prices`. -/
def readPrices (file : List UInt8) : Except PackError (List (List (List Single))) := do
  let hdr ← readHeader file
  let offset := headerSize + hdr.numSymbols * symNameLen +
    hdr.numTimesteps * hdr.numSymbols * hdr.featuresPerSym * 4
  readBlock file offset hdr.numTimesteps hdr.numSymbols hdr.priceFeatures

/-- `raw.decode("ascii")`. -/
def decodeAscii (raw : List UInt8) : Except PackError String := do
  let chars ← raw.mapM fun b =>
    if b.toNat < 128 then pure (Char.ofNat b.toNat) else throw .unicodeError
  pure (String.ofList chars)

/-- The loop of `read_symbols`, on the rest of the file. -/
def readNames : ℕ → List UInt8 → Except PackError (List String)
  | 0, _ => pure []
  | ns + 1, rest => do
    let raw := rest.take symNameLen
    let name ← decodeAscii (raw.takeWhile (· ≠ 0))
    let names ← readNames ns (rest.drop symNameLen)
    pure (name :: names)

/-- `read_symbols`. -/
def readSymbols (file : List UInt8) : Except PackError (List String) := do
  let hdr ← readHeader file
  readNames hdr.numSymbols (file.drop headerSize)

/-! ## The C decoder -/

/-- `MarketData` as `market_data_load` fills it: the arrays are offsets into the buffer that
holds the file. -/
structure LoadedData where
  numSymbols : ℤ
  numTimesteps : ℤ
  featuresPerSym : ℤ
  symNames : List (List UInt8)
  features : ℤ
  prices : ℤ
  tradable : Option ℤ
  anyTradable : Option (List Bool)
  fileBuf : List UInt8

/-- `(int)` of an `unsigned int`. -/
def toInt (n : ℕ) : ℤ := if n < 2 ^ 31 then n else n - 2 ^ 32

/-- `(size_t)` of an `int`. -/
def toSize (n : ℤ) : ℕ := (n % 2 ^ 64).toNat

/-- A product of sizes. -/
def sizeMul (m n : ℕ) : ℕ := m * n % 2 ^ 64

/-- The value of an expression of type `int`. -/
def intResult (n : ℤ) : Checked ℤ :=
  if -2 ^ 31 ≤ n ∧ n < 2 ^ 31 then pure n else throw (.outOfRange n (2 ^ 31))

/-- `count` bytes of the buffer. -/
def readBytes (buf : List UInt8) (offset : ℤ) (count : ℕ) : Checked (List UInt8) :=
  if 0 ≤ offset ∧ offset + count ≤ buf.length then pure (slice offset.toNat count buf)
  else throw (.outOfRange offset buf.length)

/-- An `unsigned int` of the buffer. -/
def readU32 (buf : List UInt8) (offset : ℤ) : Checked ℕ := do
  let raw ← readBytes buf offset 4
  pure (ofLE raw)

/-- A `float` of the buffer. -/
def readSingle (buf : List UInt8) (offset : ℤ) : Checked Single := do
  let raw ← readBytes buf offset 4
  pure (single.decode raw)

/-- The entry `i` of the name table, as `market_data_load` copies it. -/
def copyName (buf : List UInt8) (ptr : ℤ) (i : ℕ) : Checked (List UInt8) := do
  let raw ← readBytes buf (ptr + i * symNameLen) symNameLen
  pure (raw.set (symNameLen - 1) 0)

/-- The byte of the buffer at an offset. -/
def readByte (buf : List UInt8) (offset : ℤ) : Checked UInt8 := do
  let raw ← readBytes buf offset 1
  pure (raw.headD 0)

/-- The cache of the rows with an open market. -/
def anyOpenRows (buf : List UInt8) (mask numTimesteps numSymbols : ℤ) : Checked (List Bool) :=
  (List.range numTimesteps.toNat).mapM fun t : ℕ =>
    (List.range numSymbols.toNat).anyM fun s : ℕ => do
      let flag ← readByte buf (mask + t * numSymbols + s)
      pure (flag ≠ 0)

/-- The optional mask at offset `ptr`, with its cache; `none` where the version asks for a mask
that is missing, and where the cache cannot be allocated. -/
def findMask (buf : List UInt8) (version : ℕ) (ptr numTimesteps numSymbols : ℤ) :
    Checked (Option (Option ℤ × Option (List Bool))) :=
  let maskBytes := sizeMul (toSize numTimesteps) (toSize numSymbols)
  if (toSize ptr + maskBytes) % 2 ^ 64 ≤ buf.length then
    -- `malloc` of a negative number of timesteps fails
    if numTimesteps < 0 then pure none
    else do
      let cache ← anyOpenRows buf ptr numTimesteps numSymbols
      pure (some (some ptr, some cache))
  else if version ≥ 2 then pure none
  else pure (some (none, none))

/-- `ptr += size`, on a pointer given by its offset into the buffer. -/
def movePtr (ptr : ℤ) (size : ℕ) : ℤ := (ptr + size).bmod (2 ^ 64)

/-- A pointer that stays in the address space moves by the size. -/
lemma movePtr_eq {ptr : ℤ} {size : ℕ} (hlow : -2 ^ 63 ≤ ptr) (hhigh : ptr + size < 2 ^ 63) :
    movePtr ptr size = ptr + size := by
  unfold movePtr
  exact Int.bmod_eq_of_le (by omega) (by omega)

/-- The size of an array of `float`s. -/
def blockBytes (numTimesteps numSymbols per : ℤ) : ℕ :=
  sizeMul (sizeMul (sizeMul (toSize numTimesteps) (toSize numSymbols)) (toSize per)) 4

/-- `market_data_load`, on the bytes of the file; `none` is `NULL`. -/
def marketDataLoad (buf : List UInt8) : Checked (Option LoadedData) := do
  let magicField ← readBytes buf 0 4
  if magicField ≠ magic then pure none
  else do
    let version ← readU32 buf 4
    let numSymbols ← readU32 buf 8
    let numTimesteps ← readU32 buf 12
    let features ← readU32 buf 16
    let numSymbols := toInt numSymbols
    let numTimesteps := toInt numTimesteps
    let featuresPerSym := if features > 0 then toInt features else defaultFeaturesPerSym
    if numSymbols > maxSymbols then pure none
    else do
      let ptr : ℤ := headerSize
      let symNames ← (List.range numSymbols.toNat).mapM (copyName buf ptr)
      let table ← intResult (numSymbols * symNameLen)
      let features := ptr + table
      let prices := movePtr features (blockBytes numTimesteps numSymbols featuresPerSym)
      let ptr := movePtr prices (blockBytes numTimesteps numSymbols priceFeatures)
      let mask ← findMask buf version ptr numTimesteps numSymbols
      pure (mask.map fun m =>
        { numSymbols := numSymbols
          numTimesteps := numTimesteps
          featuresPerSym := featuresPerSym
          symNames := symNames
          features := features
          prices := prices
          tradable := m.1
          anyTradable := m.2
          fileBuf := buf })

/-- The entry `[t][s][k]` of an array at offset `base`, indexed as an `int`. -/
def readEntry (md : LoadedData) (base per t s k : ℤ) : Checked Single := do
  let i ← intResult (t * md.numSymbols)
  let i ← intResult (i + s)
  let i ← intResult (i * per)
  let i ← intResult (i + k)
  readSingle md.fileBuf (base + 4 * i)

/-- `keel_md_feature`. -/
def keelMdFeature (md : Option LoadedData) (t s f : ℤ) : Checked Single :=
  match md with
  | none => pure ⟨0⟩
  | some md => readEntry md md.features md.featuresPerSym t s f

/-- `keel_md_price`. -/
def keelMdPrice (md : Option LoadedData) (t s p : ℤ) : Checked Single :=
  match md with
  | none => pure ⟨0⟩
  | some md => readEntry md md.prices priceFeatures t s p

/-- A NUL-terminated string. -/
def cString (raw : List UInt8) : String :=
  String.ofList ((raw.takeWhile (· ≠ 0)).map fun b => Char.ofNat b.toNat)

end KeelTrader.Sim
