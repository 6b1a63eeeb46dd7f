import KeelTrader.Sim.Binpack

set_option relaxedAutoImplicit false
set_option autoImplicit false

/-!
# The round trip of a market data file

A file that is written from names and arrays is read back to them, by the Python code and by the C
code.

## Main definitions

* `KeelTrader.Sim.MarketArrays` — names and arrays that the format can hold.
* `KeelTrader.Sim.MarketArrays.image` — the layout of their file.

## Main results

* `KeelTrader.Sim.writeMarketBin_image` — the encoder writes the image, in either branch.
* `KeelTrader.Sim.readBlock_encodeAll` — the loops of `_read_block` rebuild an array.
* `KeelTrader.Sim.marketDataLoad_image` — what the C code makes of the image.
* `KeelTrader.Sim.mktd_round_trip` — both decoders read the names and the arrays back.

## Implementation notes

The encoder and the decoders are each compared with the image, so that none of them is compared
with another one.
-/

namespace KeelTrader.Sim

open Checked Packed

/-! ## The image of a file -/

/-- A name that the table can hold. -/
structure TableName (name : String) : Prop where
  ascii : ∀ c ∈ name.toList, c.toNat < 128
  noNul : ∀ c ∈ name.toList, c.toNat ≠ 0
  short : name.toList.length ≤ 15

instance (name : String) : Decidable (TableName name) :=
  decidable_of_iff
    ((name.toList.all fun c => decide (c.toNat < 128 ∧ c.toNat ≠ 0)) = true ∧
      name.toList.length ≤ 15)
    ⟨fun h => ⟨fun c hc => (of_decide_eq_true (List.all_eq_true.mp h.1 c hc)).1,
        fun c hc => (of_decide_eq_true (List.all_eq_true.mp h.1 c hc)).2, h.2⟩,
      fun h => ⟨List.all_eq_true.mpr fun c hc => decide_eq_true ⟨h.ascii c hc, h.noNul c hc⟩,
        h.short⟩⟩

/-- Symbol names, features and prices that the format can hold. -/
structure MarketArrays where
  names : List String
  numTimesteps : ℕ
  featuresPerSym : ℕ
  features : List (List (List Single))
  prices : List (List (List Single))
  tableNames : ∀ name ∈ names, TableName name
  one_le_symbols : 1 ≤ names.length
  symbols_le : names.length ≤ 128
  one_le_timesteps : 1 ≤ numTimesteps
  one_le_features : 1 ≤ featuresPerSym
  size : numTimesteps * names.length * max featuresPerSym 5 < 2 ^ 31
  features_shaped : Shaped numTimesteps names.length featuresPerSym features
  prices_shaped : Shaped numTimesteps names.length 5 prices

/-- The bytes of an ASCII string. -/
def asciiBytes (name : String) : List UInt8 := name.toList.map fun c => UInt8.ofNat c.toNat

/-- The entry of a name in the table. -/
def nameBytes (name : String) : List UInt8 := ljust symNameLen (asciiBytes name)

/-- The header of a file. -/
def headerBytes (version numSymbols numTimesteps featuresPerSym : ℕ) : List UInt8 :=
  magic ++ (toLE 4 version ++ (toLE 4 numSymbols ++ (toLE 4 numTimesteps ++
    (toLE 4 featuresPerSym ++ (toLE 4 priceFeatures ++ List.replicate 40 0)))))

namespace MarketArrays

variable (m : MarketArrays)

def header : List UInt8 := headerBytes 1 m.names.length m.numTimesteps m.featuresPerSym

def table : List UInt8 := m.names.flatMap nameBytes

def featureBytes : List UInt8 := single.encodeAll m.features.flatten.flatten

def priceBytes : List UInt8 := single.encodeAll m.prices.flatten.flatten

/-- The file. -/
def image : List UInt8 := m.header ++ (m.table ++ (m.featureBytes ++ m.priceBytes))

/-! ### Sizes -/

lemma area_le : m.numTimesteps * m.names.length * 5 < 2 ^ 31 :=
  lt_of_le_of_lt (Nat.mul_le_mul_left _ (le_max_right _ _)) m.size

lemma volume_lt : m.numTimesteps * m.names.length * m.featuresPerSym < 2 ^ 31 :=
  lt_of_le_of_lt (Nat.mul_le_mul_left _ (le_max_left _ _)) m.size

lemma area_pos : 1 ≤ m.numTimesteps * m.names.length :=
  Nat.mul_pos m.one_le_timesteps m.one_le_symbols

lemma timesteps_lt : m.numTimesteps < 2 ^ 31 := by
  have hle : m.numTimesteps * 1 ≤ m.numTimesteps * m.names.length :=
    Nat.mul_le_mul_left _ m.one_le_symbols
  have harea := m.area_le
  omega

lemma features_lt : m.featuresPerSym < 2 ^ 31 := by
  have hle : 1 * m.featuresPerSym ≤ m.numTimesteps * m.names.length * m.featuresPerSym :=
    Nat.mul_le_mul_right _ m.area_pos
  have hvolume := m.volume_lt
  omega

@[simp] lemma length_header : m.header.length = headerSize := by
  simp [header, headerBytes, magic, headerSize]

end MarketArrays

lemma length_nameBytes {name : String} (h : TableName name) :
    (nameBytes name).length = symNameLen := by
  have hshort := h.short
  simp only [nameBytes, ljust, asciiBytes, symNameLen, List.length_append, List.length_map,
    List.length_replicate]
  omega

namespace MarketArrays

variable (m : MarketArrays)

@[simp] lemma length_table : m.table.length = m.names.length * 16 :=
  length_flatMap_width fun name hname => length_nameBytes (m.tableNames name hname)

@[simp] lemma length_featureBytes :
    m.featureBytes.length = m.numTimesteps * m.names.length * m.featuresPerSym * 4 := by
  rw [featureBytes, Codec.length_encodeAll, m.features_shaped.length_flatten]
  rfl

@[simp] lemma length_priceBytes :
    m.priceBytes.length = m.numTimesteps * m.names.length * 5 * 4 := by
  rw [priceBytes, Codec.length_encodeAll, m.prices_shaped.length_flatten]
  rfl

lemma length_image : m.image.length = 64 + m.names.length * 16 +
    m.numTimesteps * m.names.length * m.featuresPerSym * 4 +
    m.numTimesteps * m.names.length * 5 * 4 := by
  simp only [image, List.length_append, length_header, length_table, length_featureBytes,
    length_priceBytes, headerSize]
  omega

end MarketArrays

/-! ## Writing -/

lemma encodeAscii_eq_ok {name : String} (h : ∀ c ∈ name.toList, c.toNat < 128) :
    encodeAscii name = .ok (asciiBytes name) := by
  refine mapM_eq_ok fun c hc => ?_
  rw [if_pos (h c hc)]
  rfl

lemma packName_eq_ok {name : String} (h : TableName name) :
    packName name = .ok (nameBytes name) := by
  have hshort : (asciiBytes name).length ≤ symNameLen - 1 := by
    rw [asciiBytes, List.length_map]
    exact h.short
  unfold packName
  rw [encodeAscii_eq_ok h.ascii]
  simp only [bind, Except.bind, List.take_of_length_le hshort]
  rfl

/-- Sequencing after a call that returned. -/
lemma bind_of_ok {α β : Type} (a : α) (f : α → Except PackError β) :
    (Except.ok a >>= f) = f a := rfl

lemma packU32_eq_ok {n : ℕ} (h : n < 2 ^ 32) : packU32 n = .ok (toLE 4 n) := if_pos h

lemma packHeader_eq_ok {version numSymbols numTimesteps featuresPerSym : ℕ}
    (hversion : version < 2 ^ 32) (hsymbols : numSymbols < 2 ^ 32)
    (htimesteps : numTimesteps < 2 ^ 32) (hfeatures : featuresPerSym < 2 ^ 32) :
    packHeader version numSymbols numTimesteps featuresPerSym =
      .ok (headerBytes version numSymbols numTimesteps featuresPerSym) := by
  unfold packHeader
  rw [packU32_eq_ok hversion, packU32_eq_ok hsymbols, packU32_eq_ok htimesteps,
    packU32_eq_ok hfeatures, packU32_eq_ok (n := priceFeatures) (by decide)]
  rfl

section Arrays

variable {nt ns per : ℕ} {x : ArrayArg}

/-- One pass over rows by index. -/
lemma map_range_getD {α β : Type} (l : List α) (d : α) (f : α → β) :
    (List.range l.length).map (fun i => f (l.getD i d)) = l.map f := by
  apply List.ext_getElem
  · simp
  · intro i h₁ h₂
    have hi : i < l.length := by simpa using h₂
    simp [hi]

/-- The branch for nested sequences writes an array in row-major order. -/
lemma packBlock_eq_ok (h : Shaped nt ns per x.toNested) :
    packBlock x nt ns per = .ok (single.encodeAll x.toNested.flatten.flatten) := by
  have hcell : ∀ t ∈ List.range nt, ∀ s ∈ List.range ns,
      (do let values ← x.item t s; packSingles per values) =
        .ok (single.encodeAll ((x.toNested.getD t []).getD s [])) := by
    intro t ht s hs
    have ht' : t < x.toNested.length := by
      rw [h.length]
      exact List.mem_range.mp ht
    have hrow := h.rows _ (List.getElem_mem ht')
    have hs' : s < x.toNested[t].length := by
      rw [hrow]
      exact List.mem_range.mp hs
    have hlen := h.cells _ (List.getElem_mem ht') _ (List.getElem_mem hs')
    simp [ArrayArg.item, packSingles, ht', hs', hlen, bind, Except.bind, pure, Except.pure]
  have hrows : ((List.range nt).mapM fun t => (List.range ns).mapM fun s => do
      let values ← x.item t s
      packSingles per values) = .ok ((List.range nt).map fun t =>
        (List.range ns).map fun s => single.encodeAll ((x.toNested.getD t []).getD s [])) :=
    mapM_eq_ok fun t ht => mapM_eq_ok fun s hs => hcell t ht s hs
  have hmap : ((List.range nt).map fun t =>
      (List.range ns).map fun s => single.encodeAll ((x.toNested.getD t []).getD s [])) =
      x.toNested.map fun row => row.map single.encodeAll := by
    rw [← map_range_getD x.toNested [], h.length]
    refine List.map_congr_left fun t ht => ?_
    have ht' : t < x.toNested.length := by
      rw [h.length]
      exact List.mem_range.mp ht
    have hrow : (x.toNested.getD t []).length = ns := by
      simpa [ht'] using h.rows _ (List.getElem_mem ht')
    rw [← hrow, map_range_getD]
  unfold packBlock
  rw [hrows, hmap, Codec.encodeAll_flatten, List.map_flatten]
  rfl

/-- The numpy branch writes an array in row-major order. -/
lemma tobytes_eq_ok (h : Shaped nt ns per x.toNested) (hnt : 1 ≤ nt) (hns : 1 ≤ ns) :
    x.tobytes = .ok (single.encodeAll x.toNested.flatten.flatten) := by
  have hrect : ArrayArg.Rectangular x.toNested := by
    unfold ArrayArg.Rectangular
    obtain ⟨row, rows, hx⟩ : ∃ row rows, x.toNested = row :: rows :=
      List.exists_cons_of_length_pos (by rw [h.length]; exact hnt)
    have hrow : row.length = ns := h.rows row (by rw [hx]; exact List.mem_cons_self)
    obtain ⟨cell, cells, rfl⟩ : ∃ cell cells, row = cell :: cells :=
      List.exists_cons_of_length_pos (by rw [hrow]; exact hns)
    have hcell : cell.length = per :=
      h.cells _ (by rw [hx]; exact List.mem_cons_self) cell List.mem_cons_self
    have hhead : x.toNested.headD [] = cell :: cells := by
      rw [hx]
      rfl
    rw [hhead, hrow, h.length, List.headD_cons, hcell]
    exact h
  exact if_pos hrect

end Arrays

/-- **Encoding.** Either branch of `write_market_bin` writes the image. -/
theorem writeMarketBin_image (m : MarketArrays) {features prices : ArrayArg}
    (hfeatures : features.toNested = m.features) (hprices : prices.toNested = m.prices) :
    writeMarketBin m.names features prices m.numTimesteps m.featuresPerSym 1 = .ok m.image := by
  have hheader : packHeader 1 m.names.length m.numTimesteps m.featuresPerSym = .ok m.header :=
    packHeader_eq_ok (by norm_num) (lt_of_le_of_lt m.symbols_le (by norm_num))
      (lt_trans m.timesteps_lt (by norm_num)) (lt_trans m.features_lt (by norm_num))
  have htable : m.names.mapM packName = .ok (m.names.map nameBytes) :=
    mapM_eq_ok fun name hname => packName_eq_ok (m.tableNames name hname)
  have hfshape := m.features_shaped
  have hpshape := m.prices_shaped
  rw [← hfeatures] at hfshape
  rw [← hprices] at hpshape
  unfold writeMarketBin
  simp only [hheader, htable, bind, Except.bind]
  split
  · rw [tobytes_eq_ok hfshape m.one_le_timesteps m.one_le_symbols,
      tobytes_eq_ok hpshape m.one_le_timesteps m.one_le_symbols, hfeatures, hprices]
    rfl
  · rw [packBlock_eq_ok hfshape, priceFeatures, packBlock_eq_ok hpshape, hfeatures, hprices]
    rfl

/-! ## Reading in Python -/

/-- The numbers in the header. -/
lemma MarketArrays.header_fields (m : MarketArrays) :
    ofLE (slice 8 4 m.header) = m.names.length ∧ ofLE (slice 12 4 m.header) = m.numTimesteps ∧
      ofLE (slice 16 4 m.header) = m.featuresPerSym := by
  have hsymbols : ofLE (toLE 4 m.names.length) = m.names.length :=
    ofLE_toLE (lt_of_le_of_lt m.symbols_le (by norm_num))
  have htimesteps : ofLE (toLE 4 m.numTimesteps) = m.numTimesteps :=
    ofLE_toLE (lt_trans m.timesteps_lt (by norm_num))
  have hfeatures : ofLE (toLE 4 m.featuresPerSym) = m.featuresPerSym :=
    ofLE_toLE (lt_trans m.features_lt (by norm_num))
  exact ⟨hsymbols, htimesteps, hfeatures⟩

lemma readHeader_image (m : MarketArrays) :
    readHeader m.image = .ok
      { version := 1
        numSymbols := m.names.length
        numTimesteps := m.numTimesteps
        featuresPerSym := m.featuresPerSym
        priceFeatures := 5 } := by
  have hraw : slice 0 headerSize m.image = m.header := by
    rw [← m.length_header]
    exact slice_append [] m.header _
  obtain ⟨hsymbols, htimesteps, hfeatures⟩ := m.header_fields
  unfold readHeader
  rw [hraw]
  dsimp only
  rw [if_pos m.length_header, if_pos (show slice 0 4 m.header = magic from rfl), hsymbols,
    htimesteps, hfeatures]
  rfl

/-- The byte of an ASCII character. -/
lemma toNat_asciiByte {c : Char} (h : c.toNat < 128) : (UInt8.ofNat c.toNat).toNat = c.toNat := by
  rw [UInt8.toNat_ofNat']
  omega

/-- The characters of the bytes of a name. -/
lemma map_asciiBytes {name : String} (h : ∀ c ∈ name.toList, c.toNat < 128) :
    (asciiBytes name).map (fun b => Char.ofNat b.toNat) = name.toList := by
  rw [asciiBytes, List.map_map]
  conv_rhs => rw [← List.map_id name.toList]
  refine List.map_congr_left fun c hc => ?_
  rw [Function.comp_apply, toNat_asciiByte (h c hc)]
  exact Char.ofNat_toNat c

/-- A name of ASCII characters is decoded from its bytes. -/
lemma decodeAscii_asciiBytes {name : String} (h : ∀ c ∈ name.toList, c.toNat < 128) :
    decodeAscii (asciiBytes name) = .ok name := by
  have hchars : ((asciiBytes name).mapM fun b =>
      if b.toNat < 128 then pure (Char.ofNat b.toNat) else throw .unicodeError) =
      (.ok name.toList : Except PackError (List Char)) := by
    rw [← map_asciiBytes h]
    refine mapM_eq_ok fun b hb => if_pos ?_
    obtain ⟨c, hc, rfl⟩ := List.mem_map.mp hb
    rw [toNat_asciiByte (h c hc)]
    exact h c hc
  unfold decodeAscii
  rw [hchars]
  exact congrArg Except.ok String.ofList_toList

/-- The bytes of a name end at the padding. -/
lemma takeWhile_nameBytes {name : String} (h : TableName name) :
    (nameBytes name).takeWhile (· ≠ 0) = asciiBytes name := by
  have hbyte : ∀ b ∈ asciiBytes name, b ≠ 0 := by
    intro b hb
    obtain ⟨c, hc, rfl⟩ := List.mem_map.mp hb
    intro hzero
    apply h.noNul c hc
    rw [← toNat_asciiByte (h.ascii c hc), hzero]
    rfl
  have hshort : (asciiBytes name).length < symNameLen := by
    rw [asciiBytes, List.length_map]
    exact Nat.lt_succ_of_le h.short
  unfold nameBytes ljust
  rw [List.takeWhile_append_of_pos (by simpa using hbyte)]
  obtain ⟨k, hk⟩ : ∃ k, symNameLen - (asciiBytes name).length = k + 1 :=
    ⟨_, (Nat.succ_pred_eq_of_pos (by omega)).symm⟩
  rw [hk, List.replicate_succ]
  simp

/-- The loop of `read_symbols` reads a table. -/
lemma readNames_table {names : List String} (h : ∀ name ∈ names, TableName name)
    (rest : List UInt8) :
    readNames names.length (names.flatMap nameBytes ++ rest) = .ok names := by
  induction names with
  | nil => rfl
  | cons name names ih =>
    have hname := h name List.mem_cons_self
    have hlen := length_nameBytes hname
    rw [List.flatMap_cons, List.append_assoc, List.length_cons, readNames]
    rw [← hlen, List.take_left, List.drop_left, takeWhile_nameBytes hname,
      decodeAscii_asciiBytes hname.ascii, ih fun n hn => h n (List.mem_cons_of_mem _ hn)]
    rfl

lemma readSymbols_image (m : MarketArrays) : readSymbols m.image = .ok m.names := by
  have hdrop : m.image.drop headerSize = m.table ++ (m.featureBytes ++ m.priceBytes) := by
    rw [← m.length_header]
    exact List.drop_left
  unfold readSymbols
  rw [readHeader_image, bind_of_ok, hdrop]
  exact readNames_table m.tableNames _

/-- The inner loop of `_read_block`, on a row that starts at index `before.length`. -/
lemma readRow_flatten {per : ℕ} (row : List (List Single)) (h : Rows per row)
    (before after : List Single) :
    readRow (before ++ (row.flatten ++ after)) per row.length before.length =
      (row, before.length + row.length * per) := by
  induction row generalizing before with
  | nil => simp [readRow]
  | cons cell row ih =>
    have hcell : cell.length = per := h cell List.mem_cons_self
    have hnext := ih (fun c hc => h c (List.mem_cons_of_mem _ hc)) (before ++ cell)
    rw [List.length_append, hcell, List.append_assoc] at hnext
    rw [List.flatten_cons, List.append_assoc, List.length_cons, readRow, hnext]
    have hslice := slice_append before cell (row.flatten ++ after)
    rw [hcell] at hslice
    rw [hslice]
    ext1
    · rfl
    · dsimp only
      ring

/-- The outer loop of `_read_block`. -/
lemma readRows_flatten {ns per : ℕ} (rows : List (List (List Single))) (hrows : Rows ns rows)
    (hcells : ∀ row ∈ rows, Rows per row) (before after : List Single) :
    readRows (before ++ (rows.flatten.flatten ++ after)) ns per rows.length before.length =
      rows := by
  induction rows generalizing before with
  | nil => rfl
  | cons row rows ih =>
    have hlen : row.length = ns := hrows row List.mem_cons_self
    have hcell := hcells row List.mem_cons_self
    have hnext := ih (fun r hr => hrows r (List.mem_cons_of_mem _ hr))
      (fun r hr => hcells r (List.mem_cons_of_mem _ hr)) (before ++ row.flatten)
    rw [List.length_append, length_flatten_rows hcell, hlen, List.append_assoc] at hnext
    rw [List.flatten_cons, List.flatten_append, List.append_assoc, List.length_cons, readRows,
      ← hlen, readRow_flatten row hcell]
    dsimp only
    rw [hlen, hnext]

/-- **Reading a block.** The loops of `_read_block` rebuild an array from its bytes. -/
theorem readBlock_encodeAll {nt ns per : ℕ} {a : List (List (List Single))}
    (h : Shaped nt ns per a) (before after : List UInt8) :
    readBlock (before ++ (single.encodeAll a.flatten.flatten ++ after)) before.length nt ns per =
      .ok a := by
  have hlen : (single.encodeAll a.flatten.flatten).length = nt * ns * per * 4 := by
    rw [Codec.length_encodeAll, h.length_flatten]
    rfl
  have hraw := slice_append before (single.encodeAll a.flatten.flatten) after
  rw [hlen] at hraw
  have hflat : single.decodeAll (nt * ns * per) (single.encodeAll a.flatten.flatten) =
      a.flatten.flatten := by
    rw [← h.length_flatten]
    exact single.decodeAll_encodeAll _
  have hrows := readRows_flatten a h.rows h.cells [] []
  rw [List.append_nil, List.nil_append, h.length] at hrows
  unfold readBlock
  dsimp only
  rw [hraw, if_pos hlen, hflat]
  exact congrArg Except.ok hrows

lemma readFeatures_image (m : MarketArrays) : readFeatures m.image = .ok m.features := by
  have hsplit : m.image = (m.header ++ m.table) ++ (m.featureBytes ++ m.priceBytes) := by
    rw [List.append_assoc]
    rfl
  have hoffset : headerSize + m.names.length * symNameLen = (m.header ++ m.table).length := by
    rw [List.length_append, m.length_header, m.length_table]
    rfl
  unfold readFeatures
  rw [readHeader_image, bind_of_ok]
  dsimp only
  rw [hoffset, hsplit]
  exact readBlock_encodeAll m.features_shaped _ _

lemma readPrices_image (m : MarketArrays) : readPrices m.image = .ok m.prices := by
  have hsplit : m.image = (m.header ++ (m.table ++ m.featureBytes)) ++ (m.priceBytes ++ []) := by
    simp only [MarketArrays.image, List.append_assoc, List.append_nil]
  have hoffset : headerSize + m.names.length * symNameLen +
      m.numTimesteps * m.names.length * m.featuresPerSym * 4 =
      (m.header ++ (m.table ++ m.featureBytes)).length := by
    simp only [List.length_append, m.length_header, m.length_table, m.length_featureBytes,
      headerSize, symNameLen]
    omega
  unfold readPrices
  rw [readHeader_image, bind_of_ok]
  dsimp only
  rw [hoffset, hsplit]
  exact readBlock_encodeAll m.prices_shaped _ _

/-! ## Loading in C -/

/-- A read within the buffer. -/
lemma readBytes_eq_ok {buf : List UInt8} {offset count : ℕ} (h : offset + count ≤ buf.length) :
    readBytes buf offset count = .ok (slice offset count buf) := by
  have hin : (0 : ℤ) ≤ offset ∧ (offset : ℤ) + count ≤ buf.length := by
    constructor
    · positivity
    · exact_mod_cast h
  exact if_pos hin

lemma toInt_of_lt {n : ℕ} (h : n < 2 ^ 31) : toInt n = n := if_pos h

lemma intResult_eq_ok {n : ℕ} (h : n < 2 ^ 31) : intResult n = .ok (n : ℤ) := by
  have hin : -2 ^ 31 ≤ (n : ℤ) ∧ (n : ℤ) < 2 ^ 31 := by omega
  exact if_pos hin

/-- The size of an array that fits in memory. -/
lemma blockBytes_eq {nt ns per : ℕ} (hnt : nt < 2 ^ 31) (hns : ns < 2 ^ 31) (hper : per < 2 ^ 31)
    (hsize : nt * ns * per < 2 ^ 31) (harea : nt * ns < 2 ^ 31) :
    blockBytes nt ns per = nt * ns * per * 4 := by
  have hsizeOf : ∀ n : ℕ, n < 2 ^ 31 → toSize n = n := by
    intro n hn
    unfold toSize
    omega
  unfold blockBytes
  rw [hsizeOf nt hnt, hsizeOf ns hns, hsizeOf per hper]
  unfold sizeMul
  rw [Nat.mod_eq_of_lt (a := nt * ns) (by omega), Nat.mod_eq_of_lt (a := nt * ns * per) (by omega),
    Nat.mod_eq_of_lt (by omega)]

namespace MarketArrays

variable (m : MarketArrays)

/-- The image, as it is loaded. -/
def loaded : LoadedData where
  numSymbols := m.names.length
  numTimesteps := m.numTimesteps
  featuresPerSym := m.featuresPerSym
  symNames := m.names.map nameBytes
  features := headerSize + m.names.length * symNameLen
  prices := headerSize + m.names.length * symNameLen +
    m.numTimesteps * m.names.length * m.featuresPerSym * 4
  tradable := none
  anyTradable := none
  fileBuf := m.image

/-- A field of the header. -/
lemma readBytes_header {offset : ℕ} (h : offset + 4 ≤ headerSize) :
    readBytes m.image offset 4 = .ok (slice offset 4 m.header) := by
  rw [← m.length_header] at h
  rw [readBytes_eq_ok]
  · exact congrArg Except.ok (slice_append_left h _)
  · unfold image
    rw [List.length_append]
    omega

lemma readU32_header {offset : ℕ} (h : offset + 4 ≤ headerSize) :
    readU32 m.image offset = .ok (ofLE (slice offset 4 m.header)) := by
  unfold readU32
  rw [m.readBytes_header h]
  rfl

/-- The table entry of a name ends with a NUL already. -/
lemma set_nameBytes {name : String} (h : TableName name) :
    (nameBytes name).set (symNameLen - 1) 0 = nameBytes name := by
  have hshort : (asciiBytes name).length ≤ symNameLen - 1 := by
    rw [asciiBytes, List.length_map]
    exact h.short
  have hlast : ∀ hlt : symNameLen - 1 < (nameBytes name).length,
      (nameBytes name)[symNameLen - 1] = 0 := by
    intro hlt
    simp only [nameBytes, ljust, List.getElem_append_right hshort, List.getElem_replicate]
  have hlt : symNameLen - 1 < (nameBytes name).length := by
    rw [length_nameBytes h]
    decide
  conv_lhs => rw [← hlast hlt]
  exact List.set_getElem_self _

/-- The names are copied as they stand in the table. -/
lemma copyName_image {i : ℕ} (hi : i < m.names.length) :
    copyName m.image headerSize i = .ok (nameBytes m.names[i]) := by
  have hname := m.tableNames _ (List.getElem_mem hi)
  have hentry : i * symNameLen + symNameLen ≤ m.table.length := by
    rw [m.length_table, symNameLen]
    omega
  have hin : headerSize + i * symNameLen + symNameLen ≤ m.image.length := by
    unfold image
    rw [List.length_append, List.length_append, m.length_header]
    omega
  have hslice : slice (headerSize + i * symNameLen) symNameLen m.image = nameBytes m.names[i] := by
    unfold image
    rw [← m.length_header, slice_append_right, slice_append_left hentry]
    exact slice_flatMap (fun name h => length_nameBytes (m.tableNames name h)) hi
  have hread := readBytes_eq_ok hin
  push_cast at hread
  unfold copyName
  rw [hread, hslice]
  exact congrArg Except.ok (set_nameBytes hname)

lemma featureBlock :
    blockBytes m.numTimesteps m.names.length m.featuresPerSym =
      m.numTimesteps * m.names.length * m.featuresPerSym * 4 := by
  have hsymbols := m.symbols_le
  have harea := m.area_le
  exact blockBytes_eq m.timesteps_lt (by omega) m.features_lt m.volume_lt (by omega)

lemma priceBlock :
    blockBytes m.numTimesteps m.names.length priceFeatures =
      m.numTimesteps * m.names.length * priceFeatures * 4 := by
  have hsymbols := m.symbols_le
  have harea := m.area_le
  exact blockBytes_eq m.timesteps_lt (by omega) (by decide) m.area_le (by omega)

/-- The prices follow the features. -/
lemma pricesPtr :
    movePtr (headerSize + m.names.length * symNameLen)
      (blockBytes m.numTimesteps m.names.length m.featuresPerSym) =
        headerSize + m.names.length * symNameLen +
          m.numTimesteps * m.names.length * m.featuresPerSym * 4 := by
  have hsymbols := m.symbols_le
  have hvolume : (m.numTimesteps * m.names.length * m.featuresPerSym : ℤ) < 2 ^ 31 := by
    exact_mod_cast m.volume_lt
  have hnonneg : (0 : ℤ) ≤ m.numTimesteps * m.names.length * m.featuresPerSym := by positivity
  rw [m.featureBlock, movePtr_eq]
  · push_cast
    rfl
  · unfold headerSize symNameLen
    omega
  · unfold headerSize symNameLen
    push_cast
    omega

/-- The file ends with the prices. -/
lemma pastPrices :
    movePtr (movePtr (headerSize + m.names.length * symNameLen)
      (blockBytes m.numTimesteps m.names.length m.featuresPerSym))
      (blockBytes m.numTimesteps m.names.length priceFeatures) = m.image.length := by
  have hsymbols := m.symbols_le
  have hvolume : (m.numTimesteps * m.names.length * m.featuresPerSym : ℤ) < 2 ^ 31 := by
    exact_mod_cast m.volume_lt
  have hnonneg : (0 : ℤ) ≤ m.numTimesteps * m.names.length * m.featuresPerSym := by positivity
  have harea := m.area_le
  rw [m.pricesPtr, m.priceBlock, m.length_image, movePtr_eq]
  · push_cast [headerSize, symNameLen, priceFeatures]
    ring
  · unfold headerSize symNameLen
    omega
  · unfold headerSize symNameLen priceFeatures
    push_cast
    omega

/-- The file ends with the prices: there is no room for a mask. -/
lemma findMask_image {ptr : ℤ} (hptr : ptr = m.image.length) :
    findMask m.image 1 ptr m.numTimesteps m.names.length = .ok (some (none, none)) := by
  have hlength := m.length_image
  have hsymbols := m.symbols_le
  have htimesteps := m.timesteps_lt
  have harea := m.area_le
  have hpos := m.area_pos
  have hvolume := m.volume_lt
  have hmask : sizeMul (toSize m.numTimesteps) (toSize m.names.length) =
      m.numTimesteps * m.names.length := by
    have ht : toSize m.numTimesteps = m.numTimesteps := by unfold toSize; omega
    have hs : toSize m.names.length = m.names.length := by unfold toSize; omega
    rw [ht, hs, sizeMul, Nat.mod_eq_of_lt (by omega)]
  have hsize : toSize ptr = m.image.length := by
    unfold toSize
    omega
  have hroom : ¬ (toSize ptr + m.numTimesteps * m.names.length) % 2 ^ 64 ≤ m.image.length := by
    rw [hsize, Nat.mod_eq_of_lt (by omega)]
    omega
  unfold findMask
  dsimp only
  rw [hmask, if_neg hroom]
  rfl

/-- **Loading.** `market_data_load` accepts the image, and finds no mask in it. -/
theorem marketDataLoad_image : marketDataLoad m.image = .ok (some m.loaded) := by
  have hsymbols := m.symbols_le
  obtain ⟨hsymbolsField, htimestepsField, hfeaturesField⟩ := m.header_fields
  have hversion : readU32 m.image 4 = .ok 1 := m.readU32_header (show 4 + 4 ≤ headerSize by decide)
  have hns : readU32 m.image 8 = .ok m.names.length := by
    rw [← hsymbolsField]
    exact m.readU32_header (show 8 + 4 ≤ headerSize by decide)
  have hnt : readU32 m.image 12 = .ok m.numTimesteps := by
    rw [← htimestepsField]
    exact m.readU32_header (show 12 + 4 ≤ headerSize by decide)
  have hper : readU32 m.image 16 = .ok m.featuresPerSym := by
    rw [← hfeaturesField]
    exact m.readU32_header (show 16 + 4 ≤ headerSize by decide)
  have hmagic : readBytes m.image 0 4 = .ok magic :=
    m.readBytes_header (show 0 + 4 ≤ headerSize by decide)
  have hnames : (List.range (m.names.length : ℤ).toNat).mapM (copyName m.image headerSize) =
      .ok (m.names.map nameBytes) := by
    have hcopy : ∀ i ∈ List.range m.names.length,
        copyName m.image headerSize i = .ok (nameBytes (m.names.getD i "")) := by
      intro i hi
      have hi' : i < m.names.length := List.mem_range.mp hi
      rw [m.copyName_image hi']
      simp [hi']
    rw [Int.toNat_natCast, mapM_eq_ok hcopy, map_range_getD]
  have htable : intResult ((m.names.length : ℤ) * symNameLen) =
      .ok ((m.names.length : ℤ) * symNameLen) := by
    have hlt : m.names.length * symNameLen < 2 ^ 31 := by
      rw [symNameLen]
      omega
    have h := intResult_eq_ok hlt
    push_cast at h
    exact h
  have hmask := m.findMask_image m.pastPrices
  have hfeatures := m.one_le_features
  have hmax : ¬ (m.names.length : ℤ) > maxSymbols := by
    unfold maxSymbols
    omega
  unfold marketDataLoad
  rw [bind_of_eq_ok hmagic, if_neg (not_not_intro rfl), bind_of_eq_ok hversion, bind_of_eq_ok hns,
    bind_of_eq_ok hnt, bind_of_eq_ok hper]
  dsimp only
  rw [toInt_of_lt (by omega : m.names.length < 2 ^ 31), toInt_of_lt m.timesteps_lt,
    toInt_of_lt m.features_lt, if_pos (by omega : m.featuresPerSym > 0), if_neg hmax,
    bind_of_eq_ok hnames, bind_of_eq_ok htable, bind_of_eq_ok hmask]
  simp only [Option.map_some, m.pricesPtr]
  rfl

/-! ## Indexing in C -/

/-- A number of a block of the buffer that stands between `before` and `after`. -/
lemma readSingle_image {xs : List Single} {before after : List UInt8}
    (himage : m.image = before ++ (single.encodeAll xs ++ after)) {i : ℕ} (hi : i < xs.length) :
    readSingle m.image ((before.length : ℤ) + 4 * i) = .ok xs[i] := by
  have hentry := single.slice_encodeAll xs hi
  have hbytes : (single.encodeAll xs).length = xs.length * 4 := single.length_encodeAll _
  have hin : before.length + i * 4 + 4 ≤ m.image.length := by
    rw [himage, List.length_append, List.length_append]
    omega
  have hslice : slice (before.length + i * 4) 4 m.image = single.encode xs[i] := by
    rw [himage, slice_append_right, slice_append_left (by omega)]
    exact hentry
  have hread := readBytes_eq_ok hin
  rw [hslice] at hread
  push_cast at hread
  unfold readSingle
  rw [mul_comm 4 (i : ℤ), hread]
  exact congrArg Except.ok (single.decode_encode _)

/-- An entry of an array of the buffer that stands between `before` and `after`. -/
lemma readEntry_image {per : ℕ} {a : List (List (List Single))} {before after : List UInt8}
    (himage : m.image = before ++ (single.encodeAll a.flatten.flatten ++ after))
    (h : Shaped m.numTimesteps m.names.length per a)
    (hsize : m.numTimesteps * m.names.length * per < 2 ^ 31) {t s k : ℕ}
    (ht : t < m.numTimesteps) (hs : s < m.names.length) (hk : k < per) :
    ∃ x, entry a t s k = some x ∧
      readEntry m.loaded before.length per t s k = .ok x := by
  have harea := m.area_le
  have hrow : (t + 1) * m.names.length ≤ m.numTimesteps * m.names.length :=
    Nat.mul_le_mul_right _ ht
  rw [Nat.succ_mul] at hrow
  have hcell : (t * m.names.length + s + 1) * per ≤ m.numTimesteps * m.names.length * per :=
    Nat.mul_le_mul_right _ (by omega)
  rw [Nat.succ_mul] at hcell
  have hlen : a.flatten.flatten.length = m.numTimesteps * m.names.length * per :=
    h.length_flatten
  obtain ⟨i, hi⟩ : ∃ i, i = (t * m.names.length + s) * per + k := ⟨_, rfl⟩
  have hlt : i < a.flatten.flatten.length := by omega
  refine ⟨a.flatten.flatten[i], ?_, ?_⟩
  · rw [← h.getElem?_flatten t hs hk, ← hi]
    exact List.getElem?_eq_getElem hlt
  · have hread := m.readSingle_image himage hlt
    have h₁ := intResult_eq_ok (n := t * m.names.length) (by omega)
    have h₂ := intResult_eq_ok (n := t * m.names.length + s) (by omega)
    have h₃ := intResult_eq_ok (n := (t * m.names.length + s) * per) (by omega)
    have h₄ := intResult_eq_ok (n := (t * m.names.length + s) * per + k) (by omega)
    push_cast at h₁ h₂ h₃ h₄
    unfold readEntry
    simp only [loaded]
    rw [bind_of_eq_ok h₁, bind_of_eq_ok h₂, bind_of_eq_ok h₃, bind_of_eq_ok h₄]
    have hcast : ((t : ℤ) * m.names.length + s) * per + k = i := by
      rw [hi]
      push_cast
      ring
    rw [hcast]
    exact hread

/-- The features that the C code indexes. -/
lemma keelMdFeature_image {t s f : ℕ} (ht : t < m.numTimesteps) (hs : s < m.names.length)
    (hf : f < m.featuresPerSym) :
    ∃ x, entry m.features t s f = some x ∧ keelMdFeature (some m.loaded) t s f = .ok x := by
  have himage : m.image = (m.header ++ m.table) ++ (m.featureBytes ++ m.priceBytes) := by
    rw [List.append_assoc]
    rfl
  have hbase : m.loaded.features = ((m.header ++ m.table).length : ℕ) := by
    rw [List.length_append, m.length_header, m.length_table]
    push_cast
    rfl
  have hentry := m.readEntry_image himage m.features_shaped m.volume_lt ht hs hf
  rw [← hbase] at hentry
  exact hentry

/-- The prices that the C code indexes. -/
lemma keelMdPrice_image {t s p : ℕ} (ht : t < m.numTimesteps) (hs : s < m.names.length)
    (hp : p < 5) :
    ∃ x, entry m.prices t s p = some x ∧ keelMdPrice (some m.loaded) t s p = .ok x := by
  have himage : m.image =
      (m.header ++ (m.table ++ m.featureBytes)) ++ (m.priceBytes ++ []) := by
    simp only [MarketArrays.image, List.append_assoc, List.append_nil]
  have hbase : m.loaded.prices = ((m.header ++ (m.table ++ m.featureBytes)).length : ℕ) := by
    simp only [List.length_append, m.length_header, m.length_table, m.length_featureBytes]
    push_cast
    exact add_assoc _ _ _
  have hentry := m.readEntry_image himage m.prices_shaped m.area_le ht hs hp
  rw [← hbase] at hentry
  exact hentry

end MarketArrays

/-- The names that the C code reads in the table. -/
lemma cString_nameBytes {name : String} (h : TableName name) : cString (nameBytes name) = name := by
  unfold cString
  rw [takeWhile_nameBytes h, map_asciiBytes h.ascii]
  exact String.ofList_toList

/-- **The round trip of a market data file.** The file that `write_market_bin` writes, from nested
sequences or from numpy arrays, is read back to the same names and arrays by the Python code; the C
code loads it without a mask, with the same names, and indexes the same entries.

**Proof sketch.** The encoder writes the image in either branch (`writeMarketBin_image`). The
loops of the Python decoder rebuild each block of the image (`readBlock_encodeAll`), and the index
of the C code is the row-major index of the entry (`Packed.Shaped.getElem?_flatten`). -/
theorem mktd_round_trip (m : MarketArrays) (features prices : ArrayArg)
    (hfeatures : features.toNested = m.features) (hprices : prices.toNested = m.prices) :
    ∃ file, writeMarketBin m.names features prices m.numTimesteps m.featuresPerSym 1 = .ok file ∧
      (readHeader file = .ok
          { version := 1
            numSymbols := m.names.length
            numTimesteps := m.numTimesteps
            featuresPerSym := m.featuresPerSym
            priceFeatures := 5 } ∧
        readSymbols file = .ok m.names ∧ readFeatures file = .ok m.features ∧
        readPrices file = .ok m.prices) ∧
      ∃ md, marketDataLoad file = .ok (some md) ∧ md.tradable = none ∧
        md.numSymbols = m.names.length ∧ md.numTimesteps = m.numTimesteps ∧
        md.featuresPerSym = m.featuresPerSym ∧ md.symNames.map cString = m.names ∧
        ∀ t s : ℕ, t < m.numTimesteps → s < m.names.length →
          (∀ f < m.featuresPerSym, ∃ x, entry m.features t s f = some x ∧
            keelMdFeature (some md) t s f = .ok x) ∧
          ∀ p < 5, ∃ x, entry m.prices t s p = some x ∧ keelMdPrice (some md) t s p = .ok x := by
  refine ⟨m.image, writeMarketBin_image m hfeatures hprices, ⟨readHeader_image m,
    readSymbols_image m, readFeatures_image m, readPrices_image m⟩, m.loaded,
    m.marketDataLoad_image, rfl, rfl, rfl, rfl, ?_, fun t s ht hs =>
    ⟨fun f hf => m.keelMdFeature_image ht hs hf, fun p hp => m.keelMdPrice_image ht hs hp⟩⟩
  have hmap : (m.names.map nameBytes).map cString = m.names.map id := by
    rw [List.map_map]
    exact List.map_congr_left fun name hname => cString_nameBytes (m.tableNames name hname)
  exact hmap.trans (List.map_id m.names)

/-- Two symbols and one bar: features as nested sequences, prices as a numpy array. -/
def twoSymbols : MarketArrays where
  names := ["BTC", "ETH"]
  numTimesteps := 1
  featuresPerSym := 2
  features := [[[⟨1⟩, ⟨2⟩], [⟨3⟩, ⟨4⟩]]]
  prices := (NdArray.mk (1, 2, 5) fun _ s p => ⟨UInt32.ofNat (10 * s + p)⟩).toNested
  tableNames := by
    intro name hname
    rcases List.mem_cons.mp hname with rfl | hname
    · decide
    · cases List.mem_singleton.mp hname
      decide
  one_le_symbols := by decide
  symbols_le := by decide
  one_le_timesteps := by decide
  one_le_features := by decide
  size := by decide
  features_shaped := ⟨by decide, by decide, by decide⟩
  prices_shaped := ⟨by decide, by decide, by decide⟩

theorem mktd_round_trip_two_symbols :
    ∃ file, writeMarketBin ["BTC", "ETH"] (.nested [[[⟨1⟩, ⟨2⟩], [⟨3⟩, ⟨4⟩]]])
        (.ndarray ⟨(1, 2, 5), fun _ s p => ⟨UInt32.ofNat (10 * s + p)⟩⟩) 1 2 1 = .ok file ∧
      readSymbols file = .ok ["BTC", "ETH"] ∧
      readFeatures file = .ok [[[⟨1⟩, ⟨2⟩], [⟨3⟩, ⟨4⟩]]] := by
  obtain ⟨file, hwrite, ⟨-, hsymbols, hfeatures, -⟩, -⟩ := mktd_round_trip twoSymbols
    (.nested [[[⟨1⟩, ⟨2⟩], [⟨3⟩, ⟨4⟩]]])
    (.ndarray ⟨(1, 2, 5), fun _ s p => ⟨UInt32.ofNat (10 * s + p)⟩⟩) rfl rfl
  exact ⟨file, hwrite, hsymbols, hfeatures⟩

end KeelTrader.Sim
