import KeelTrader.Lib.Checked
import KeelTrader.Lib.Dict

set_option relaxedAutoImplicit false
set_option autoImplicit false

/-!
# Comma-separated values

The writer and the reader of comma-separated values: records of texts, each a line of fields. A
field that holds a delimiter, a quote or a part of a line end is written in quotes, with its quotes
doubled. The reader is a machine over the lines of the file, so a quoted field may span lines.

## Main definitions

* `Csv.Dialect` — the delimiter and the quote; `Csv.excel`.
* `Csv.rowText`, `Csv.write` — the text of a record, and of records.
* `Csv.Reader`, `Csv.process` — the reader and what it does with one character or line end.
* `Csv.read` — the records of a text.
* `Csv.dictRow`, `Csv.dictReader` — records as dictionaries under the names of the columns.

## Main results

* `Csv.read_write` — what is written is read back, whatever the fields hold.
* `Csv.dictReader_write` — so is a table under its header.

## Implementation notes

The reader follows the tolerant mode: a quote inside an unquoted field is a character, and what
follows a closing quote is appended. The text of a file keeps its line ends as they are.
-/

namespace Csv

/-! ## The writer -/

/-- A delimiter and a quote, which are told apart from each other and from the line end. -/
structure Dialect where
  delimiter : Char
  quotechar : Char
  delimiter_ne : delimiter ≠ quotechar
  delimiter_line : delimiter ≠ '\n' ∧ delimiter ≠ '\r'
  quotechar_line : quotechar ≠ '\n' ∧ quotechar ≠ '\r'

/-- The dialect of spreadsheets. -/
def excel : Dialect where
  delimiter := ','
  quotechar := '\x22'
  delimiter_ne := by decide
  delimiter_line := by decide
  quotechar_line := by decide

/-- A character of a line end. -/
def isNewline (c : Char) : Bool := c = '\n' || c = '\r'

/-- The field has to be quoted. -/
def needsQuotes (d : Dialect) (f : List Char) : Bool :=
  f.any fun c => c = d.delimiter || c = d.quotechar || isNewline c

/-- A character inside quotes. -/
def escape (d : Dialect) (c : Char) : List Char :=
  if c = d.quotechar then [d.quotechar, d.quotechar] else [c]

/-- A field in quotes. -/
def quoted (d : Dialect) (f : List Char) : List Char :=
  d.quotechar :: (f.flatMap (escape d) ++ [d.quotechar])

/-- A field as it is written. -/
def fieldText (d : Dialect) (f : List Char) : List Char := if needsQuotes d f then quoted d f else f

/-- The fields of a record and their delimiters. A record of a single empty field has to show that
it is there. -/
def recordText (d : Dialect) (row : List (List Char)) : List Char :=
  if row = [[]] then quoted d [] else [d.delimiter].intercalate (row.map (fieldText d))

/-- A record and the end of its line. -/
def rowText (d : Dialect) (row : List (List Char)) : List Char := recordText d row ++ ['\r', '\n']

/-- Records, one after the other. -/
def write (d : Dialect) (rows : List (List (List Char))) : List Char := rows.flatMap (rowText d)

@[simp] lemma write_nil (d : Dialect) : write d [] = [] := rfl

@[simp] lemma write_cons (d : Dialect) (row : List (List Char)) (rows : List (List (List Char))) :
    write d (row :: rows) = rowText d row ++ write d rows := List.flatMap_cons

lemma write_append (d : Dialect) (rows rows' : List (List (List Char))) :
    write d (rows ++ rows') = write d rows ++ write d rows' := List.flatMap_append

/-! ## The reader -/

/-- The states of the reader. -/
inductive State
  | startRecord
  | startField
  | inField
  | inQuotedField
  | quoteInQuotedField
  | eatCrnl
  deriving DecidableEq, Repr

/-- What the reader raises. -/
inductive ReadError
  /-- "field larger than field limit". -/
  | fieldLimit
  /-- "new-line character seen in unquoted field". -/
  | newline
  deriving DecidableEq, Repr

/-- The reader: its state, the field and the fields of the record that it reads, and the records
that it has returned. -/
structure Reader where
  state : State := .startRecord
  field : List Char := []
  fields : List (List Char) := []
  rows : List (List (List Char)) := []
  deriving DecidableEq, Repr

namespace Reader

/-- The reader adds a character to the field, unless that is too long. -/
def addChar (limit : ℕ) (r : Reader) (c : Char) (next : State) : Except ReadError Reader :=
  if limit ≤ r.field.length then .error .fieldLimit
  else .ok { r with field := r.field ++ [c], state := next }

/-- The reader ends the field. -/
def saveField (r : Reader) (next : State) : Reader :=
  { r with fields := r.fields ++ [r.field], field := [], state := next }

/-- The reader returns the record when it is complete. -/
def emit (r : Reader) : Reader :=
  if r.state = .startRecord then { r with rows := r.rows ++ [r.fields], fields := [], field := [] }
  else r

end Reader

section Process

variable (d : Dialect) (limit : ℕ)

/-- What a character means to a field that is not in quotes, and so does the end of the line
itself, which is `none`. -/
inductive Sym
  /-- The field ends, and the reader goes on in a state. -/
  | ends (next : State)
  /-- The field goes on. -/
  | plain (c : Char)

/-- The meaning of a character. -/
def symOf : Option Char → Sym
  | none => .ends .startRecord
  | some c =>
    if isNewline c then .ends .eatCrnl
    else if c = d.delimiter then .ends .startField
    else .plain c

/-- What the reader does at the start of a field. -/
def startField (r : Reader) (sym : Option Char) : Except ReadError Reader :=
  match symOf d sym with
  | .ends next => .ok (r.saveField next)
  | .plain c =>
    if c = d.quotechar then .ok { r with state := .inQuotedField } else r.addChar limit c .inField

/-- What the reader does with one character, or with the end of a line. -/
def process (r : Reader) (sym : Option Char) : Except ReadError Reader :=
  match r.state with
  | .startRecord =>
    match sym with
    | none => .ok r
    | some c =>
      if isNewline c then .ok { r with state := .eatCrnl } else startField d limit r (some c)
  | .startField => startField d limit r sym
  | .inField =>
    match symOf d sym with
    | .ends next => .ok (r.saveField next)
    | .plain c => r.addChar limit c .inField
  | .inQuotedField =>
    match sym with
    | none => .ok r
    | some c =>
      if c = d.quotechar then .ok { r with state := .quoteInQuotedField }
      else r.addChar limit c .inQuotedField
  | .quoteInQuotedField =>
    match symOf d sym with
    | .ends next => .ok (r.saveField next)
    | .plain c =>
      -- a doubled quote stands for one, and anything else goes on outside the quotes
      r.addChar limit c (if c = d.quotechar then .inQuotedField else .inField)
  | .eatCrnl =>
    match sym with
    | none => .ok { r with state := .startRecord }
    | some c => if isNewline c then .ok r else .error .newline

/-- The reader goes over a line. -/
def readLine (r : Reader) (line : List Char) : Except ReadError Reader := do
  let r ← line.foldlM (fun r c => process d limit r (some c)) r
  let r ← process d limit r none
  pure r.emit

/-- A line ends after `c`, when `next` is the character that follows. -/
def endsLine (c : Char) (next : Option Char) : Bool :=
  c = '\n' || (c = '\r' && next ≠ some '\n') || next = none

/-- The lines of a text, with their ends. -/
def lines : List Char → List (List Char)
  | [] => []
  | c :: t =>
    if endsLine c t.head? then [c] :: lines t
    else match lines t with
      | [] => [[c]]
      | l :: ls => (c :: l) :: ls

/-- The reader goes over the lines of a text. -/
def feed (r : Reader) (text : List Char) : Except ReadError Reader :=
  (lines text).foldlM (readLine d limit) r

/-- The records of a text. At its end, a record that is not complete is returned as it is. -/
def read (text : List Char) : Except ReadError (List (List (List Char))) := do
  let r ← feed d limit {} text
  if r.field ≠ [] ∨ r.state = .inQuotedField then
    pure (r.rows ++ [(r.saveField .startRecord).fields])
  else pure r.rows

end Process

/-! ## One character at a time -/

section Feed

variable {d : Dialect} {limit : ℕ}

lemma lines_ne_nil {t : List Char} (h : t ≠ []) : lines t ≠ [] := by
  cases t with
  | nil => exact absurd rfl h
  | cons c t =>
    unfold lines
    by_cases hend : endsLine c t.head? = true
    · rw [if_pos hend]
      exact List.cons_ne_nil _ _
    · rw [if_neg hend]
      cases lines t <;> exact List.cons_ne_nil _ _

/-- The reader goes over a text one character at a time, and over the ends of lines in between. -/
lemma feed_cons (r : Reader) (c : Char) (t : List Char) :
    feed d limit r (c :: t) = (do
      let r ← process d limit r (some c)
      if endsLine c t.head? then
        let r ← process d limit r none
        feed d limit r.emit t
      else feed d limit r t) := by
  by_cases hend : endsLine c t.head? = true
  · simp only [feed, lines, if_pos hend, List.foldlM_cons, readLine, List.foldlM_nil, bind_assoc,
      pure_bind, bind_pure]
  · obtain ⟨l, ls, hls⟩ := List.exists_cons_of_ne_nil (lines_ne_nil (t := t) (by
      rintro rfl
      exact hend (by simp [endsLine])))
    simp only [feed, lines, if_neg hend, hls, List.foldlM_cons, readLine, bind_assoc, pure_bind]

/-- Over a character that ends no line. -/
lemma feed_cons_of_not_endsLine {r r' : Reader} {c : Char} {t : List Char}
    (hend : endsLine c t.head? = false) (h : process d limit r (some c) = .ok r') :
    feed d limit r (c :: t) = feed d limit r' t := by
  rw [feed_cons, h, hend]
  rfl

/-- A character other than that of a line end ends no line, unless it is the last one. -/
lemma endsLine_eq_false {c : Char} {t : List Char} (hc : isNewline c = false) (ht : t ≠ []) :
    endsLine c t.head? = false := by
  cases t with
  | nil => exact absurd rfl ht
  | cons c' t =>
    simp only [isNewline, Bool.or_eq_false_iff, decide_eq_false_iff_not] at hc
    simp [endsLine, hc.1, hc.2]

/-- The end of a line inside quotes is nothing special. -/
lemma feed_cons_of_quoted {r r' : Reader} {c : Char} {t : List Char}
    (h : process d limit r (some c) = .ok r') (hr' : r'.state = .inQuotedField) :
    feed d limit r (c :: t) = feed d limit r' t := by
  have hline : process d limit r' none = .ok r' := by simp [process, hr']
  have hemit : r'.emit = r' := by simp [Reader.emit, hr']
  rw [feed_cons, h]
  show (if endsLine c t.head? = true then
    (do
      let r ← process d limit r' none
      feed d limit r.emit t) else feed d limit r' t) = feed d limit r' t
  by_cases hend : endsLine c t.head? = true
  · rw [if_pos hend, hline]
    exact congrArg (feed d limit · t) hemit
  · exact if_neg hend

/-! ## One field -/

lemma addChar_eq_ok {r : Reader} (c : Char) (next : State) (h : r.field.length < limit) :
    r.addChar limit c next = .ok { r with field := r.field ++ [c], state := next } :=
  if_neg (not_le.mpr h)

lemma isNewline_quotechar (d : Dialect) : isNewline d.quotechar = false := by
  simp [isNewline, d.quotechar_line]

lemma isNewline_delimiter (d : Dialect) : isNewline d.delimiter = false := by
  simp [isNewline, d.delimiter_line]

lemma symOf_quotechar (d : Dialect) : symOf d (some d.quotechar) = .plain d.quotechar := by
  simp [symOf, isNewline_quotechar, d.delimiter_ne.symm]

/-- Inside quotes, up to the closing one. -/
lemma feed_escaped (r : Reader) (hr : r.state = .inQuotedField) (f rest : List Char)
    (hlimit : r.field.length + f.length ≤ limit) :
    feed d limit r (f.flatMap (escape d) ++ d.quotechar :: rest) =
      feed d limit { r with field := r.field ++ f } (d.quotechar :: rest) := by
  induction f generalizing r with
  | nil => simp
  | cons c f ih =>
    rw [List.length_cons] at hlimit
    set t := f.flatMap (escape d) ++ d.quotechar :: rest with ht
    have hne : t ≠ [] := by simp [ht]
    have hadd : r.addChar limit c .inQuotedField =
        .ok { r with field := r.field ++ [c], state := .inQuotedField } :=
      addChar_eq_ok c _ (by omega)
    have hgoal := ih { r with field := r.field ++ [c], state := .inQuotedField } rfl
      (by simp only [List.length_append, List.length_singleton]; omega)
    have hfield : { r with field := r.field ++ [c] ++ f, state := State.inQuotedField } =
        { r with field := r.field ++ c :: f } := by
      rw [List.append_assoc, ← hr]
      rfl
    rw [hfield] at hgoal
    rw [List.flatMap_cons, List.append_assoc, ← ht, ← hgoal]
    by_cases hc : c = d.quotechar
    · -- the first of two quotes may close the field, and the second one says it does not
      have hquote : process d limit r (some d.quotechar) =
          .ok { r with state := .quoteInQuotedField } := by simp [process, hr]
      have hagain : process d limit { r with state := .quoteInQuotedField } (some d.quotechar) =
          .ok { r with field := r.field ++ [c], state := .inQuotedField } := by
        simp only [process, symOf_quotechar, if_true]
        rw [← hc]
        exact hadd
      rw [escape, if_pos hc, List.cons_append, List.singleton_append,
        feed_cons_of_not_endsLine (endsLine_eq_false (isNewline_quotechar d) (by simp)) hquote]
      exact feed_cons_of_quoted hagain rfl
    · have hchar : process d limit r (some c) =
          .ok { r with field := r.field ++ [c], state := .inQuotedField } := by
        simp only [process, hr, if_neg hc]
        exact hadd
      rw [escape, if_neg hc, List.singleton_append]
      exact feed_cons_of_quoted hchar rfl

/-- The reader has gone over a field and has not ended it. -/
structure AtEnd (r : Reader) (f : List Char) (r' : Reader) : Prop where
  field : r'.field = f
  fields : r'.fields = r.fields
  rows : r'.rows = r.rows
  state : r'.state = .startField ∨ r'.state = .inField ∨ r'.state = .quoteInQuotedField

/-- Over a field in quotes, from its start. -/
lemma feed_quoted {r : Reader} (hr : r.state = .startField) (hfield : r.field = [])
    (f rest : List Char) (hrest : rest ≠ []) (hlimit : f.length ≤ limit) :
    ∃ r', feed d limit r (quoted d f ++ rest) = feed d limit r' rest ∧ AtEnd r f r' := by
  have hopen : process d limit r (some d.quotechar) = .ok { r with state := .inQuotedField } := by
    simp only [process, hr, startField, symOf_quotechar, if_true]
  have hclose : process d limit { r with field := f, state := .inQuotedField } (some d.quotechar) =
      .ok { r with field := f, state := .quoteInQuotedField } := by
    simp only [process, if_true]
  refine ⟨{ r with field := f, state := .quoteInQuotedField }, ?_, rfl, rfl, rfl,
    Or.inr (Or.inr rfl)⟩
  have hinside := feed_escaped (d := d) { r with state := .inQuotedField } rfl f rest
    (by simpa [hfield] using hlimit)
  have hnil : r.field ++ f = f := by rw [hfield, List.nil_append]
  simp only [hnil] at hinside
  rw [quoted, List.cons_append, List.append_assoc, List.singleton_append,
    feed_cons_of_quoted hopen rfl, hinside,
    feed_cons_of_not_endsLine (endsLine_eq_false (isNewline_quotechar d) hrest) hclose]

/-- Over an unquoted field, from inside it. -/
lemma feed_unquoted (r : Reader) (hr : r.state = .inField) (f rest : List Char)
    (hf : needsQuotes d f = false) (hrest : rest ≠ [])
    (hlimit : r.field.length + f.length ≤ limit) :
    feed d limit r (f ++ rest) = feed d limit { r with field := r.field ++ f } rest := by
  induction f generalizing r with
  | nil => simp
  | cons c f ih =>
    rw [List.length_cons] at hlimit
    simp only [needsQuotes, List.any_cons, Bool.or_eq_false_iff, decide_eq_false_iff_not] at hf
    obtain ⟨⟨⟨hdelim, hquote⟩, hline⟩, hf⟩ := hf
    have hchar : process d limit r (some c) =
        .ok { r with field := r.field ++ [c], state := .inField } := by
      simp only [process, hr, symOf, hline, Bool.false_eq_true, if_false, if_neg hdelim]
      exact addChar_eq_ok c _ (by omega)
    rw [List.cons_append,
      feed_cons_of_not_endsLine (endsLine_eq_false hline (by simp [hrest])) hchar,
      ih { r with field := r.field ++ [c], state := .inField } rfl hf
        (by simp only [List.length_append, List.length_singleton]; omega)]
    rw [List.append_assoc, ← hr]
    rfl

/-- **One field.** Over a field as it is written, from its start. -/
theorem feed_fieldText {r : Reader} (hr : r.state = .startField) (hfield : r.field = [])
    (f rest : List Char) (hrest : rest ≠ []) (hlimit : f.length ≤ limit) :
    ∃ r', feed d limit r (fieldText d f ++ rest) = feed d limit r' rest ∧ AtEnd r f r' := by
  unfold fieldText
  cases hq : needsQuotes d f with
  | true => exact feed_quoted hr hfield f rest hrest hlimit
  | false =>
    simp only [Bool.false_eq_true, if_false]
    cases f with
    | nil => exact ⟨r, rfl, hfield, rfl, rfl, Or.inl hr⟩
    | cons c f =>
      simp only [needsQuotes, List.any_cons, Bool.or_eq_false_iff, decide_eq_false_iff_not] at hq
      obtain ⟨⟨⟨hdelim, hquote⟩, hline⟩, hf⟩ := hq
      rw [List.length_cons] at hlimit
      have hfirst : process d limit r (some c) =
          .ok { r with field := [c], state := .inField } := by
        simp only [process, hr, startField, symOf, hline, Bool.false_eq_true, if_false,
          if_neg hdelim, if_neg hquote]
        rw [addChar_eq_ok c _ (by rw [hfield]; simp; omega), hfield]
        rfl
      refine ⟨{ r with field := [c] ++ f, state := .inField }, ?_, rfl, rfl, rfl,
        Or.inr (Or.inl rfl)⟩
      rw [List.cons_append,
        feed_cons_of_not_endsLine (endsLine_eq_false hline (by simp [hrest])) hfirst]
      exact feed_unquoted _ rfl f rest hf hrest (by simp; omega)

/-! ## Records -/

/-- A delimiter ends the field. -/
lemma feed_delimiter {r r' : Reader} {f : List Char} (h : AtEnd r f r') {rest : List Char}
    (hrest : rest ≠ []) :
    feed d limit r' (d.delimiter :: rest) =
      feed d limit
        { state := .startField, field := [], fields := r.fields ++ [f], rows := r.rows } rest := by
  refine feed_cons_of_not_endsLine (endsLine_eq_false (isNewline_delimiter d) hrest) ?_
  have hsym : symOf d (some d.delimiter) = .ends .startField := by
    simp [symOf, isNewline_delimiter]
  have hsave : r'.saveField .startField =
      { state := .startField, field := [], fields := r.fields ++ [f], rows := r.rows } := by
    simp [Reader.saveField, h.field, h.fields, h.rows]
  rcases h.state with hstate | hstate | hstate <;>
    simp only [process, startField, hstate, hsym, hsave]

/-- A line end ends the field and the record. -/
lemma feed_crlf {r r' : Reader} {f : List Char} (h : AtEnd r f r') (rest : List Char) :
    feed d limit r' ('\r' :: '\n' :: rest) =
      feed d limit { rows := r.rows ++ [r.fields ++ [f]] } rest := by
  have hsym : symOf d (some '\r') = .ends .eatCrnl := rfl
  have hsave : r'.saveField .eatCrnl =
      { state := .eatCrnl, field := [], fields := r.fields ++ [f], rows := r.rows } := by
    simp [Reader.saveField, h.field, h.fields, h.rows]
  have hreturn : process d limit r' (some '\r') =
      .ok { state := .eatCrnl, field := [], fields := r.fields ++ [f], rows := r.rows } := by
    rcases h.state with hstate | hstate | hstate <;>
      simp only [process, startField, hstate, hsym, hsave]
  rw [feed_cons_of_not_endsLine rfl hreturn, feed_cons]
  rfl

/-- Over the fields of a record, from the start of one. -/
lemma feed_fields (fs : List (List Char)) (f : List Char) {r : Reader} (hr : r.state = .startField)
    (hfield : r.field = []) (rest : List Char) (hlimit : ∀ g ∈ f :: fs, g.length ≤ limit) :
    feed d limit r ([d.delimiter].intercalate ((f :: fs).map (fieldText d)) ++
        '\r' :: '\n' :: rest) =
      feed d limit { rows := r.rows ++ [r.fields ++ f :: fs] } rest := by
  induction fs generalizing f r with
  | nil =>
    obtain ⟨r', hfeed, hend⟩ := feed_fieldText hr hfield f ('\r' :: '\n' :: rest) (by simp)
      (hlimit f List.mem_cons_self)
    simp only [List.map_cons, List.map_nil, List.intercalate_singleton]
    rw [hfeed, feed_crlf hend]
  | cons g fs ih =>
    have hsplit : [d.delimiter].intercalate ((f :: g :: fs).map (fieldText d)) ++
        '\r' :: '\n' :: rest = fieldText d f ++ d.delimiter ::
          ([d.delimiter].intercalate ((g :: fs).map (fieldText d)) ++ '\r' :: '\n' :: rest) := by
      simp [List.intercalate_cons_cons]
    obtain ⟨r', hfeed, hend⟩ := feed_fieldText hr hfield f (d.delimiter ::
      ([d.delimiter].intercalate ((g :: fs).map (fieldText d)) ++ '\r' :: '\n' :: rest)) (by simp)
      (hlimit f List.mem_cons_self)
    rw [hsplit, hfeed, feed_delimiter hend (by simp),
      ih g rfl rfl fun h hh => hlimit h (List.mem_cons_of_mem _ hh)]
    rw [List.append_assoc]
    rfl

/-- The start of a record is that of its first field, unless it is empty. -/
lemma feed_startRecord (rows : List (List (List Char))) {c : Char} (hc : isNewline c = false)
    (t : List Char) :
    feed d limit { rows := rows } (c :: t) =
      feed d limit { state := .startField, rows := rows } (c :: t) := by
  have hfirst : process d limit { rows := rows } (some c) =
      process d limit { state := .startField, rows := rows } (some c) := by
    simp only [process, hc, Bool.false_eq_true, if_false, startField]
    cases symOf d (some c) <;> rfl
  rw [feed_cons, feed_cons, hfirst]

/-- A field that is not empty is written with a first character that ends no line. -/
lemma fieldText_start (d : Dialect) (c : Char) (f : List Char) :
    ∃ c' t, fieldText d (c :: f) = c' :: t ∧ isNewline c' = false := by
  unfold fieldText
  cases hq : needsQuotes d (c :: f) with
  | true => exact ⟨d.quotechar, _, rfl, isNewline_quotechar d⟩
  | false =>
    simp only [needsQuotes, List.any_cons, Bool.or_eq_false_iff] at hq
    exact ⟨c, f, rfl, hq.1.2⟩

/-- So is a record that has a field. -/
lemma recordText_start (d : Dialect) {row : List (List Char)} (h : row ≠ []) :
    ∃ c t, recordText d row = c :: t ∧ isNewline c = false := by
  unfold recordText
  by_cases hempty : row = [[]]
  · rw [if_pos hempty]
    exact ⟨d.quotechar, _, rfl, isNewline_quotechar d⟩
  · rw [if_neg hempty]
    match row, h, hempty with
    | [c :: f], _, _ =>
      rw [List.map_singleton, List.intercalate_singleton]
      exact fieldText_start d c f
    | [] :: g :: fs, _, _ =>
      rw [List.map_cons, List.map_cons, List.intercalate_cons_cons]
      exact ⟨d.delimiter, _, rfl, isNewline_delimiter d⟩
    | (c :: f) :: g :: fs, _, _ =>
      obtain ⟨c', t, htext, hc'⟩ := fieldText_start d c f
      rw [List.map_cons, List.map_cons, List.intercalate_cons_cons, htext]
      exact ⟨c', _, rfl, hc'⟩

/-- Over the fields of a record and the end of its line, from the start of its first field. -/
lemma feed_recordText (rows : List (List (List Char))) {row : List (List Char)} (h : row ≠ [])
    (rest : List Char) (hlimit : ∀ f ∈ row, f.length ≤ limit) :
    feed d limit { state := .startField, rows := rows } (recordText d row ++ '\r' :: '\n' :: rest) =
      feed d limit { rows := rows ++ [row] } rest := by
  unfold recordText
  by_cases hempty : row = [[]]
  · have hstart : ({ state := .startField, rows := rows } : Reader).state = .startField := rfl
    obtain ⟨r', hfeed, hend⟩ := feed_quoted (d := d) hstart rfl [] ('\r' :: '\n' :: rest) (by simp)
      (Nat.zero_le limit)
    rw [if_pos hempty, hfeed, feed_crlf hend, hempty]
    rfl
  · obtain ⟨f, fs, rfl⟩ := List.exists_cons_of_ne_nil h
    rw [if_neg hempty]
    exact feed_fields fs f rfl rfl rest hlimit

/-- **One record.** Over a record as it is written. -/
theorem feed_rowText (rows : List (List (List Char))) (row : List (List Char)) (rest : List Char)
    (hlimit : ∀ f ∈ row, f.length ≤ limit) :
    feed d limit { rows := rows } (rowText d row ++ rest) =
      feed d limit { rows := rows ++ [row] } rest := by
  have htext : rowText d row ++ rest = recordText d row ++ '\r' :: '\n' :: rest := by
    simp [rowText]
  by_cases hrow : row = []
  · -- an empty line is an empty record
    subst hrow
    have hreturn : process d limit { rows := rows } (some '\r') =
        .ok { state := .eatCrnl, rows := rows } := rfl
    rw [htext]
    show feed d limit { rows := rows } ('\r' :: '\n' :: rest) = _
    rw [feed_cons_of_not_endsLine rfl hreturn, feed_cons]
    rfl
  · obtain ⟨c, t, hstart, hc⟩ := recordText_start d hrow
    have hfirst : feed d limit { rows := rows } (recordText d row ++ '\r' :: '\n' :: rest) =
        feed d limit { state := .startField, rows := rows }
          (recordText d row ++ '\r' :: '\n' :: rest) := by
      rw [hstart, List.cons_append]
      exact feed_startRecord rows hc _
    rw [htext, hfirst, feed_recordText rows hrow rest hlimit]

/-- Over records as they are written. -/
lemma feed_write (rows rows' : List (List (List Char)))
    (hlimit : ∀ row ∈ rows', ∀ f ∈ row, f.length ≤ limit) :
    feed d limit { rows := rows } (write d rows') = .ok { rows := rows ++ rows' } := by
  induction rows' generalizing rows with
  | nil =>
    rw [List.append_nil]
    rfl
  | cons row rows' ih =>
    rw [write_cons, feed_rowText _ _ _ (hlimit row List.mem_cons_self),
      ih _ fun row' h => hlimit row' (List.mem_cons_of_mem _ h), List.append_assoc]
    rfl

/-- **The round trip.** Records that are written are read back, whatever their fields hold. -/
theorem read_write (rows : List (List (List Char)))
    (hlimit : ∀ row ∈ rows, ∀ f ∈ row, f.length ≤ limit) :
    read d limit (write d rows) = .ok rows := by
  rw [read, feed_write [] rows hlimit]
  rfl

end Feed

/-! ## Tables -/

section Tables

variable {d : Dialect} {limit : ℕ}

/-- What stands under the name of a column in a row of a table. -/
inductive Cell
  | text (t : List Char)
  /-- The row is too short. -/
  | absent
  /-- The row is too long, and these fields have no name. -/
  | rest (ts : List (List Char))
  deriving DecidableEq, Repr

/-- A record under the names of the columns; what has no name stands under none. -/
def rowDict (names row : List (List Char)) : Dict (Option (List Char)) Cell :=
  let d := Dict.ofList ((names.zip row).map fun e => (some e.1, Cell.text e.2))
  if names.length < row.length then d.set none (.rest (row.drop names.length))
  else (names.drop row.length).foldl (fun d name => d.set (some name) .absent) d

/-- The rows of a table: the first record names the columns, and records without a field are
skipped. -/
def dictReader (d : Dialect) (limit : ℕ) (text : List Char) :
    Except ReadError (List (Dict (Option (List Char)) Cell)) := do
  match ← read d limit text with
  | [] => pure []
  | names :: rows => pure ((rows.filter (· ≠ [])).map (rowDict names))

/-- The record of a row: its values under the names of the columns, and nothing for a name that it
does not have; `none` when it has a name that is no column. -/
def dictRow (names : List (List Char)) (row : Dict (List Char) (List Char)) :
    Option (List (List Char)) :=
  if row.keys.all (· ∈ names) then some (names.map fun name => (row.get? name).getD []) else none

/-- The text of a file after records are appended, below the header when there was no file. -/
def appendRows (d : Dialect) (names : List (List Char)) (file : Option (List Char))
    (rows : List (List (List Char))) : List Char :=
  match file with
  | none => write d (names :: rows)
  | some text => text ++ write d rows

/-- The record of a row that has a value under every column and nothing else. -/
lemma dictRow_ofList {es : List (List Char × List Char)} (h : (es.map Prod.fst).Nodup) :
    dictRow (es.map Prod.fst) (Dict.ofList es) = some (es.map Prod.snd) := by
  have hall : (es.map Prod.fst).all (· ∈ es.map Prod.fst) = true :=
    List.all_eq_true.mpr fun name hname => decide_eq_true hname
  rw [dictRow, Dict.keys_ofList h, if_pos hall, List.map_map]
  congr 1
  refine List.map_congr_left fun e he => ?_
  show ((Dict.ofList es).get? e.1).getD [] = e.2
  rw [Dict.get?_ofList h he]
  rfl

/-- What stands under a name in a row that has a value under every column. -/
lemma get?_rowDict {es : List (List Char × List Char)} (h : (es.map Prod.fst).Nodup)
    {name value : List Char} (hmem : (name, value) ∈ es) :
    (rowDict (es.map Prod.fst) (es.map Prod.snd)).get? (some name) = some (.text value) := by
  have hzip : ((es.map Prod.fst).zip (es.map Prod.snd)).map (fun e => (some e.1, Cell.text e.2)) =
      es.map fun e => (some e.1, Cell.text e.2) := by
    rw [List.zip_map']
    exact List.map_map
  have hdict : rowDict (es.map Prod.fst) (es.map Prod.snd) =
      Dict.ofList (es.map fun e => (some e.1, Cell.text e.2)) := by
    rw [rowDict, hzip, List.length_map, List.length_map, if_neg (lt_irrefl _),
      List.drop_of_length_le (by simp)]
    rfl
  have hkeys : ((es.map fun e => (some e.1, Cell.text e.2)).map Prod.fst).Nodup := by
    rw [List.map_map, show (Prod.fst ∘ fun e : List Char × List Char => (some e.1, Cell.text e.2)) =
      some ∘ Prod.fst from rfl, ← List.map_map]
    exact h.map (Option.some_injective _)
  rw [hdict]
  exact Dict.get?_ofList hkeys (List.mem_map.mpr ⟨(name, value), hmem, rfl⟩)

/-- **Tables.** The rows that are written below a header are read back under its names. -/
theorem dictReader_write {names : List (List Char)} (hne : names ≠ [])
    (rows : List (List (List Char)))
    (hrows : ∀ row ∈ rows, row.length = names.length)
    (hlimit : ∀ row ∈ names :: rows, ∀ f ∈ row, f.length ≤ limit) :
    dictReader d limit (write d (names :: rows)) = .ok (rows.map (rowDict names)) := by
  have hfilter : rows.filter (· ≠ []) = rows := by
    refine List.filter_eq_self.mpr fun row hrow => ?_
    have hlength := hrows row hrow
    have hpos := List.length_pos_iff.mpr hne
    simp only [ne_eq, decide_not, Bool.not_eq_eq_eq_not, Bool.not_true, decide_eq_false_iff_not]
    rintro rfl
    simp only [List.length_nil] at hlength
    omega
  rw [dictReader, read_write (names :: rows) hlimit]
  show Except.ok _ = _
  rw [hfilter]

/-- Records that are appended to a table make up a longer table under the same header. -/
lemma appendRows_write (d : Dialect) (names : List (List Char))
    (rows rows' : List (List (List Char))) :
    appendRows d names (some (write d (names :: rows))) rows' =
      write d (names :: (rows ++ rows')) := by
  simp [appendRows, write_append]

/-- What the file held stays in front. -/
lemma prefix_appendRows (d : Dialect) (names : List (List Char)) (text : List Char)
    (rows : List (List (List Char))) : text <+: appendRows d names (some text) rows :=
  List.prefix_append _ _

end Tables

end Csv
