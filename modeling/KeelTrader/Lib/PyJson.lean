import KeelTrader.Lib.PyValue

set_option relaxedAutoImplicit false
set_option autoImplicit false

/-!
# JSON values of the interpreter

The values that `json.loads` returns, and the conversions of the interpreter that programs apply to
them. A number without a fraction is an integer of any size, and a number with one is a float; the
literals `Infinity`, `-Infinity` and `NaN` are accepted, and a decimal that overflows is infinite.
So a float that was parsed need not be finite, and an integer that was parsed need not be a float.

## Main definitions

* `Json` — the values.
* `PyExc` — the exceptions that the conversions raise.
* `PyInterp` — the conversions that are left to the interpreter.
* `Json.getItem`, `Json.toFloat` — subscripting a dictionary, and `float`.
-/

/-- A value that `json.loads` returns. -/
inductive Json where
  | null
  | bool (b : Bool)
  | int (z : ℤ)
  | float (x : PyFloat)
  | str (s : String)
  | arr (items : List Json)
  /-- The members of an object, in order; the last one of a name counts. -/
  | obj (members : List (String × Json))

/-- An exception of the interpreter. -/
inductive PyExc where
  | keyError
  | typeError
  /-- `ValueError`, or a subclass such as `JSONDecodeError` or `UnicodeDecodeError`. -/
  | valueError
  /-- `OverflowError`, which is an `ArithmeticError` and no `ValueError`. -/
  | overflowError
  /-- `RecursionError`, which is a `RuntimeError`. -/
  | recursionError
  deriving DecidableEq, Repr

/-- What the interpreter gives where this depends on texts: the integer and the float that a text
denotes, the text of a value and the value that bytes denote. -/
structure PyInterp where
  /-- `int(text)`; `ValueError` where there is none. -/
  int : String → Option ℤ
  /-- `float(text)`; `ValueError` where there is none. -/
  float : String → Option PyFloat
  /-- `str(value)`; `RecursionError` where there is none. -/
  str : Json → Option String
  /-- `json.loads(raw)`. -/
  loads : List UInt8 → Except PyExc Json
  /-- The largest length that a read can ask for. -/
  maxRead : ℤ
  /-- The text of a text is the text itself. -/
  str_str : ∀ s, str (.str s) = some s

/-- The integer that a text of decimal digits denotes. -/
def ofDigits (text : String) : Option ℤ :=
  if text.toList ≠ [] ∧ text.toList.all Char.isDigit then
    some (text.toList.foldl (fun n c => 10 * n + (c.toNat - 48)) 0)
  else none

/-- An interpreter that knows texts of decimal digits and the empty object. -/
def PyInterp.plain : PyInterp where
  int := ofDigits
  float text := (ofDigits text).map fun z => .fin z
  str
    | .str s => some s
    | _ => none
  loads raw := if raw = [123, 125] then .ok (.obj []) else .error .valueError
  maxRead := 2 ^ 63 - 1
  str_str _ := rfl

namespace Json

/-- `members[name]`, for the members of an object. -/
def getItem (members : List (String × Json)) (name : String) : Except PyExc Json :=
  match members.reverse.lookup name with
  | some value => .ok value
  | none => .error .keyError

/-- The integers from `2 ^ 1024 - 2 ^ 970` on are not rounded to a float. -/
def floatLimit : ℤ := 2 ^ 1024 - 2 ^ 970

/-- `float(value)`. -/
def toFloat (P : PyInterp) : Json → Except PyExc PyFloat
  | .float x => .ok x
  | .int z => if |z| < floatLimit then .ok (.fin z) else .error .overflowError
  | .bool b => .ok (.fin (if b then 1 else 0))
  | .str s =>
    match P.float s with
    | some x => .ok x
    | none => .error .valueError
  | .null | .arr _ | .obj _ => .error .typeError

/-- `str(value)`. -/
def toStr (P : PyInterp) (value : Json) : Except PyExc String :=
  match P.str value with
  | some s => .ok s
  | none => .error .recursionError

end Json
