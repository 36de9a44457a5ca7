import PrivateSql.Value.Basic
/-!
# Types of values

Columns hold integers, numbers, texts or truth values; `unknown` is the type of what cannot be
inferred. Casting keeps `NULL`, and rounds a number to an integer.

* `DataType.widen` — the smallest type both types fit in;
* `DataType.cast` — a value of this type from any value;
* `DataType.ofName?`, `DataType.ofText` — the names in documents, and the looser ones.
-/

namespace PrivateSql

/-- The type of a column or an expression. -/
inductive DataType where
  | integer
  | float
  | text
  | boolean
  | unknown
  deriving DecidableEq, Repr, Inhabited

/-- Why a value or a name is not converted. Both sides are kept as they are shown. -/
inductive ConversionError where
  | cannotConvert (this that : String)
  deriving DecidableEq, Repr

/-- The text of a conversion error. -/
def ConversionError.message : ConversionError → String
  | .cannotConvert this that =>
    "InvalidConversion: Cannot convert " ++ this ++ " into " ++ that ++ "\n"

namespace DataType

/-- The name of a type. -/
def name : DataType → String
  | .integer => "int"
  | .float => "float"
  | .text => "string"
  | .boolean => "boolean"
  | .unknown => "unknown"

/-- The type with this name in a document. -/
def ofName? (s : String) : Option DataType :=
  match s with
  | "int" | "integer" => some .integer
  | "float" | "double" => some .float
  | "string" | "text" => some .text
  | "boolean" | "bool" => some .boolean
  | "unknown" => some .unknown
  | _ => none

/-- The type a text names, in any case and with the names other systems use. -/
def ofText (s : String) : Except ConversionError DataType :=
  match Text.toLower s with
  | "int" | "integer" | "bigint" => .ok .integer
  | "float" | "double" | "real" => .ok .float
  | "string" | "text" | "varchar" => .ok .text
  | "boolean" | "bool" => .ok .boolean
  | "unknown" => .ok .unknown
  | other => .error (.cannotConvert other "a data type")

def isNumeric : DataType → Bool
  | .integer | .float => true
  | _ => false

/-- The smallest type both types fit in. -/
def widen (l r : DataType) : DataType :=
  if l = r then l
  else match l, r with
    | .integer, .float => .float
    | .float, .integer => .float
    | _, _ => .unknown

variable {N : Type} [Number N]

/-- The value as a value of this type. `NULL` stays, a finite number goes to the nearest integer,
everything has a text. -/
def cast (type : DataType) (v : Value N) : Except ConversionError (Value N) :=
  match type, v with
  | _, .null => .ok .null
  | .integer, .integer i => .ok (.integer i)
  | .integer, .float x =>
    if Number.isFinite x then .ok (.integer (Number.toInt64 (Number.roundToInteger .nearest x)))
    else .error (.cannotConvert (Value.float x).display DataType.integer.name)
  | .integer, .boolean b => .ok (.integer (if b then 1 else 0))
  | .float, .integer i => .ok (.float (Number.ofInt i.toInt))
  | .float, .float x => .ok (.float x)
  | .text, v => .ok (.text v.display)
  | .boolean, .boolean b => .ok (.boolean b)
  | .unknown, v => .ok v
  | type, v => .error (.cannotConvert v.display type.name)

end DataType

/-- The type of a value. -/
def Value.dataType {N : Type} : Value N → DataType
  | .null => .unknown
  | .boolean _ => .boolean
  | .integer _ => .integer
  | .float _ => .float
  | .text _ => .text

end PrivateSql
