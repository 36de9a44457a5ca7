import PrivateSql.Value.Arithmetic
import PrivateSql.Json.Document
/-!
# Values of JSON documents

A document that is a scalar is a value. An integer of 64 bits is an integer; any other number is a
float, so is a zero with a sign.
-/

namespace PrivateSql.Value

variable {N : Type} [Number N]

/-- The value of a number. -/
def ofNumeral? (n : Json.Numeral) : Option (Value N) :=
  match n.integer?.bind int64? with
  | some i => some (.integer i)
  | none => n.value?.map .float

/-- The value a document stands for. -/
def ofDocument? : Json.Document → Option (Value N)
  | .null => some .null
  | .boolean b => some (.boolean b)
  | .number n => ofNumeral? n
  | .text s => s.map .text
  | .list _ => none
  | .object _ => none
  | .fault => none

/-- The value of the text of a document. -/
def ofJson? (s : String) : Option (Value N) :=
  match Json.Document.read s with
  | (d, true) => ofDocument? d
  | (_, false) => none

end PrivateSql.Value
