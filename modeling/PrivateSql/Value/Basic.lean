import PrivateSql.Number
import PrivateSql.Json.Quoted
/-!
# Values

The cells that queries compute with: nothing (`NULL`), a truth value, a 64-bit integer, a number or
a text; and their texts in messages, in queries and in JSON documents.

* `Value.display`, `Value.sql`, `Value.json` — the three texts of a value;
* `Value.number?`, `Value.truth?` — a value seen as a number, as a truth value.
-/

namespace PrivateSql

/-- A cell. -/
inductive Value (N : Type) where
  | null
  | boolean (b : Bool)
  | integer (i : Int64)
  | float (x : N)
  | text (s : String)
  deriving DecidableEq, Inhabited

namespace Value

variable {N : Type} [Number N]

def isNull : Value N → Bool
  | .null => true
  | _ => false

/-- The number an integer or a number stands for. -/
def number? : Value N → Option N
  | .integer i => some (Number.ofInt i.toInt)
  | .float x => some x
  | _ => none

/-- The truth value of a value, if it is one. -/
def truth? : Value N → Option Bool
  | .boolean b => some b
  | _ => none

/-- The text of a value in messages. -/
def display : Value N → String
  | .null => "NULL"
  | .boolean b => if b then "true" else "false"
  | .integer i => toString i.toInt
  | .float x => Number.write .display x
  | .text s => s

/-- A text as a literal of a query: quotes are doubled. -/
def quoteSql (s : String) : String :=
  let inner := s.toList.flatMap fun c => if c = '\'' then ['\'', '\''] else [c]
  String.ofList ('\'' :: (inner ++ ['\'']))

/-- The value as a literal of a query. -/
def sql : Value N → String
  | .null => "NULL"
  | .boolean b => if b then "TRUE" else "FALSE"
  | .integer i => toString i.toInt
  | .float x => Number.write .literal x
  | .text s => quoteSql s

/-- The value in a JSON document; there, a number that is not finite is `null`. -/
def json : Value N → String
  | .null => "null"
  | .boolean b => if b then "true" else "false"
  | .integer i => toString i.toInt
  | .float x => if Number.isFinite x then Number.write .json x else "null"
  | .text s => Json.quote s

end Value

end PrivateSql
