import PrivateSql.Sql.Keywords
import PrivateSql.Sql.Grammar.Basic
/-!
# Names of types

Types are named where a value is cast, and before a text to say what the text denotes. Such a
constant takes a text or a word that is no keyword; any other word after the name of a type leaves
that name a word like any other.

* `typeName` — a type to cast to;
* `typedConstant?` — a constant with its type before it.
-/

namespace PrivateSql.Sql.Grammar

/-- A number of digits or characters. -/
def size : Passage := fun ts =>
  match ts with
  | .number text _ :: rest =>
    if text.toList.all (·.isDigit) then .ok rest else failExpected "a size" ts
  | _ => failExpected "a size" ts

/-- The size of a type, if one is written. -/
def optionalSize : Passage := whenEnclosed [size]

/-- The size of a type with its scale, if they are written. -/
def optionalScale : Passage := whenEnclosed [size, whenFirst [[","]] size]

/-- The length of a text type, if one is written. -/
def optionalLength : Passage :=
  whenEnclosed [fun ts =>
    match skip? ["MAX"] ts with
    | some ts => .ok ts
    | none => inTurn [size, allow ["CHARACTERS", "OCTETS"]] ts]

/-- What may follow the first word of a text type. -/
def textTypeEnding : Passage := fun ts =>
  match skip? ["LARGE", "OBJECT"] ts with
  | some ts => optionalSize ts
  | none => optionalLength (skipOneOf ["VARYING"] ts)

/-- What may follow the first word of a time type. -/
def timeTypeEnding : Passage :=
  inTurn [optionalSize, whenFirst [["WITH"], ["WITHOUT"]] (inTurn [need "TIME", need "ZONE"])]

/-- A constant text, where a word that is no keyword counts as one. -/
def textConstant : Passage := fun ts =>
  match ts with
  | .string _ :: rest => .ok rest
  | .otherLiteral source :: rest =>
    if source.toList.take 2 ∈ [['E', '\''], ['e', '\'']] then .ok rest
    else failExpected "a text" ts
  | .word w :: rest => if w.isKeyword then failExpected "a text" ts else .ok rest
  | _ => failExpected "a text" ts

/-- What may follow the first word of a known type; nothing for a word that begins none. -/
def typeEnding? (k : String) : Option Passage :=
  if k ∈ ["BOOLEAN", "BOOL", "REAL", "FLOAT4", "FLOAT64", "FLOAT8", "INT64", "UUID", "DATE",
      "JSON", "JSONB", "REGCLASS", "TEXT", "BYTEA", "STRUCT", "INTERVAL"] then some .ok
  else if k ∈ ["FLOAT", "CLOB", "BINARY", "VARBINARY", "BLOB", "BYTES", "DATETIME", "STRING",
      "TIMESTAMPTZ", "TIMETZ"] then some optionalSize
  else if k ∈ ["TINYINT", "INT2", "SMALLINT", "MEDIUMINT", "INT", "INT4", "INT8", "INTEGER",
      "BIGINT"] then some (inTurn [optionalSize, allow ["UNSIGNED"]])
  else if k ∈ ["NUMERIC", "DECIMAL", "DEC", "BIGNUMERIC", "BIGDECIMAL"] then some optionalScale
  else if k ∈ ["VARCHAR", "NVARCHAR"] then some optionalLength
  else if k ∈ ["CHARACTER", "CHAR"] then some textTypeEnding
  else if k ∈ ["TIME", "TIMESTAMP"] then some timeTypeEnding
  else if k ∈ ["ENUM", "SET"] then
    some (enclosed [listOf fun ts =>
      match ts with
      | .string _ :: rest => .ok rest
      | _ => failExpected "a text" ts])
  else if k = "DOUBLE" then some (allow ["PRECISION"])
  else none

/-- The rest of what stands between parentheses after a type that is not known. -/
def typeModifiers : Passage
  | .symbol s :: rest =>
    if s = ")" then .ok rest
    else if s = "," then typeModifiers rest
    else failExpected "a type modifier" (.symbol s :: rest)
  | .word _ :: rest => typeModifiers rest
  | .number _ _ :: rest => typeModifiers rest
  | .string _ :: rest => typeModifiers rest
  | ts => failExpected "a type modifier" ts

/-- A type by its name. -/
def typeName : Passage := fun ts =>
  match ts with
  | .word w :: rest =>
    match typeEnding? w.keyword with
    | some ending => ending rest
    | none => inTurn [passed dottedName, whenFirst [["("]] typeModifiers] ts
  | _ => failExpected "a type" ts

/-- What follows a constant with its type before it, if one stands first. -/
def typedConstant? (ts : List Token) : Option (List Token) := do
  let ending ← typeEnding? (mark ts)
  (inTurn [ending, textConstant] (ts.drop 1)).toOption

/-- The fields of a time that may follow an interval. -/
def intervalFields : List String :=
  ["YEAR", "MONTH", "WEEK", "DAY", "HOUR", "MINUTE", "SECOND", "CENTURY", "DECADE", "DOW", "DOY",
    "EPOCH", "ISODOW", "ISOYEAR", "JULIAN", "MICROSECOND", "MICROSECONDS", "MILLENIUM",
    "MILLENNIUM", "MILLISECOND", "MILLISECONDS", "NANOSECOND", "NANOSECONDS", "QUARTER",
    "TIMEZONE", "TIMEZONE_HOUR", "TIMEZONE_MINUTE"]

/-- A field of a time: any word. A week may say on which day it begins. -/
def timeField : Passage := fun ts =>
  match skip? ["WEEK"] ts with
  | some ts => whenEnclosed [passed word] ts
  | none => passed word ts

/-- What follows the value of an interval: its field, with its size, and the field down to which it
is exact. -/
def intervalEnding : Passage := fun ts =>
  if mark ts = "SECOND" then optionalScale (ts.drop 1)
  else
    let field : Passage := if mark ts ∈ intervalFields then timeField else .ok
    let lastField : Passage := fun ts =>
      if mark ts = "SECOND" then optionalSize (ts.drop 1) else timeField ts
    inTurn [field, optionalSize, whenFirst [["TO"]] lastField] ts

end PrivateSql.Sql.Grammar
