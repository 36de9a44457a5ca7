import PrivateSql.Value.DataType
import PrivateSql.Interval
/-!
# Schemas

The description of a private table: its name, its public number of rows, and its columns with their
types and the bounds declared for them. A description is checked before it becomes a schema.

* `Field`, `Schema` — a column, a table;
* `SchemaDraft.check` — a schema, or what is wrong with the description;
* `Schema.field` — the column with a name.
-/

namespace PrivateSql

/-- A column of a table. -/
structure Field (N : Type) where
  name : String
  dataType : DataType
  lower : Option N
  upper : Option N

namespace Field

variable {N : Type} [Number N]

/-- The declared bounds, when both are. -/
def bounds (f : Field N) : Option (Interval N) := do
  let l ← f.lower
  let u ← f.upper
  some (Interval.of l u)

/-- The text of a column in messages. -/
def display (f : Field N) : String :=
  f.name ++ ": " ++ f.dataType.name ++
    (match f.bounds with
      | some b => " " ++ b.display
      | none => "")

/-- Are two bounds both absent or equal as numbers? -/
def sameBound : Option N → Option N → Bool
  | none, none => true
  | some x, some y => Number.eq x y
  | _, _ => false

/-- Do two columns agree? -/
def agrees (f g : Field N) : Bool :=
  f.name == g.name && decide (f.dataType = g.dataType) && sameBound f.lower g.lower
    && sameBound f.upper g.upper

end Field

/-- What is wrong with the description of a table. Bounds are kept as they are shown. -/
inductive SchemaError where
  | missingName
  | missingRows (table : String)
  | tooFewRows (table : String) (rows : Nat)
  | noColumn (table : String)
  | ambiguousColumn (table column : String)
  | invalidBounds (column lower upper : String)
  | unknownColumn (table column : String)
  deriving DecidableEq, Repr

/-- What an error says, without its kind. -/
def SchemaError.detail : SchemaError → String
  | .missingName => "A table needs a name"
  | .missingRows t => t ++ " needs a number of rows"
  | .tooFewRows t n => t ++ " needs at least 2 rows, got " ++ toString n
  | .noColumn t => t ++ " has no column"
  | .ambiguousColumn t c => t ++ " has an ambiguous column " ++ c
  | .invalidBounds c l u => c ++ " has invalid bounds [" ++ l ++ ", " ++ u ++ "]"
  | .unknownColumn t c => t ++ " has no column " ++ c

/-- The whole text of an error. -/
def SchemaError.message (e : SchemaError) : String := "InvalidSchema: " ++ e.detail ++ "\n"

/-- A table: its name, its number of rows and its columns. -/
structure Schema (N : Type) where
  name : String
  rows : Nat
  fields : List (Field N)

/-- The description of a table before it is checked. -/
structure SchemaDraft (N : Type) where
  name : Option String
  rows : Option Nat
  fields : List (Field N)

namespace SchemaDraft

variable {N : Type} [Number N]

/-- What is wrong with a column, after columns with these names in lower case. -/
def fieldError? (table : String) (seen : List String) (f : Field N) : Option SchemaError :=
  if seen.contains (Text.toLower f.name) then
    some (.ambiguousColumn table f.name)
  else
    match f.lower, f.upper with
    | some l, some u =>
      if Number.le l u then none
      else some (.invalidBounds f.name (Number.write .display l) (Number.write .display u))
    | _, _ => none

/-- What is wrong with the first column that is not right. -/
def fieldsError? (table : String) (seen : List String) : List (Field N) → Option SchemaError
  | [] => none
  | f :: fs =>
    match fieldError? table seen f with
    | some e => some e
    | none => fieldsError? table (Text.toLower f.name :: seen) fs

/-- The schema a description stands for. A table has at least two rows, since a probability below 1
is derived from their number; it has a column, and no two with the same name. -/
def check (d : SchemaDraft N) : Except SchemaError (Schema N) :=
  match d.name with
  | none => .error .missingName
  | some name =>
    match d.rows with
    | none => .error (.missingRows name)
    | some rows =>
      if rows < 2 then .error (.tooFewRows name rows)
      else if d.fields.isEmpty then .error (.noColumn name)
      else match fieldsError? name [] d.fields with
        | some e => .error e
        | none => .ok ⟨name, rows, d.fields⟩

end SchemaDraft

namespace Schema

variable {N : Type}

/-- The column with this name, up to the case of ASCII letters. -/
def field (s : Schema N) (name : String) : Except SchemaError (Field N) :=
  match s.fields.find? fun f => Text.eqIgnoringAsciiCase f.name name with
  | some f => .ok f
  | none => .error (.unknownColumn s.name name)

/-- The names of the columns. -/
def names (s : Schema N) : List String := s.fields.map (·.name)

/-- The types of the columns. -/
def types (s : Schema N) : List DataType := s.fields.map (·.dataType)

/-- Do two schemas agree? -/
def agrees [Number N] (s t : Schema N) : Bool :=
  s.name == t.name && s.rows == t.rows && s.fields.length == t.fields.length
    && (s.fields.zip t.fields).all fun (f, g) => f.agrees g

/-- The text of a schema in messages. -/
def display [Number N] (s : Schema N) : String :=
  s.name ++ " (" ++ toString s.rows ++ " rows) \x7b"
    ++ ", ".intercalate (s.fields.map Field.display) ++ "\x7d"

end Schema

end PrivateSql
