import PrivateSql.Catalog.Basic
import PrivateSql.Json.Document
import PrivateSql.Json.Pretty
/-!
# Catalogs as JSON documents

A catalog is written as `{"tables": [...]}`: a table with its name, its number of rows and its
columns, a column with its name, its type and the bounds that are declared. Any of them may also be
given as the list of its members in order. Members with other names are passed over, and a member
given twice is an error. Each table is checked where it ends, so the first fault of a document
counts.

* `Catalog.ofJson`, `Schema.ofJson` — catalogs and tables from texts;
* `Catalog.toJson` — the text of a catalog.
-/

namespace PrivateSql

/-- Why a document is no catalog. -/
inductive DocumentError where
  /-- It is no document, or one of another shape. -/
  | malformed
  /-- A table is not right. -/
  | schema (error : SchemaError)
  deriving DecidableEq, Repr

namespace Json

/-- What is read of a document. -/
abbrev Decoded := Except DocumentError

/-- A member that is given for the first time. -/
def once {α : Type} (old : Option α) (read : Decoded α) : Decoded (Option α) :=
  match old with
  | some _ => .error .malformed
  | none => do return some (← read)

/-- A member that has to be given. -/
def required {α : Type} : Option α → Decoded α
  | some a => .ok a
  | none => .error .malformed

/-- A text. -/
def textOf : Document → Decoded String
  | .text (some s) => .ok s
  | _ => .error .malformed

/-- A document or nothing, which is written `null`. -/
def optional {α : Type} (read : Document → Decoded α) : Document → Decoded (Option α)
  | .null => .ok none
  | d => do return some (← read d)

/-- A number that counts something, as 64 bits hold it. -/
def countOf : Document → Decoded Nat
  | .number n =>
    match n.integer? with
    | some i => if 0 ≤ i ∧ i < 0x10000000000000000 then .ok i.toNat else .error .malformed
    | none => .error .malformed
  | _ => .error .malformed

/-- A number. -/
def numberOf {N : Type} [Number N] : Document → Decoded N
  | .number n => required n.value?
  | _ => .error .malformed

/-- A list of documents of one kind. -/
def listOf {α : Type} (read : Document → Decoded α) : Document → Decoded (List α)
  | .list items => items.mapM read
  | _ => .error .malformed

/-- What is put together from the members of an object, or from the items of a list that stand for
members with these names. -/
def membersOf {σ : Type} (names : List String) (member : σ → String → Document → Decoded σ)
    (start : σ) : Document → Decoded σ
  | .object members => members.foldlM
      (fun s (name, d) =>
        match name with
        | none => .error .malformed
        | some name =>
          if name ∈ names then member s name d
          else if d.hasFault then .error .malformed
          else .ok s)
      start
  | .list items =>
    if names.length < items.length then do
      let _ ← (names.zip items).foldlM (fun s (name, d) => member s name d) start
      .error .malformed
    else (names.zip items).foldlM (fun s (name, d) => member s name d) start
  | _ => .error .malformed

/-- Was the document given as a list of no more than so many members? -/
def isShort (count : Nat) : Document → Bool
  | .list items => items.length ≤ count
  | _ => false

end Json

namespace DataType

/-- A type is given by its name, or as an object whose single member has that name and no value. -/
def ofDocument : Json.Document → Json.Decoded DataType
  | .text (some s) => Json.required (ofName? s)
  | .object [(some s, .null)] => Json.required (ofName? s)
  | _ => .error .malformed

end DataType

open Json

variable {N : Type} [Number N]

/-- The members of a column that were read so far. -/
structure FieldMembers (N : Type) where
  name : Option String
  dataType : Option DataType
  lower : Option (Option N)
  upper : Option (Option N)

/-- One more member of a column. -/
def FieldMembers.read (f : FieldMembers N) (name : String) (d : Document) :
    Decoded (FieldMembers N) :=
  match name with
  | "name" => do return { f with name := ← once f.name (textOf d) }
  | "type" => do return { f with dataType := ← once f.dataType (DataType.ofDocument d) }
  | "lower" => do return { f with lower := ← once f.lower (optional numberOf d) }
  | _ => do return { f with upper := ← once f.upper (optional numberOf d) }

/-- A column. -/
def Field.ofDocument (d : Document) : Decoded (Field N) := do
  let f ← membersOf ["name", "type", "lower", "upper"] FieldMembers.read ⟨none, none, none, none⟩ d
  return ⟨← required f.name, ← required f.dataType, f.lower.join, f.upper.join⟩

/-- The members of a table that were read so far. -/
structure SchemaMembers (N : Type) where
  name : Option (Option String)
  rows : Option (Option Nat)
  fields : Option (List (Field N))

/-- One more member of a table. -/
def SchemaMembers.read (s : SchemaMembers N) (name : String) (d : Document) :
    Decoded (SchemaMembers N) :=
  match name with
  | "name" => do return { s with name := ← once s.name (optional textOf d) }
  | "rows" => do return { s with rows := ← once s.rows (optional countOf d) }
  | _ => do return { s with fields := ← once s.fields (listOf Field.ofDocument d) }

/-- A table. As a list it has at least its name and its number of rows, which may be `null`. -/
def Schema.ofDocument (d : Document) : Decoded (Schema N) := do
  let s ← membersOf ["name", "rows", "columns"] SchemaMembers.read ⟨none, none, none⟩ d
  if isShort 1 d then throw .malformed
  match (SchemaDraft.mk s.name.join s.rows.join (s.fields.getD [])).check with
  | .ok schema => return schema
  | .error e => throw (.schema e)

/-- A catalog. -/
def Catalog.ofDocument (d : Document) : Decoded (Catalog N) := do
  let tables ← membersOf ["tables"]
    (fun tables _ d => once tables (listOf Schema.ofDocument d)) none d
  return .ofSchemas (← required tables)

/-- What is read of a whole text. -/
def Json.ofText {α : Type} (read : Document → Decoded α) (s : String) : Decoded α := do
  let (d, isWhole) := Document.read s
  let a ← read d
  if isWhole then return a else throw .malformed

/-- The catalog of a text. -/
def Catalog.ofJson (s : String) : Decoded (Catalog N) := Json.ofText Catalog.ofDocument s

/-- The table of a text. -/
def Schema.ofJson (s : String) : Decoded (Schema N) := Json.ofText Schema.ofDocument s

/-- A bound of a column as a member of its document, if it is declared. -/
def boundBlock (name : String) : Option N → List (String × Block)
  | some x => [(name, .scalar (Value.float x).json)]
  | none => []

/-- A column as a document. -/
def Field.block (f : Field N) : Block :=
  .object
    (("name", .scalar (Json.quote f.name)) :: ("type", .scalar (Json.quote f.dataType.name))
      :: (boundBlock "lower" f.lower ++ boundBlock "upper" f.upper))

/-- A table as a document. -/
def Schema.block (s : Schema N) : Block :=
  .object
    [("name", .scalar (Json.quote s.name)), ("rows", .scalar (toString s.rows)),
      ("columns", .list (s.fields.map Field.block))]

/-- The text of a catalog. -/
def Catalog.toJson (c : Catalog N) : String :=
  (Block.object [("tables", .list (c.tables.map Schema.block))]).pretty

end PrivateSql
