import PrivateSql.Text.Casing
/-!
# Paths

Tables and columns are addressed by paths, lists of names from the outside in. Names are compared
without regard to case, so a path is kept in lower case.
-/

namespace PrivateSql

/-- The names on the way to a table or a column. -/
abbrev Path := List String

/-- The path in lower case. -/
def Path.normalize (parts : List String) : Path := parts.map Text.toLower

/-- What a look-up by a partial path gives. -/
inductive Found (α : Type) where
  | none
  | one (a : α)
  | many
  deriving DecidableEq, Repr

namespace Found

variable {α : Type}

/-- The only thing found, if there is exactly one. -/
def toOption : Found α → Option α
  | .one a => some a
  | _ => Option.none

/-- Apply a function to the only thing found. -/
def map {β : Type} (f : α → β) : Found α → Found β
  | .none => .none
  | .one a => .one (f a)
  | .many => .many

/-- One more thing found. -/
def also (f : Found α) (a : α) : Found α :=
  match f with
  | .none => .one a
  | _ => .many

end Found

end PrivateSql
