import PrivateSql.Sql.Token
/-!
# Query texts as they are written

What the grammar finds in a text, before it is asked whether the query can be answered: every
construct that is answered has its own constructor, the others keep the text they were found as.

* `Term.display` — a term written out again: names and numbers as they stand in the text.
-/

namespace PrivateSql.Sql

/-- The word before the arguments of a function. -/
inductive Quantifier where
  | all
  | distinct
  deriving DecidableEq, Repr

/-- An argument of a function. -/
inductive Argument (T : Type) where
  | term (t : T)
  | star
  | refused (source : String)

/-- What a call says beside its arguments. -/
structure CallClauses where
  /-- Clauses after the arguments, inside of the parentheses. -/
  inside : List String
  /-- Clauses after the parentheses. -/
  outside : List String
  hasWindow : Bool

/-- Nothing is said beside the arguments. -/
def CallClauses.none : CallClauses := ⟨[], [], false⟩

/-- Clauses written out behind what they go on. -/
def displayClauses (clauses : List String) : String := String.join (clauses.map (" " ++ ·))

/-- An expression as it is written. -/
inductive Term where
  /-- Words with dots between them. -/
  | name (words : List Word)
  | number (text : String) (long : Bool)
  | string (s : String)
  | otherLiteral (source : String)
  | boolean (b : Bool)
  | null
  | nested (t : Term)
  | unary (op : String) (t : Term)
  | binary (left : Term) (op : String) (right : Term)
  | isNull (t : Term) (negated : Bool)
  | between (t : Term) (negated : Bool) (low high : Term)
  | inList (t : Term) (negated : Bool) (items : List Term)
  | call (function : List Word) (quantifier : Option Quantifier) (arguments : List (Argument Term))
    (clauses : CallClauses)
  /-- A function that is written without arguments or parentheses. -/
  | bareCall (function : Word)
  | subquery (source : String)
  /-- A function whose only argument is a query. -/
  | subqueryCall (source : String)
  | refused (source : String)

namespace Term

def displayQuantifier : Option Quantifier → String
  | none => ""
  | some .all => "ALL "
  | some .distinct => "DISTINCT "

mutual
/-- A term written out. -/
def display : Term → String
  | .name ws => displayDotted ws
  | .number text long => (Token.number text long).display
  | .string s => (Token.string s).display
  | .otherLiteral source => source
  | .boolean b => if b then "true" else "false"
  | .null => "NULL"
  | .nested t => "(" ++ display t ++ ")"
  | .unary op t => if op = "NOT" then op ++ " " ++ display t else op ++ display t
  | .binary l op r => display l ++ " " ++ op ++ " " ++ display r
  | .isNull t negated => display t ++ (if negated then " IS NOT NULL" else " IS NULL")
  | .between t negated low high =>
    display t ++ (if negated then " NOT" else "") ++ " BETWEEN " ++ display low ++ " AND "
      ++ display high
  | .inList t negated items =>
    display t ++ (if negated then " NOT" else "") ++ " IN (" ++ ", ".intercalate (displayAll items)
      ++ ")"
  | .call f quantifier arguments clauses =>
    displayDotted f ++ "(" ++ displayQuantifier quantifier
      ++ ", ".intercalate (displayArguments arguments) ++ displayClauses clauses.inside ++ ")"
      ++ displayClauses clauses.outside
  | .bareCall f => f.display
  | .subquery source => source
  | .subqueryCall source => source
  | .refused source => source

/-- Some terms written out. -/
def displayAll : List Term → List String
  | [] => []
  | t :: ts => display t :: displayAll ts

/-- An argument written out. -/
def displayArgument : Argument Term → String
  | .term t => display t
  | .star => "*"
  | .refused source => source

/-- Some arguments written out. -/
def displayArguments : List (Argument Term) → List String
  | [] => []
  | a :: rest => displayArgument a :: displayArguments rest
end

end Term

/-- What a query selects. -/
inductive SelectSource where
  | term (t : Term) (label : Option Word)
  | refused (source : String)

/-- A table, or what stands in its place. -/
inductive TableFactor where
  | table (name : List Word) (label : Option Word)
  | derived (label : Option Word)
  /-- Joined tables between parentheses. -/
  | joined
  /-- A call, or another construct that no rows are read from. -/
  | computed (label : Option Word)

/-- A table with the tables joined to it. -/
structure TableSource where
  factor : TableFactor
  isJoined : Bool
  source : String

/-- The blocks `SELECT ... HAVING` of a query. -/
structure Block where
  isDistinct : Bool
  select : List SelectSource
  tables : List TableSource
  selection : Option Term
  /-- Nothing when the grouping is by all that is selected. -/
  groupBy : Option (List Term)
  having : Option Term

/-- What a query gives its rows from. -/
inductive Body where
  | block (b : Block)
  | refused (source : String)

/-- A query as it is written. -/
structure QuerySource where
  hasWith : Bool
  body : Body
  /-- The terms to order by, and whether they are in descending order. -/
  orderBy : List (Term × Bool)
  limit : Option Term
  /-- Are rows skipped? -/
  skips : Bool

end PrivateSql.Sql
