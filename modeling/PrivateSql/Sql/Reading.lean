import PrivateSql.Sql.Token.Scan
import PrivateSql.Sql.Grammar.Query
import PrivateSql.Query.Basic
/-!
# Reading queries

A text is read as a whole before it is asked whether its query can be answered; tokens that do not
go on what was read are not looked at. Then each construct is either given its meaning or refused:
ranges and lists of values are put together from comparisons, and only blocks that read one table
are queries.

* `Term.toExpr`, `QuerySource.toQuery` — the expression and the query that are written;
* `Expr.parse`, `Query.parse` — texts read as an expression and as a query.
-/

namespace PrivateSql

namespace Sql

variable {N : Type} [Number N]

/-- The constant a number is written for: an integer if it is one of 64 bits. -/
def numberLiteral (text : String) : Except QueryError (Literal N) :=
  let cs := text.toList
  match if cs.all (·.isDigit) then int64? (Decimal.ofDigits 0 cs) else none with
  | some i => .ok ⟨.integer i, text⟩
  | none =>
    match Decimal.ofText? cs with
    | some d => .ok ⟨.float (Number.ofDecimal d.digits d.exponent), text⟩
    | none => .error (.unreadable (.expected "a number" text))

/-- The identifier of dotted words. -/
def identifierOf (ws : List Word) : Identifier := ⟨".".intercalate (ws.map Word.name)⟩

/-- The binary operators that are answered. -/
def supportedOperators : List String :=
  ["+", "-", "*", "/", "%", ">", "<", ">=", "<=", "=", "<>", "AND", "OR"]

/-- The denial of an expression, if it is denied. -/
def denyIf (negated : Bool) (e : Expr N) : Expr N := if negated then .unary "NOT" e else e

/-- An expression between two others: not below the one and not above the other. -/
def betweenExpr (e low high : Expr N) : Expr N :=
  .nested (.binary (.binary e ">=" low) "AND" (.binary e "<=" high))

/-- An expression equal to one of a list: comparisons joined from left to right. -/
def oneOfExpr (e first : Expr N) (others : List (Expr N)) : Expr N :=
  .nested (others.foldl (fun joined item => .binary joined "OR" (.binary e "=" item))
    (.binary e "=" first))

/-- The call of a function with arguments, where nothing stands for a star; `source` is the call as
it is written. -/
def callExpr (name source : String) (args : List (Option (Expr N))) :
    Except QueryError (Expr N) :=
  match AggregateFunction.ofName? name, args with
  | some .count, [none] => .ok (.aggregateRows .count)
  | some f, [some a] => .ok (.aggregate f a)
  | some _, _ => .error (.invalidExpression source)
  | none, _ =>
    if name ∈ scalarFunctions then
      match args.mapM id with
      | some es => .ok (.ofCall name es)
      | none => .error (.invalidExpression source)
    else .error (.unsupported (.function name))

mutual
/-- The expression a term is written for. -/
def Term.toExpr : Term → Except QueryError (Expr N)
  | .name ws => .ok (.column (identifierOf ws))
  | .number text _ => do return .literal (← numberLiteral text)
  | .string s => .ok (.literal (.ofValue (.text s)))
  | .otherLiteral source => .error (.unsupported (.literal source))
  | .boolean b => .ok (.literal (.ofValue (.boolean b)))
  | .null => .ok (.literal (.ofValue .null))
  | .nested t => do return .nested (← toExpr t)
  | .unary op t => do
    let e ← toExpr t
    return if op = "+" then e else .unary op e
  | .binary l op r => do
    let l ← toExpr l
    if op ∉ supportedOperators then throw (.unsupported (.operator op))
    let r ← toExpr r
    return .binary l op r
  | .isNull t negated => do return .isNull (← toExpr t) negated
  | .between t negated low high => do
    let e ← toExpr t
    let low ← toExpr low
    let high ← toExpr high
    return denyIf negated (betweenExpr e low high)
  | .inList t negated items => do
    let e ← toExpr t
    match ← toExprs items with
    | first :: others => return denyIf negated (oneOfExpr e first others)
    | [] => throw (.invalidExpression t.display)
  | .call f quantifier arguments clauses => do
    let source := (Term.call f quantifier arguments clauses).display
    if clauses.hasWindow then throw (.unsupported (.windowFunction source))
    if quantifier = some .distinct then throw (.unsupported (.distinctAggregate source))
    let args ← toArguments arguments
    callExpr (Text.toUpper (displayDotted f)) source args
  | .bareCall f => .error (.unsupported (.function f.display))
  | .subquery source => .error (.unsupported (.subquery source))
  | .subqueryCall source => .error (.unsupported (.subqueryCall source))
  | .refused source => .error (.unsupported (.expression source))

/-- The expressions some terms are written for. -/
def Term.toExprs : List Term → Except QueryError (List (Expr N))
  | [] => .ok []
  | t :: ts => do
    let e ← toExpr t
    let es ← toExprs ts
    return e :: es

/-- The expression of an argument, nothing for a star. -/
def Term.toArgument : Argument Term → Except QueryError (Option (Expr N))
  | .term t => do return some (← toExpr t)
  | .star => .ok none
  | .refused source => .error (.unsupported (.argument source))

/-- The expressions of some arguments. -/
def Term.toArguments : List (Argument Term) → Except QueryError (List (Option (Expr N)))
  | [] => .ok []
  | a :: rest => do
    let e ← toArgument a
    let es ← toArguments rest
    return e :: es
end

/-- The selected expression that is written. -/
def SelectSource.toItem : SelectSource → Except QueryError (SelectItem N)
  | .term t label => do return .of (← t.toExpr) (label.map Word.name)
  | .refused source => .error (.unsupported (.projection source))

/-- The table that is written. -/
def TableSource.toRelation {Q : Type} (t : TableSource) : Except QueryError (Relation Q) :=
  if t.isJoined then .error (.unsupported (.join t.source))
  else
    match t.factor with
    | .table name label => .ok (.table (identifierOf name) (label.map fun w => ⟨w.name⟩))
    | .derived _ => .error (.unsupported (.subquery t.source))
    | _ => .error (.unsupported (.relation t.source))

/-- The term to order by that is written. -/
def orderItemOf (o : Term × Bool) : Except QueryError (OrderItem N) := do
  return ⟨← o.1.toExpr, !o.2⟩

/-- The limit that is written: an integer that is not negative. -/
def limitOf (t : Term) : Except QueryError (Literal N) := do
  match ← t.toExpr with
  | .literal l =>
    match l.value with
    | .integer i =>
      if 0 ≤ i.toInt then return l else throw (.invalidExpression ("LIMIT " ++ t.display))
    | _ => throw (.invalidExpression ("LIMIT " ++ t.display))
  | _ => throw (.invalidExpression ("LIMIT " ++ t.display))

/-- The query that is written. -/
def QuerySource.toQuery (s : QuerySource) : Except QueryError (Query N) := do
  if s.hasWith then throw (.unsupported .withClause)
  if s.skips then throw (.unsupported .offset)
  match s.body with
  | .refused source => throw (.unsupported (.query source))
  | .block b =>
    if b.isDistinct then throw (.unsupported .selectDistinct)
    let relation ← match b.tables with
      | [t] => t.toRelation
      | [] => throw (.unsupported .missingFrom)
      | _ => throw (.unsupported .manyTables)
    let groupBy ← match b.groupBy with
      | some terms => Term.toExprs terms
      | none => throw (.unsupported .groupByAll)
    let select ← b.select.mapM SelectSource.toItem
    let selection ← b.selection.mapM Term.toExpr
    let having ← b.having.mapM Term.toExpr
    let orderBy ← s.orderBy.mapM orderItemOf
    let limit ← s.limit.mapM limitOf
    return ⟨select, [relation], selection, groupBy, having, orderBy, limit⟩

/-- What a piece of the grammar reads at the start of a text. -/
def readText {α : Type} (piece : Grammar.Piece α) (s : String) : Except QueryError α :=
  match Token.scan s with
  | .error failure => .error (.unreadable failure)
  | .ok tokens =>
    match piece tokens with
    | .error failure => .error (.unreadable failure)
    | .ok (found, _) => .ok found

end Sql

/-- The expression a text is written for. -/
def Expr.parse {N : Type} [Number N] (s : String) : Except QueryError (Expr N) := do
  (← Sql.readText (Sql.Grammar.nested Sql.Grammar.levels).term s).toExpr

/-- The query a text is written for. -/
def Query.parse {N : Type} [Number N] (s : String) : Except QueryError (Query N) := do
  (← Sql.readText (Sql.Grammar.nested Sql.Grammar.levels).query s).toQuery

end PrivateSql
