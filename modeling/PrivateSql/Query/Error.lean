import PrivateSql.Value.Arithmetic
/-!
# Errors of queries

What can go wrong when a query is read, bound to its tables and evaluated. An error keeps its cause;
its wording is here and nowhere else.

* `ParseFailure` — why a text is no query;
* `Unsupported` — what a query is refused for;
* `QueryError` — all the causes, and `QueryError.message`, the text of each.
-/

namespace PrivateSql

/-- Why a text is not read. -/
inductive ParseFailure where
  /-- A quoted text, a quoted word or a comment is not closed. -/
  | unterminated (what : String)
  /-- Something else was needed at this place. -/
  | expected (what found : String)
  /-- Too many levels are nested. -/
  | tooDeep
  deriving DecidableEq, Repr

/-- The text of a failure. -/
def ParseFailure.detail : ParseFailure → String
  | .unterminated what => "unterminated " ++ what
  | .expected what found => "expected " ++ what ++ ", found: " ++ found
  | .tooDeep => "recursion limit exceeded"

/-- What a query is refused for. The construct is kept as it is shown. -/
inductive Unsupported where
  | literal (source : String)
  | operator (op : String)
  | windowFunction (source : String)
  | function (name : String)
  | distinctAggregate (source : String)
  | argument (source : String)
  | subquery (source : String)
  | subqueryCall (source : String)
  | expression (source : String)
  | join (source : String)
  | relation (source : String)
  | projection (source : String)
  | query (source : String)
  | withClause
  | offset
  | selectDistinct
  | missingFrom
  | manyTables
  | manyRelations
  | groupByAll
  | aggregateInWhere
  | aggregateInGroupBy
  | nestedAggregate (expression : String)
  | ungrouped (expression : String)
  | ungroupedOutput (expression : String)
  | privateDerived
  | notAggregating (query : String)
  deriving DecidableEq, Repr

/-- The words for what is refused. -/
def Unsupported.phrase : Unsupported → String
  | .literal s => "The literal " ++ s
  | .operator op => "The operator " ++ op
  | .windowFunction s => "The window function " ++ s
  | .function s => "The function " ++ s
  | .distinctAggregate s => "The distinct aggregate " ++ s
  | .argument s => "The argument " ++ s
  | .subquery s => "The subquery " ++ s
  | .subqueryCall s => "The subquery in " ++ s
  | .expression s => "The expression " ++ s
  | .join s => "The join in " ++ s
  | .relation s => "The relation " ++ s
  | .projection s => "The projection " ++ s
  | .query s => "The query " ++ s
  | .withClause => "WITH"
  | .offset => "OFFSET"
  | .selectDistinct => "SELECT DISTINCT"
  | .missingFrom => "A query without FROM"
  | .manyTables => "Reading from many tables"
  | .manyRelations => "Reading from many relations"
  | .groupByAll => "GROUP BY ALL"
  | .aggregateInWhere => "An aggregate in WHERE"
  | .aggregateInGroupBy => "An aggregate in GROUP BY"
  | .nestedAggregate e => "The nested aggregate in " ++ e
  | .ungrouped e => e ++ " is neither aggregated nor a group key"
  | .ungroupedOutput e => e ++ " is neither aggregated, a group key nor an output"
  | .privateDerived => "A private query over a derived relation"
  | .notAggregating q => "The private query " ++ q ++ " does not aggregate"

/-- Why a query has no answer. -/
inductive QueryError where
  | unreadable (failure : ParseFailure)
  | unsupported (construct : Unsupported)
  | malformedIdentifier (identifier : String)
  | unresolvedColumn (column : String)
  | ambiguousColumn (column : String)
  | unresolvedTable (table : String)
  /-- A column without value, or an aggregate outside of its query. -/
  | unevaluable (expression : String)
  /-- An operator has no value for its operands. -/
  | operation (error : ValueError)
  | invalidExpression (expression : String)
  deriving DecidableEq, Repr

/-- The whole text of an error. -/
def QueryError.message : QueryError → String
  | .unreadable f => "ParsingError: Cannot parse " ++ f.detail ++ "\n"
  | .unsupported c => "UnsupportedConstruct: " ++ c.phrase ++ " is not supported\n"
  | .malformedIdentifier i => "MalformedIdentifier: " ++ i ++ " has more than one qualifier\n"
  | .unresolvedColumn c => "UnresolvedColumn: Cannot resolve column " ++ c ++ "\n"
  | .ambiguousColumn c => "UnresolvedColumn: Column " ++ c ++ " is ambiguous\n"
  | .unresolvedTable t => "UnresolvedTable: Cannot resolve table " ++ t ++ "\n"
  | .unevaluable e => "Unevaluable: " ++ e ++ " cannot be evaluated statically\n"
  | .operation (.zeroDenominator n) =>
    "ZeroDenominator: " ++ (ValueError.zeroDenominator n).detail ++ "\n"
  | .operation (.invalidOperation op l r) =>
    "InvalidExpression: " ++ (ValueError.invalidOperation op l r).detail ++ "\n"
  | .invalidExpression e => "InvalidExpression: " ++ e ++ " is invalid\n"

end PrivateSql
