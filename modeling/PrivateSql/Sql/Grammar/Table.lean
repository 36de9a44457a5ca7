import PrivateSql.Sql.Grammar.Term
/-!
# The grammar of tables

What rows may be read from: tables by name, queries and constructs in their place, and joins of
them. Tables may stand between parentheses of their own, which are no level of nesting.

* `tableFactor` — one table or what stands in its place;
* `tableSource` — a table with those joined to it.
-/

namespace PrivateSql.Sql.Grammar

/-- The name given to a table. Names given to its columns are read and not kept. -/
def tableAlias (ts : List Token) : Reading (Parsed (Option Word)) := do
  let (label, ts) ← aliasWord reservedAfterTable ts
  match label with
  | some w =>
    let ts ← whenEnclosed [listOf (passed word)] ts
    return (some w, ts)
  | none => return (none, ts)

/-- A query in place of a table, whose opening parenthesis was read. -/
def derivedTable (inner : Nested) (ts : List Token) : Reading (Parsed TableFactor) := do
  let (_, ts) ← closing inner.query ts
  let (label, ts) ← tableAlias ts
  return (.derived label, ts)

/-- Rows of terms, after `VALUES`. -/
def rowList (inner : Nested) : Passage :=
  listOf (inTurn [allow ["ROW"], enclosed [inner.terms]])

/-- The condition of a join. -/
def joinCondition (inner : Nested) : Passage := fun ts =>
  match skip? ["ON"] ts with
  | some ts => passed inner.term ts
  | none => whenFirst [["USING"]] wordList ts

/-- The words that begin a join, and whether a condition may follow its table; nothing when no join
begins here. -/
def joinWords (ts : List Token) : Reading (Option (Bool × List Token)) :=
  let rest := ts.drop 1
  match mark ts with
  | "JOIN" => .ok (some (true, rest))
  | "INNER" => conditional (need "JOIN" rest)
  | "LEFT" => conditional (need "JOIN" (skipOneOf ["OUTER", "SEMI", "ANTI"] rest))
  | "RIGHT" => conditional (need "JOIN" (skipOneOf ["OUTER", "SEMI", "ANTI"] rest))
  | "FULL" => conditional (need "JOIN" (skipOneOf ["OUTER"] rest))
  | "CROSS" => do
    let ts ← needOneOf ["JOIN", "APPLY"] rest
    return some (false, ts)
  | "OUTER" => do
    let ts ← need "APPLY" rest
    return some (false, ts)
  | _ => .ok none
where
  /-- A join whose table a condition may follow. -/
  conditional (reached : Reading (List Token)) : Reading (Option (Bool × List Token)) := do
    let ts ← reached
    return some (true, ts)

/-- The words that begin a join, after `NATURAL`. -/
def naturalWords (ts : List Token) : Reading (Option (Bool × List Token)) :=
  if mark ts ∈ ["JOIN", "INNER", "LEFT", "RIGHT", "FULL"] then do
    let found ← joinWords ts
    return found.map fun (_, ts) => (false, ts)
  else failExpected "a join" ts

/-- The joins after a table; is there one? -/
def joins (inner : Nested) (factor : Piece TableFactor) : Nat → Piece Bool
  | 0, ts => .ok (false, ts)
  | fuel + 1, ts => do
    match ← if mark ts = "NATURAL" then naturalWords (ts.drop 1) else joinWords ts with
    | none => return (false, ts)
    | some (conditional, ts) =>
      let (_, ts) ← factor ts
      let ts ← if conditional then joinCondition inner ts else .ok ts
      let (_, ts) ← joins inner factor fuel ts
      return (true, ts)

/-- A table and those joined to it. -/
def tableSource (inner : Nested) (factor : Piece TableFactor) (ts : List Token) :
    Reading (Parsed TableSource) := do
  let (f, rest) ← factor ts
  let (isJoined, rest) ← joins inner factor rest.length rest
  return (⟨f, isJoined, sourceBetween ts rest⟩, rest)

/-- A table between parentheses takes the name after them if it has none inside. -/
def TableFactor.nameOutside (f : TableFactor) (label : Option Word) (ts : List Token) :
    Reading TableFactor :=
  match label, f with
  | none, _ => .ok f
  | some w, .table name none => .ok (.table name (some w))
  | some w, .derived none => .ok (.derived (some w))
  | some w, .computed none => .ok (.computed (some w))
  | some _, .joined => .ok .joined
  | some _, _ => failExpected "no second alias" ts

/-- The arguments of a table, whose opening parenthesis was read. -/
def tableArguments (inner : Nested) : Passage := fun ts =>
  match skip? [")"] ts with
  | some ts => .ok ts
  | none => inTurn [listOf (passed (argument inner.term)), need ")"] ts

/-- A call that gives the values of a turned table. -/
def turnedCall (inner : Nested) : Passage := fun ts =>
  match ts with
  | .word w :: rest => do
    let rest ← need "(" rest
    inTurn [passed (call inner.term [w]), whenFirst [["AS"]] (passed word)] rest
  | _ => failExpected "a function" ts

/-- Rows turned into columns, after `PIVOT`. -/
def pivot (inner : Nested) : Passage :=
  enclosed [listOf (turnedCall inner), need "FOR", passed dottedName, need "IN",
    enclosed [listOf (inTurn [passed inner.term, whenFirst [["AS"]] (passed word)])]]

/-- Columns turned into rows, after `UNPIVOT`. -/
def unpivot : Passage :=
  enclosed [passed word, need "FOR", passed word, need "IN", wordList]

/-- What is read when rows and columns are turned; nothing when no such clause begins here. Rows
found by a pattern are not read. -/
def turning? (inner : Nested) (ts : List Token) : Option (Reading (List Token)) :=
  match mark ts with
  | "PIVOT" => some (pivot inner (ts.drop 1))
  | "UNPIVOT" => some (unpivot (ts.drop 1))
  | "MATCH_RECOGNIZE" => some (failExpected "no pattern of rows" ts)
  | _ => none

/-- A table as often turned as is written. -/
def turnedTable (inner : Nested) : Nat → TableFactor → Piece TableFactor
  | 0, f, ts => .ok (f, ts)
  | fuel + 1, f, ts =>
    match turning? inner ts with
    | none => .ok (f, ts)
    | some reached => do
      let ts ← reached
      let (label, ts) ← tableAlias ts
      turnedTable inner fuel (.computed label) ts

/-- Hints for the reading of a table, if there are any. -/
def tableHints (inner : Nested) : Passage := fun ts =>
  match skip? ["WITH", "("] ts with
  | some rest => inTurn [inner.terms, need ")"] rest
  | none => .ok ts

/-- A table by its name, which may be called with arguments. The partitions that are read from and
hints are not kept. -/
def namedTable (inner : Nested) (ts : List Token) : Reading (Parsed TableFactor) := do
  let (name, ts) ← dottedName ts
  let ts ← whenFirst [["PARTITION"]] wordList ts
  let isCalled := mark ts = "("
  let ts ← whenFirst [["("]] (tableArguments inner) ts
  let (label, ts) ← tableAlias ts
  let ts ← tableHints inner ts
  turnedTable inner ts.length (if isCalled then .computed label else .table name label) ts

/-- A construct in place of a table, with the name given to it. -/
def computedTable (reached : Reading (List Token)) : Reading (Parsed TableFactor) := do
  let ts ← reached
  let (label, ts) ← tableAlias ts
  return (.computed label, ts)

/-- The rows of an array, after `UNNEST`; their numbers may have a name too. -/
def unnestedTable (inner : Nested) (ts : List Token) : Reading (Parsed TableFactor) := do
  let (f, ts) ← computedTable (enclosed [inner.terms] ts)
  match skip? ["WITH", "OFFSET"] ts with
  | some ts =>
    let (_, ts) ← aliasWord reservedAfterTerm ts
    return (f, ts)
  | none => return (f, skipOneOf ["WITH"] ts)

/-- What begins with a word: a construct in place of a table, or a table by its name. -/
def wordTable (inner : Nested) (ts : List Token) : Reading (Parsed TableFactor) :=
  match mark ts, ts.drop 1 with
  | "LATERAL", .symbol "(" :: rest => derivedTable inner rest
  | "LATERAL", rest =>
    computedTable (inTurn [passed dottedName, need "(", tableArguments inner] rest)
  | "TABLE", rest => computedTable (enclosed [passed inner.term] rest)
  | "VALUES", rest => do
    let rest ← rowList inner rest
    let (label, rest) ← tableAlias rest
    return (.derived label, rest)
  | "UNNEST", rest => unnestedTable inner rest
  | "JSON_TABLE", .symbol "(" :: rest => failExpected "no table of a document" rest
  | _, _ => namedTable inner ts

/-- A table, a query in its place, or tables between parentheses. A parenthesis begins a query if
one can be read there. -/
def tableFactor (inner : Nested) : Nat → Piece TableFactor
  | 0, ts => failExpected "a table" ts
  | fuel + 1, ts =>
    match ts with
    | .symbol "(" :: rest =>
      match derivedTable inner rest with
      | .ok found => .ok found
      | .error _ => do
        let (table, rest) ← tableSource inner (tableFactor inner fuel) rest
        let rest ← need ")" rest
        let (label, after) ← tableAlias rest
        if table.isJoined then return (.joined, after)
        else
          let f ← TableFactor.nameOutside table.factor label rest
          return (f, after)
    | _ => wordTable inner ts

end PrivateSql.Sql.Grammar
