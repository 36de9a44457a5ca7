import PrivateSql.Sql.Grammar.Change
/-!
# The grammar of queries

A query is a block `SELECT ... HAVING`, or what may stand in its place, with an order and limits
after it. Clauses come in one order; a query ends before the first token that does not go on with
it.

* `query` — a whole query;
* `nested` — terms and queries with so many levels, and none below.
-/

namespace PrivateSql.Sql.Grammar

/-- A table by its name, after `TABLE`: three tokens are taken whatever the second one is. -/
def wholeTable : Passage := fun ts =>
  match ts with
  | .word _ :: .symbol "." :: .word _ :: rest => .ok rest
  | .word _ :: .symbol "." :: rest => failExpected "a table" rest
  | .word _ :: rest => .ok (rest.drop 2)
  | _ => failExpected "a table" ts

/-- What is read in place of a block is refused; `start` are the tokens it is shown with. -/
def refusedBody (start : List Token) (reached : Reading (List Token)) : Reading (Parsed Body) := do
  let rest ← reached
  return (.refused (sourceBetween start rest), rest)

/-- What rows come from before any set operation. -/
def simpleBody (inner : Nested) (ts : List Token) : Reading (Parsed Body) :=
  match mark ts with
  | "SELECT" => do
    let (b, rest) ← block inner (ts.drop 1)
    return (.block b, rest)
  | "(" => refusedBody ts (enclosed [passed inner.query] ts)
  | "VALUES" => refusedBody ts (rowList inner (ts.drop 1))
  | "TABLE" => refusedBody ts (wholeTable (ts.drop 1))
  | _ => failExpected "SELECT, VALUES or a subquery" ts

/-- How tight a set operation binds; 0 when none stands first. -/
def setPrecedence (ts : List Token) : Nat :=
  match mark ts with
  | "UNION" => 10
  | "EXCEPT" => 10
  | "INTERSECT" => 20
  | _ => 0

/-- The words after a set operation. -/
def setQuantifier (ts : List Token) : List Token :=
  let ts := skipOneOf ["ALL", "DISTINCT"] ts
  (skip? ["BY", "NAME"] ts).getD ts

mutual
/-- What rows come from, with the set operations that bind tighter than the floor. -/
def body (inner : Nested) : Nat → Nat → Piece Body
  | 0, _, ts => failExpected "SELECT, VALUES or a subquery" ts
  | fuel + 1, floor, ts => do
    let (b, rest) ← simpleBody inner ts
    setOperations inner fuel floor ts b rest

/-- The set operations that go on what was read since `start`. -/
def setOperations (inner : Nested) : Nat → Nat → List Token → Body → Piece Body
  | 0, _, _, b, ts => .ok (b, ts)
  | fuel + 1, floor, start, b, ts =>
    if setPrecedence ts ≤ floor then .ok (b, ts)
    else do
      let (_, rest) ← body inner fuel (setPrecedence ts) (setQuantifier (ts.drop 1))
      setOperations inner fuel floor start (.refused (sourceBetween start rest)) rest
end

/-- A query with a name, after `WITH`. -/
def namedQuery (inner : Nested) : Passage :=
  inTurn [passed word, whenEnclosed [listOf (passed word)], need "AS",
    enclosed [passed inner.query], whenFirst [["FROM"]] (passed word)]

/-- The named queries before a query. -/
def withClause (inner : Nested) : Passage :=
  whenFirst [["WITH"]] (inTurn [allow ["RECURSIVE"], listOf (namedQuery inner)])

/-- The number of rows after `LIMIT`. -/
def limitTerm (inner : Nested) (ts : List Token) : Reading (Parsed (Option Term)) :=
  match skip? ["ALL"] ts with
  | some ts => .ok (none, ts)
  | none => do
    let (t, ts) ← inner.term ts
    return (some t, ts)

/-- The rows skipped after `OFFSET`. -/
def offsetTerm (inner : Nested) : Passage := inTurn [passed inner.term, allow ["ROW", "ROWS"]]

/-- The limits after a query: how many rows are given, and whether some are skipped. Each of
`LIMIT` and `OFFSET` may stand first. -/
def limits (inner : Nested) : Nat → Option Term × Bool → Piece (Option Term × Bool)
  | 0, found, ts => .ok (found, ts)
  | rounds + 1, (limit, skips), ts => do
    let (limit, ts) ←
      if limit.isNone then do
        let (l, ts) ← after ["LIMIT"] (limitTerm inner) ts
        pure (l.join, ts)
      else pure (limit, ts)
    let (skips, ts) ←
      if skips then pure (skips, ts)
      else do
        let rest ← whenFirst [["OFFSET"]] (offsetTerm inner) ts
        pure (decide (mark ts = "OFFSET"), rest)
    match limit.isSome && !skips, ts with
    | true, .symbol "," :: rest =>
      let (t, rest) ← inner.term rest
      limits inner rounds (some t, true) rest
    | _, _ => limits inner rounds (limit, skips) ts

/-- The rows to give after `FETCH`. -/
def fetch : Passage :=
  inTurn
    [needOneOf ["FIRST", "NEXT"],
      fun ts =>
        if mark ts ∈ rows then .ok (ts.drop 1)
        else inTurn [constant, allow ["PERCENT"], needOneOf rows] ts,
      fun ts =>
        match skip? ["WITH", "TIES"] ts with
        | some ts => .ok ts
        | none => need "ONLY" ts]
where
  /-- The words for rows. -/
  rows : List String := ["ROW", "ROWS"]

/-- The form of a document that the rows are given as, after `FOR`; nothing when it does not
begin here. What may follow in the clause ends the query. -/
def documentClause? (ts : List Token) : Option (Reading (List Token)) :=
  let rest := ts.drop 1
  match mark ts with
  | "BROWSE" => some (.ok rest)
  | "XML" => some (needOneOf ["RAW", "AUTO", "EXPLICIT", "PATH"] rest)
  | "JSON" => some (needOneOf ["AUTO", "PATH"] rest)
  | _ => none

/-- How long the rows are locked, or the form that they are given in, after `FOR`. -/
def purposes : Nat → Passage
  | 0, ts => .ok ts
  | fuel + 1, ts =>
    match skip? ["FOR"] ts with
    | none => .ok ts
    | some ts =>
      match documentClause? ts with
      | some reached => reached
      | none => do
        let ts ← inTurn [needOneOf ["UPDATE", "SHARE"], whenFirst [["OF"]] (passed dottedName),
          whenFirst [["NOWAIT"], ["SKIP", "LOCKED"]] .ok] ts
        purposes fuel ts

/-- A query after the queries with names. -/
def plainQuery (inner : Nested) (hasWith : Bool) (ts : List Token) :
    Reading (Parsed QuerySource) := do
  let (b, ts) ← body inner (ts.length + 1) 0 ts
  let (orderBy, ts) ← orderTerms inner.term ts
  let ((limit, skips), ts) ← limits inner 2 (none, false) ts
  let ts ← whenFirst [["BY"]] inner.terms ts
  let fetches := mark ts = "FETCH"
  let ts ← inTurn [whenFirst [["FETCH"]] fetch, fun ts => purposes ts.length ts] ts
  return (⟨hasWith, b, orderBy, limit, skips || fetches⟩, ts)

/-- A whole query, or a change in its place. -/
def query (inner : Nested) (ts : List Token) : Reading (Parsed QuerySource) := do
  let hasWith := mark ts = "WITH"
  let ts ← withClause inner ts
  let change? : Option Passage := match mark ts with
    | "INSERT" => some (insertion inner)
    | "UPDATE" => some (replacement inner)
    | _ => none
  match change? with
  | some change =>
    let (b, rest) ← refusedBody ts (change (ts.drop 1))
    return (⟨hasWith, b, [], none, false⟩, rest)
  | none => plainQuery inner hasWith ts

/-- Terms and queries with so many levels, one of them used up by the term or the query itself. -/
def nested : Nat → Nested
  | 0 => ⟨fun _ => .error .tooDeep, fun _ => .error .tooDeep⟩
  | levels + 1 => ⟨term (nested levels), query (nested levels)⟩

/-- How many levels may be nested. -/
def levels : Nat := 50

end PrivateSql.Sql.Grammar
