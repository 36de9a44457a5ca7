import PrivateSql.Sql.Grammar.Table
/-!
# The grammar of blocks

A block `SELECT ... HAVING` has its clauses in one order. Clauses that are never answered for are
read where they may stand and not kept.

* `selectItem` — a selected term with its name, or a star;
* `groupItem` — a term to group by;
* `block` — a whole block.
-/

namespace PrivateSql.Sql.Grammar

/-- A word with another name for it. -/
def renamed : Passage :=
  inTurn [passed word, allow ["AS"], passed word]

/-- What follows a selected star: the columns it leaves out, takes otherwise or calls otherwise. -/
def starEnding (inner : Nested) : Passage := fun ts => do
  let onlyLike := mark ts = "ILIKE"
  let ts ← whenFirst [["ILIKE"]] (fun ts =>
    match ts with
    | .string _ :: rest => .ok rest
    | _ => failExpected "a pattern" ts) ts
  let ts ← if onlyLike then .ok ts else whenFirst [["EXCLUDE"]] wordOrList ts
  inTurn
    [whenFirst [["EXCEPT"]] wordOrList,
      whenFirst [["REPLACE"]] (enclosed
        [listOf (inTurn [passed inner.term, allow ["AS"], passed word])]),
      whenFirst [["RENAME"]] fun ts =>
        if mark ts = "(" then enclosed [listOf renamed] ts else renamed ts] ts
where
  /-- A word, or words between parentheses. -/
  wordOrList : Passage := fun ts => if mark ts = "(" then wordList ts else passed word ts

/-- A selected term with its name, or a star. -/
def selectItem (inner : Nested) (ts : List Token) : Reading (Parsed SelectSource) := do
  let (found, rest) ← starOr inner.term ts
  match found with
  | .term t =>
    let (label, rest) ← aliasWord reservedAfterTerm rest
    return (.term t label, rest)
  | _ =>
    let rest ← starEnding inner rest
    return (.refused (sourceBetween ts rest), rest)

/-- Terms between parentheses, which may be none. -/
def termTuple (inner : Nested) : Passage := fun ts =>
  match skip? ["(", ")"] ts with
  | some ts => .ok ts
  | none => enclosed [inner.terms] ts

/-- The words before the selected terms; is every row given once? -/
def selectQuantifier (inner : Nested) (ts : List Token) : Reading (Parsed Bool) :=
  let afterAll := skipOneOf ["ALL"] ts
  match skip? ["DISTINCT"] afterAll with
  | none => .ok (false, afterAll)
  | some rest =>
    if mark ts = "ALL" then failExpected "either ALL or DISTINCT" ts
    else do
      let rest ← whenFirst [["ON"]] (termTuple inner) rest
      return (true, rest)

/-- How many of the rows are given, after `TOP`. -/
def topRows (inner : Nested) : Passage :=
  inTurn
    [fun ts => if mark ts = "(" then enclosed [passed inner.term] ts else size ts,
      allow ["PERCENT"], whenFirst [["WITH", "TIES"]] .ok]

/-- The table that the rows are put into, after `INTO`. -/
def intoTable : Passage :=
  inTurn [allow ["TEMP", "TEMPORARY"], allow ["UNLOGGED"], allow ["TABLE"], passed dottedName]

/-- Views of the rows that are read, each with the names of its columns. -/
def lateralViews (inner : Nested) : Nat → Passage
  | 0, ts => .ok ts
  | fuel + 1, ts =>
    match skip? ["LATERAL", "VIEW"] ts with
    | none => .ok ts
    | some ts => do
      let ts ← inTurn [passed inner.term, passed dottedName,
        listOf (passed (aliasWord ["WHERE", "GROUP", "CLUSTER", "HAVING", "LATERAL"]))]
        (skipOneOf ["OUTER"] ts)
      lateralViews inner fuel ts

/-- A term to group by; sets of groupings are refused. -/
def groupItem (inner : Nested) (ts : List Token) : Reading (Parsed Term) :=
  match skip? ["GROUPING", "SETS"] ts with
  | some rest => refusedTerm ts (enclosed [listOf (termTuple inner)] rest)
  | none =>
    if mark ts = "CUBE" ∨ mark ts = "ROLLUP" then
      refusedTerm ts (enclosed [listOf tupleOrTerm] (ts.drop 1))
    else inner.term ts
where
  /-- Terms between parentheses, or one term without them. -/
  tupleOrTerm : Passage := fun ts =>
    if mark ts = "(" then termTuple inner ts else passed inner.term ts

/-- The terms to group by, nothing for those of all that is selected. -/
def grouping (inner : Nested) (ts : List Token) : Reading (Parsed (Option (List Term))) :=
  match skip? ["ALL"] ts with
  | some ts => .ok (none, ts)
  | none => do
    let (terms, ts) ← commaSeparated (groupItem inner) ts
    return (some terms, ts)

/-- Windows with names, after `WINDOW`. -/
def namedWindows (inner : Nested) : Passage :=
  whenFirst [["WINDOW"]] (listOf (inTurn [passed word, need "AS", namedOrWindow inner.term]))

/-- Windows with names and a condition on what is computed over them; each may stand first. -/
def windowClauses (inner : Nested) : Passage := fun ts =>
  let condition := whenFirst [["QUALIFY"]] (passed inner.term)
  if mark ts = "WINDOW" then inTurn [namedWindows inner, condition] ts
  else if mark ts = "QUALIFY" then inTurn [condition, namedWindows inner] ts
  else .ok ts

/-- The rows where a search in depth starts, and how it goes on; each may stand first. -/
def searchClause (inner : Nested) : Passage := fun ts =>
  let start := inTurn [need "START", need "WITH", passed inner.term]
  let step := inTurn [need "CONNECT", need "BY", inner.terms]
  match mark ts with
  | "START" => inTurn [start, step] ts
  | "CONNECT" => inTurn [step, start] ts
  | _ => .ok ts

/-- A block, after `SELECT`. -/
def block (inner : Nested) (ts : List Token) : Reading (Parsed Block) := do
  let (isDistinct, ts) ← selectQuantifier inner ts
  let ts ← whenFirst [["TOP"]] (topRows inner) ts
  let (select, ts) ← commaSeparated (selectItem inner) ts
  let ts ← whenFirst [["INTO"]] intoTable ts
  let factor := tableFactor inner (ts.length + 1)
  let (tables, ts) ← after ["FROM"] (commaSeparated (tableSource inner factor)) ts
  let ts ← lateralViews inner ts.length ts
  let (selection, ts) ← after ["WHERE"] inner.term ts
  let (groups, ts) ← after ["GROUP", "BY"] (grouping inner) ts
  let ts ← inTurn
    (["CLUSTER", "DISTRIBUTE", "SORT"].map fun k => whenFirst [[k, "BY"]] inner.terms) ts
  let (having, ts) ← after ["HAVING"] inner.term ts
  let ts ← inTurn [windowClauses inner, searchClause inner] ts
  return (⟨isDistinct, select, tables.getD [], selection, groups.getD (some []), having⟩, ts)

end PrivateSql.Sql.Grammar
