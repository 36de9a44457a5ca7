import PrivateSql.Sql.Grammar.TypeName
/-!
# Calls of functions

What stands between the parentheses of a call and after them: arguments, clauses that say in which
order and how many of them count, and a window over which the function is taken.

* `starOr` — a term, or a star in its place;
* `arguments` — what stands between the parentheses;
* `call` — a whole call, whose name and opening parenthesis were read;
* `window` — a window between parentheses.
-/

namespace PrivateSql.Sql.Grammar

/-- A term or a star; a star after dotted words is refused. -/
def starOr (term : Piece Term) (ts : List Token) : Reading (Parsed (Argument Term)) :=
  let ordinary : Reading (Parsed (Argument Term)) := do
    let (t, rest) ← term ts
    return (.term t, rest)
  match ts with
  | .symbol "*" :: rest => .ok (.star, rest)
  | .word _ :: .symbol "." :: _ => qualifiedStar ts ordinary
  | .string _ :: .symbol "." :: _ => qualifiedStar ts ordinary
  | _ => ordinary
where
  /-- A name whose dots lead to a star; any other name is read as a term. -/
  qualifiedStar (ts : List Token) (ordinary : Reading (Parsed (Argument Term))) :
      Reading (Parsed (Argument Term)) :=
    match starAfterDots ts.length (ts.drop 1) with
    | .ok (some rest) => .ok (.refused (sourceBetween ts rest), rest)
    | .ok none => ordinary
    | .error e => .error e
  /-- What follows the star at the end of dotted words, if there is one. -/
  starAfterDots : Nat → List Token → Reading (Option (List Token))
    | _, .symbol "." :: .symbol "*" :: rest => .ok (some rest)
    | fuel + 1, .symbol "." :: rest => do
      let (_, rest) ← word rest
      starAfterDots fuel rest
    | _, _ => .ok none

/-- An argument of a function: a term, a star, or what is read and refused. -/
def argument (term : Piece Term) (ts : List Token) : Reading (Parsed (Argument Term)) :=
  match ts with
  | _ :: .symbol "=>" :: _ => do
    let (_, rest) ← word ts
    let (_, rest) ← starOr term (rest.drop 1)
    return (.refused (sourceBetween ts rest), rest)
  | _ => starOr term ts

/-- A term to order by, as it is shown. -/
def orderText (term : Piece Term) (ts : List Token) : Reading (Parsed String) := do
  let (t, ts) ← term ts
  let rest := orderWords ts
  let words := Text.toUpper (sourceBetween ts rest)
  return (if words = "" then t.display else t.display ++ " " ++ words, rest)

/-- The terms after `ORDER BY`, as they are shown. -/
def orderTexts (term : Piece Term) (ts : List Token) : Reading (Parsed String) := do
  let (terms, ts) ← commaSeparated (orderText term) ts
  return ("ORDER BY " ++ ", ".intercalate terms, ts)

/-- The limit of a list of arguments, as it is shown. -/
def limitText (term : Piece Term) (ts : List Token) : Reading (Parsed String) := do
  let (t, ts) ← term ts
  return ("LIMIT " ++ t.display, ts)

/-- What becomes of a text that is too long, as it is shown. -/
def overflowText (ts : List Token) : Reading (Parsed String) :=
  match skip? ["ERROR"] ts with
  | some ts => .ok ("ON OVERFLOW ERROR", ts)
  | none => do
    let ts ← need "TRUNCATE" ts
    let (filler, ts) := match ts with
      | .string s :: rest => (" " ++ (Token.string s).display, rest)
      | .otherLiteral source :: rest => (" " ++ source, rest)
      | ts => ("", ts)
    let how := mark ts
    let ts ← inTurn [needOneOf ["WITH", "WITHOUT"], need "COUNT"] ts
    return ("ON OVERFLOW TRUNCATE" ++ filler ++ " " ++ how ++ " COUNT", ts)

/-- What stands between the parentheses of a call. -/
structure Arguments where
  quantifier : Option Quantifier
  arguments : List (Argument Term)
  clauses : List String

/-- What stands between the parentheses of a call, the first of which was read. -/
def arguments (term : Piece Term) (ts : List Token) : Reading (Parsed Arguments) :=
  match ts with
  | .symbol ")" :: rest => .ok (⟨none, [], []⟩, rest)
  | _ => do
    let (quantifier, ts) ← match mark ts, mark (ts.drop 1) with
      | "ALL", "DISTINCT" => failExpected "either ALL or DISTINCT" ts
      | "ALL", _ => .ok (some Quantifier.all, ts.drop 1)
      | "DISTINCT", _ => .ok (some Quantifier.distinct, ts.drop 1)
      | _, _ => .ok (none, ts)
    let (args, ts) ← commaSeparated (argument term) ts
    let (order, ts) ← after ["ORDER", "BY"] (orderTexts term) ts
    let (limit, ts) ← after ["LIMIT"] (limitText term) ts
    let (overflow, ts) ← after ["ON", "OVERFLOW"] overflowText ts
    let ts ← need ")" ts
    return (⟨quantifier, args, order.toList ++ limit.toList ++ overflow.toList⟩, ts)

/-- An end of the frame of a window; a text in it is an interval. -/
def frameBound (term : Piece Term) : Passage := fun ts =>
  match skip? ["CURRENT", "ROW"] ts, skip? ["UNBOUNDED"] ts, ts with
  | some rest, _, _ => .ok rest
  | none, some rest, _ => side rest
  | none, none, .string _ :: _ => inTurn [passed term, intervalEnding, side] ts
  | none, none, _ => inTurn [passed term, side] ts
where
  /-- The side of the row on which a frame ends. -/
  side : Passage := needOneOf ["PRECEDING", "FOLLOWING"]

/-- The frame of a window. -/
def frame (term : Piece Term) : Passage :=
  inTurn [needOneOf ["ROWS", "RANGE", "GROUPS"], fun ts =>
    match skip? ["BETWEEN"] ts with
    | some ts => inTurn [frameBound term, need "AND", frameBound term] ts
    | none => frameBound term ts]

/-- A window, whose opening parenthesis was read. -/
def window (term : Piece Term) : Passage := fun ts => do
  let ts := match ts with
    | .word w :: rest => if w.isKeyword then ts else rest
    | _ => ts
  let ts ← whenFirst [["PARTITION", "BY"]] (listOf (passed term)) ts
  let (_, ts) ← orderTerms term ts
  match ts with
  | .symbol ")" :: rest => return rest
  | _ => inTurn [frame term, need ")"] ts

/-- A window between parentheses, or its name. -/
def namedOrWindow (term : Piece Term) : Passage := fun ts =>
  match ts with
  | .symbol "(" :: rest => window term rest
  | _ => passed word ts

/-- The order in which a call takes its arguments, as it is shown. -/
def withinGroup (term : Piece Term) (ts : List Token) : Reading (Parsed String) := do
  let ts ← inTurn [need "(", need "ORDER", need "BY"] ts
  let (order, ts) ← closing (orderTexts term) ts
  return ("WITHIN GROUP (" ++ order ++ ")", ts)

/-- What a call does with nulls, as it is shown. -/
def nullsText (ts : List Token) : Reading (Parsed (Option String)) :=
  let how := mark ts
  if how = "IGNORE" ∨ how = "RESPECT" then do
    let ts ← need "NULLS" (ts.drop 1)
    return (some (how ++ " NULLS"), ts)
  else .ok (none, ts)

/-- A call, whose name and opening parenthesis were read. -/
def call (term : Piece Term) (function : List Word) (ts : List Token) : Reading (Parsed Term) := do
  let (args, ts) ← arguments term ts
  let (within, ts) ← after ["WITHIN", "GROUP"] (withinGroup term) ts
  let (nulls, ts) ← nullsText ts
  let rest ← whenFirst [["OVER"]] (namedOrWindow term) ts
  let clauses := ⟨args.clauses, within.toList ++ nulls.toList, decide (mark ts = "OVER")⟩
  return (.call function args.quantifier args.arguments clauses, rest)

end PrivateSql.Sql.Grammar
