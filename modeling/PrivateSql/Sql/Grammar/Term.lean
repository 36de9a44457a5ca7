import PrivateSql.Sql.Grammar.Construct
import PrivateSql.Sql.Grammar.Reserved
/-!
# The grammar of terms

Terms are read by precedence: after an operand, the reading goes on as long as the next operator
binds tighter than the floor it was started with. Operators of one precedence go from left to
right. Terms between parentheses, arguments and subqueries belong to the nested grammar.

* `precedence` — how tight the next operator binds, 0 when there is none;
* `operand` — the longest term whose operators bind tighter than a floor.
-/

namespace PrivateSql.Sql.Grammar

/-- How tight a sign binds as an operator; 0 for a sign that is none. -/
def signPrecedence (s : String) : Nat :=
  match s with
  | "=" | "<>" | "<" | "<=" | ">" | ">=" | "<=>" => 20
  | "~" | "~*" | "~~" | "~~*" | "!~" | "!~*" | "!~~" | "!~~*" => 20
  | "|" => 21
  | "^" | "<<" | ">>" | "#" => 22
  | "&" => 23
  | "+" | "-" => 30
  | "*" | "/" | "%" | "||" | "//" => 40
  | "->" | "->>" | "#>" | "#>>" | "#-" | "@>" | "<@" | "@?" | "@@" | "&&" | "^@" | "::" => 50
  | _ => 0

/-- How tight a keyword binds as an operator that may be denied; 0 for any other word. -/
def negatablePrecedence (k : String) : Nat :=
  match k with
  | "IN" | "BETWEEN" => 20
  | "LIKE" | "ILIKE" | "SIMILAR" | "RLIKE" | "REGEXP" => 19
  | _ => 0

/-- How tight the operator binds that stands first; 0 when none does. -/
def precedence : List Token → Nat
  | .symbol s :: _ => signPrecedence s
  | .word w :: ts =>
    match w.keyword with
    | "OR" => 5
    | "AND" => 10
    | "IS" => 17
    | "XOR" => 24
    | "OPERATOR" => 20
    | "DIV" => 40
    | "AT" => if (skip? ["TIME", "ZONE"] ts).isSome then 20 else 0
    | "NOT" => negatablePrecedence (mark ts)
    | k => negatablePrecedence k
  | _ => 0

/-- The operators that compare two values. -/
def comparisons : List String := ["=", "<>", "<", "<=", ">", ">="]

/-- Is this the start of a subquery? -/
def startsQuery (ts : List Token) : Bool := mark ts = "SELECT" || mark ts = "WITH"

/-- What is read by a passage is refused; `start` are the tokens it is shown with. -/
def refusedTerm (start : List Token) (reached : Reading (List Token)) : Reading (Parsed Term) := do
  let rest ← reached
  return (.refused (sourceBetween start rest), rest)

/-- A subquery, whose opening parenthesis was read; `start` are the tokens it is shown with. -/
def subquery (inner : Nested) (start ts : List Token) : Reading (Parsed Term) := do
  let (_, rest) ← closing inner.query ts
  return (.subquery (sourceBetween start rest), rest)

/-- What begins with an opening parenthesis, which was read: a subquery, a term, or several of
them. A field taken out of it is refused. -/
def parenthesizedTerm (inner : Nested) (start ts : List Token) : Reading (Parsed Term) := do
  let (t, rest) ←
    if startsQuery ts then subquery inner start ts
    else do
      let (terms, rest) ← closing (commaSeparated inner.term) ts
      match terms with
      | [t] => pure (.nested t, rest)
      | _ => pure (.refused (sourceBetween start rest), rest)
  match rest with
  | .symbol "." :: .word _ :: rest => return (.refused (sourceBetween start rest), rest)
  | .symbol "." :: rest => failExpected "an identifier" rest
  | _ => return (t, rest)

/-- A name or the call of a function, which begins with this word. -/
def nameTerm (inner : Nested) (w : Word) (ts : List Token) : Reading (Parsed Term) := do
  let (ws, ts) ← moreWords ts.length ts
  match ts with
  | .symbol "(" :: ts => call inner.term (w :: ws) ts
  | _ => return (.name (w :: ws), ts)

/-- The denial of a term, whose first word was read; `start` are the tokens it is shown with. -/
def denial (inner : Nested) (rhs : Nat → Piece Term) (start ts : List Token) :
    Reading (Parsed Term) :=
  match skip? ["EXISTS"] ts with
  | some rest => do
    let rest ← need "(" rest
    subquery inner start rest
  | none => do
    let (t, rest) ← rhs 15 ts
    return (.unary "NOT" t, rest)

/-- Does a text stand first that may have its set of characters before it? -/
def startsIntroduced : List Token → Bool
  | .string _ :: _ => true
  | .otherLiteral source :: _ =>
    match source.toList with
    | 'x' :: _ => true
    | 'X' :: _ => true
    | '0' :: _ => true
    | _ => false
  | _ => false

/-- What begins with a word that begins no construct: a name, a call or a text with its set of
characters. -/
def plainWordTerm (inner : Nested) (rhs : Nat → Piece Term) (w : Word) (ts : List Token) :
    Reading (Parsed Term) :=
  let start := .word w :: ts
  match w.keyword, ts with
  | "POSITION", .symbol "(" :: rest =>
    refusedTerm start (inTurn [passed (rhs 20), need "IN", passed inner.term, need ")"] rest)
  | "ARRAY", .symbol "(" :: rest => do
    let (_, rest) ← closing inner.query rest
    return (.subqueryCall (sourceBetween start rest), rest)
  | _, _ =>
    if w.text.toList.head? = some '_' ∧ startsIntroduced ts then
      refusedTerm start (.ok (ts.drop 1))
    else nameTerm inner w ts

/-- What begins with a word, which was read: a constant, a construct with a keyword, a name or a
call. -/
def wordTerm (inner : Nested) (rhs : Nat → Piece Term) (w : Word) (ts : List Token) :
    Reading (Parsed Term) :=
  let start := .word w :: ts
  let k := w.keyword
  match construct? inner k with
  | some construct => refusedTerm start (construct ts)
  | none =>
    if k = "TRUE" then .ok (.boolean true, ts)
    else if k = "FALSE" then .ok (.boolean false, ts)
    else if k = "NULL" then .ok (.null, ts)
    else if k = "NOT" then denial inner rhs start ts
    else if k = "EXISTS" then do
      let rest ← need "(" ts
      subquery inner start rest
    else if k ∈ bareFunctions then .ok (.bareCall w, ts)
    else if k ∈ timeFunctions then
      match ts with
      | .symbol "(" :: rest => do
        let (args, rest) ← arguments inner.term rest
        return (.call [w] args.quantifier args.arguments ⟨args.clauses, [], false⟩, rest)
      | _ => .ok (.bareCall w, ts)
    else plainWordTerm inner rhs w ts

/-- A sign before its operand. -/
def signedTerm (rhs : Nat → Piece Term) (op : String) (ts : List Token) :
    Reading (Parsed Term) := do
  let (t, rest) ← rhs 40 ts
  return (.unary op t, rest)

/-- A term before any operator or collation follows it. -/
def bareTerm (inner : Nested) (rhs : Nat → Piece Term) (ts : List Token) :
    Reading (Parsed Term) :=
  match ts with
  | .number text long :: rest => .ok (.number text long, rest)
  | .string s :: rest => .ok (.string s, rest)
  | .otherLiteral source :: rest => .ok (.otherLiteral source, rest)
  | .symbol "(" :: rest => parenthesizedTerm inner ts rest
  | .symbol "-" :: rest => signedTerm rhs "-" rest
  | .symbol "+" :: rest => signedTerm rhs "+" rest
  | .symbol "@" :: rest => do
    let (w, rest) ← word rest
    return (.otherLiteral ("@" ++ w.text), rest)
  | .word w :: rest => wordTerm inner rhs w rest
  | _ => failExpected "an expression" ts

/-- An interval of time, whose first word was read: its value goes on with all operators but those
of logic. -/
def interval (rhs : Nat → Piece Term) : Passage := inTurn [passed (rhs 10), intervalEnding]

/-- A term before any operator follows it. Constants with their type and intervals have no
collation. -/
def primary (inner : Nested) (rhs : Nat → Piece Term) (ts : List Token) :
    Reading (Parsed Term) :=
  if mark ts = "INTERVAL" then refusedTerm ts (interval rhs (ts.drop 1))
  else
    match typedConstant? ts with
    | some rest => refusedTerm ts (.ok rest)
    | none => do
      let (t, rest) ← bareTerm inner rhs ts
      match skip? ["COLLATE"] rest with
      | some rest => refusedTerm ts (passed dottedName rest)
      | none => return (t, rest)

/-- A binary operator, which was read, with its right operand. A comparison with any or all of
several values is refused. -/
def binaryTail (rhs : Nat → Piece Term) (p : Nat) (left : Term) (op : String)
    (ts : List Token) : Reading (Parsed Term) :=
  if mark ts = "ANY" ∨ mark ts = "ALL" then do
    let (right, rest) ← parenthesized (rhs p) (ts.drop 1)
    if op ∈ comparisons then
      let values : Term := .call [⟨mark ts, none⟩] none [.term right] .none
      return (.refused (Term.binary left op values).display, rest)
    else failExpected "a comparison" ts
  else do
    let (right, rest) ← rhs p ts
    return (.binary left op right, rest)

/-- What follows a term and is refused together with it; `start` are the tokens it is shown with. -/
def refusedTail (left : Term) (start : List Token) (reached : Reading (List Token)) :
    Reading (Parsed Term) := do
  let rest ← reached
  return (.refused (left.display ++ " " ++ sourceBetween start rest), rest)

/-- The test of a term, after `IS`; `start` are the tokens it is shown with. -/
def isTail (term : Piece Term) (left : Term) (start ts : List Token) : Reading (Parsed Term) :=
  match skip? ["NULL"] ts, skip? ["NOT", "NULL"] ts with
  | some rest, _ => .ok (.isNull left false, rest)
  | none, some rest => .ok (.isNull left true, rest)
  | none, none =>
    let rest := skipOneOf ["NOT"] ts
    refusedTail left start <|
      match skip? ["DISTINCT", "FROM"] rest with
      | some rest => passed term rest
      | none => needOneOf ["TRUE", "FALSE", "UNKNOWN"] rest

/-- The list, the subquery or the array after `IN`; `start` are the tokens it is shown with. -/
def inTail (inner : Nested) (left : Term) (negated : Bool) (start ts : List Token) :
    Reading (Parsed Term) :=
  match skip? ["UNNEST"] ts with
  | some rest => refusedTail left start (enclosed [passed inner.term] rest)
  | none => do
    let rest ← need "(" ts
    if startsQuery rest then
      let (_, rest) ← closing inner.query rest
      return (.subquery (left.display ++ " " ++ sourceBetween start rest), rest)
    else
      let (items, rest) ← closing (commaSeparated inner.term) rest
      return (.inList left negated items, rest)

/-- The character that takes the place of a backslash in a pattern, if one is given. -/
def escapeCharacter : Passage := whenFirst [["ESCAPE"]] fun ts =>
  let bytes := match ts with
    | .word w :: _ => w.text.utf8ByteSize
    | .string s :: _ => s.utf8ByteSize
    -- the mark before the text and its two quotation marks do not count
    | .otherLiteral source :: _ => source.utf8ByteSize - 3
    | _ => 0
  if bytes = 1 then textConstant ts else failExpected "a character" ts

/-- The operators that `NOT` may stand before; `start` are the tokens it is shown with. -/
def negatableTail (inner : Nested) (rhs : Nat → Piece Term) (left : Term)
    (negated : Bool) (start ts : List Token) : Reading (Parsed Term) :=
  let pattern := passed (rhs 19)
  match mark ts with
  | "IN" => inTail inner left negated start (ts.drop 1)
  | "BETWEEN" => do
    let (low, rest) ← rhs 20 (ts.drop 1)
    let rest ← need "AND" rest
    let (high, rest) ← rhs 20 rest
    return (.between left negated low high, rest)
  | "SIMILAR" => refusedTail left start (inTurn [need "TO", pattern, escapeCharacter] (ts.drop 1))
  | "RLIKE" => refusedTail left start (pattern (ts.drop 1))
  | "REGEXP" => refusedTail left start (pattern (skipOneOf ["RLIKE"] (ts.drop 1)))
  | _ => refusedTail left start (inTurn [pattern, escapeCharacter] (ts.drop 1))

/-- The tokens of an operator by its name, with dots between them; its opening parenthesis was
read. -/
def operatorName : Nat → Piece String
  | 0, ts => failExpected "an operator" ts
  | fuel + 1, ts =>
    match ts with
    | t :: .symbol "." :: rest => do
      let (names, rest) ← operatorName fuel rest
      return (t.display ++ "." ++ names, rest)
    | t :: rest => .ok (t.display, rest)
    | [] => failExpected "an operator" ts

/-- The operator that stands first, of precedence `p`, with the operands that follow it. -/
def operatorTail (inner : Nested) (rhs : Nat → Piece Term) (p : Nat) (left : Term)
    (ts : List Token) : Reading (Parsed Term) :=
  match mark ts, ts.drop 1 with
  | "AND", rest => binaryTail rhs p left "AND" rest
  | "OR", rest => binaryTail rhs p left "OR" rest
  | "XOR", rest => binaryTail rhs p left "XOR" rest
  | "IS", rest => isTail inner.term left ts rest
  | "NOT", rest => negatableTail inner rhs left true ts rest
  | "AT", rest => refusedTail left ts <|
    inTurn [need "TIME", need "ZONE", fun ts =>
      match ts with
      | .string _ :: rest => .ok rest
      | _ => failExpected "a text" ts] rest
  | "OPERATOR", rest => do
    let (name, rest) ← parenthesized (operatorName rest.length) rest
    binaryTail rhs p left ("OPERATOR(" ++ name ++ ")") rest
  | "::", rest => refusedTail left ts (typeName rest)
  | "DIV", _ => failExpected "an operator" ts
  | "#", _ => failExpected "an operator" ts
  | op, rest =>
    if negatablePrecedence op = 0 then binaryTail rhs p left op rest
    else negatableTail inner rhs left false ts ts

mutual
/-- The longest term whose operators bind tighter than the floor. One level of fuel is enough for
each token, and a term that fuel does not reach the end of is none. -/
def operand (inner : Nested) : Nat → Nat → Piece Term
  | 0, _, ts => failExpected "an expression" ts
  | fuel + 1, floor, ts => do
    let (t, ts) ← primary inner (operand inner fuel) ts
    operators inner fuel floor t ts

/-- The term goes on with the operators that bind tighter than the floor. -/
def operators (inner : Nested) : Nat → Nat → Term → Piece Term
  | 0, floor, t, ts =>
    if precedence ts ≤ floor then .ok (t, ts) else failExpected "the end of an expression" ts
  | fuel + 1, floor, t, ts =>
    if precedence ts ≤ floor then .ok (t, ts)
    else do
      let (t, ts) ← operatorTail inner (operand inner fuel) (precedence ts) t ts
      operators inner fuel floor t ts
end

/-- A whole term. -/
def term (inner : Nested) (ts : List Token) : Reading (Parsed Term) :=
  operand inner (ts.length + 1) 0 ts

end PrivateSql.Sql.Grammar
