import PrivateSql.Sql.Source
import PrivateSql.Query.Error
/-!
# Pieces of the grammar

A piece of the grammar reads what it stands for at the start of some tokens and gives the tokens
that follow. Much of what can be written is never answered; of it only the end matters, so it is
read by passages, which give nothing but the tokens that follow. Keywords are words like any other,
so a keyword is asked for at its place.

* `skip?`, `need` — fixed keywords and signs;
* `commaSeparated`, `listOf` — pieces and passages with commas between them;
* `inTurn`, `enclosed`, `whenFirst`, `allow` — passages put together;
* `Nested` — the grammar inside of the piece that is read.
-/

namespace PrivateSql.Sql.Grammar

/-- What is read, or why it is not. -/
abbrev Reading := Except ParseFailure

/-- What was read and the tokens that follow. -/
abbrev Parsed (α : Type) := α × List Token

/-- A piece of the grammar. -/
abbrev Piece (α : Type) := List Token → Reading (Parsed α)

/-- A piece of the grammar of which only its end is kept. -/
abbrev Passage := List Token → Reading (List Token)

/-- Nothing that fits stands here. -/
def failExpected {α : Type} (what : String) (ts : List Token) : Reading α :=
  .error (.expected what (match ts with
    | t :: _ => t.display
    | [] => "end of text"))

/-- The keyword or the sign that stands first, if there is one. -/
def mark (ts : List Token) : String :=
  match ts with
  | .word w :: _ => w.keyword
  | .symbol s :: _ => s
  | _ => ""

/-- What follows these keywords and signs, when they stand first. -/
def skip? : List String → List Token → Option (List Token)
  | [], ts => some ts
  | m :: ms, ts => if mark ts = m then skip? ms (ts.drop 1) else none

/-- What follows one of these keywords and signs that may stand first. -/
def skipOneOf (ms : List String) (ts : List Token) : List Token :=
  if mark ts ∈ ms then ts.drop 1 else ts

/-- What follows a keyword or a sign that has to stand first. -/
def need (m : String) : Passage := fun ts =>
  if mark ts = m then .ok (ts.drop 1) else failExpected m ts

/-- What follows one of these keywords, one of which has to stand first. -/
def needOneOf (ms : List String) : Passage := fun ts =>
  if mark ts ∈ ms then .ok (ts.drop 1) else failExpected (" or ".intercalate ms) ts

/-- The tokens read between two places of a text, written out. -/
def sourceBetween (before after : List Token) : String :=
  displayTokens (before.take (before.length - after.length))

/-- As `commaSeparated`, for at most `fuel + 1` pieces. -/
def commaSeparatedFrom {α : Type} (piece : Piece α) :
    Nat → Piece (List α)
  | 0, ts => do
    let (x, ts) ← piece ts
    return ([x], ts)
  | fuel + 1, ts => do
    let (x, ts) ← piece ts
    match ts with
    | .symbol "," :: rest =>
      let (xs, rest) ← commaSeparatedFrom piece fuel rest
      return (x :: xs, rest)
    | _ => return ([x], ts)

/-- One or more pieces with commas between them. -/
def commaSeparated {α : Type} (piece : Piece α) (ts : List Token) :
    Reading (Parsed (List α)) :=
  commaSeparatedFrom piece ts.length ts

/-- A piece between parentheses, the first of which was read. -/
def closing {α : Type} (piece : Piece α) (ts : List Token) : Reading (Parsed α) := do
  let (x, ts) ← piece ts
  let ts ← need ")" ts
  return (x, ts)

/-- A piece between parentheses. -/
def parenthesized {α : Type} (piece : Piece α) (ts : List Token) : Reading (Parsed α) := do
  let ts ← need "(" ts
  closing piece ts

/-- A piece that follows these keywords, if they stand first. -/
def after {α : Type} (ks : List String) (piece : Piece α) (ts : List Token) :
    Reading (Parsed (Option α)) :=
  match skip? ks ts with
  | some ts => do
    let (x, ts) ← piece ts
    return (some x, ts)
  | none => .ok (none, ts)

/-- A piece of which only its end is kept. -/
def passed {α : Type} (piece : Piece α) : Passage := fun ts => do
  let (_, ts) ← piece ts
  return ts

/-- Passages one after the other. -/
def inTurn : List Passage → Passage
  | [], ts => .ok ts
  | p :: ps, ts => do
    let ts ← p ts
    inTurn ps ts

/-- One or more times the same passage, with commas between. -/
def listOf (p : Passage) : Passage :=
  passed (commaSeparated fun ts => do
    let ts ← p ts
    return ((), ts))

/-- Passages one after the other between parentheses. -/
def enclosed (ps : List Passage) : Passage := inTurn ([need "("] ++ ps ++ [need ")"])

/-- A passage that follows one of these beginnings, if one of them stands first. -/
def whenFirst (beginnings : List (List String)) (p : Passage) : Passage := fun ts =>
  match beginnings.findSome? (skip? · ts) with
  | some ts => p ts
  | none => .ok ts

/-- One of these keywords, if one of them stands first. -/
def allow (ms : List String) : Passage := fun ts => .ok (skipOneOf ms ts)

/-- Passages between parentheses, if an opening parenthesis stands first. -/
def whenEnclosed (ps : List Passage) : Passage := whenFirst [["("]] (inTurn (ps ++ [need ")"]))

/-- A word; a text in its place is a quoted word. -/
def word (ts : List Token) : Reading (Parsed Word) :=
  match ts with
  | .word w :: rest => .ok (w, rest)
  | .string s :: rest => .ok (⟨s, some '\''⟩, rest)
  | _ => failExpected "an identifier" ts

/-- The words that go on a dotted name. -/
def moreWords : Nat → Piece (List Word)
  | fuel + 1, .symbol "." :: ts => do
    let (w, ts) ← word ts
    let (ws, ts) ← moreWords fuel ts
    return (w :: ws, ts)
  | _, ts => .ok ([], ts)

/-- Words with dots between them. -/
def dottedName (ts : List Token) : Reading (Parsed (List Word)) := do
  let (w, ts) ← word ts
  let (ws, ts) ← moreWords ts.length ts
  return (w :: ws, ts)

/-- Words between parentheses, with commas. -/
def wordList : Passage := enclosed [listOf (passed word)]

/-- A name given to what was read: after `AS` any word, else a word that is not reserved. -/
def aliasWord (reserved : List String) (ts : List Token) : Reading (Parsed (Option Word)) :=
  match skip? ["AS"] ts with
  | some ts => do
    let (w, ts) ← word ts
    return (some w, ts)
  | none =>
    match ts with
    | .word w :: rest => if w.keyword ∈ reserved then .ok (none, ts) else .ok (some w, rest)
    | .string s :: rest => .ok (some ⟨s, some '\''⟩, rest)
    | _ => .ok (none, ts)

/-- A constant where no other term may stand. -/
def constant : Passage := fun ts =>
  match ts with
  | .number _ _ :: rest => .ok rest
  | .string _ :: rest => .ok rest
  | .otherLiteral _ :: rest => .ok rest
  | .word w :: rest =>
    if w.keyword ∈ ["TRUE", "FALSE", "NULL"] ∨ w.quote = some '"' then .ok rest
    else failExpected "a constant" ts
  | _ => failExpected "a constant" ts

/-- The grammar inside of a piece: terms and queries with fewer levels below them. -/
structure Nested where
  term : Piece Term
  query : Piece QuerySource

/-- The terms of a list, of which only the end is kept. -/
def Nested.terms (inner : Nested) : Passage := listOf (passed inner.term)

/-- The words for a direction and for the place of nulls. -/
def orderWords (ts : List Token) : List Token :=
  let ts := skipOneOf ["ASC", "DESC"] ts
  ((skip? ["NULLS", "FIRST"] ts).or (skip? ["NULLS", "LAST"] ts)).getD ts

/-- A term to order by, and whether it is in descending order. Where nulls stand is read and not
kept. -/
def orderTerm (term : Piece Term) (ts : List Token) : Reading (Parsed (Term × Bool)) := do
  let (t, ts) ← term ts
  return ((t, decide (mark ts = "DESC")), orderWords ts)

/-- The terms after `ORDER BY`. -/
def orderTerms (term : Piece Term) (ts : List Token) :
    Reading (Parsed (List (Term × Bool))) := do
  let (terms, ts) ← after ["ORDER", "BY"] (commaSeparated (orderTerm term)) ts
  return (terms.getD [], ts)

end PrivateSql.Sql.Grammar
