import PrivateSql.Sql.Grammar.Call
/-!
# Constructs with a keyword

Constructs that begin with a keyword of their own, read to their end and then refused as a whole.
Each of the keywords that begin one stands for nothing else at the start of a term.

* `construct?` — the construct that a keyword begins.
-/

namespace PrivateSql.Sql.Grammar

variable (inner : Nested)

/-- The cases of a `CASE`, after a `WHEN`. -/
def caseArms : Nat → Passage
  | 0, ts => failExpected "END" ts
  | fuel + 1, ts => do
    let ts ← inTurn [passed inner.term, need "THEN", passed inner.term] ts
    match skip? ["WHEN"] ts with
    | some ts => caseArms fuel ts
    | none => inTurn [whenFirst [["ELSE"]] (passed inner.term), need "END"] ts

/-- A `CASE`: conditions, or a term and the values it may have. -/
def caseTerm : Passage := fun ts => do
  let ts ← match skip? ["WHEN"] ts with
    | some ts => .ok ts
    | none => inTurn [passed inner.term, need "WHEN"] ts
  caseArms inner ts.length ts

/-- A cast to a type. -/
def castTerm : Passage :=
  enclosed [passed inner.term, need "AS", typeName,
    whenFirst [["FORMAT"]] (inTurn [constant, whenFirst [["AT", "TIME", "ZONE"]] constant])]

/-- A conversion into a type, or of a text into a set of characters. -/
def convertTerm : Passage :=
  enclosed [passed inner.term, fun ts =>
    match skip? ["USING"] ts with
    | some ts => passed dottedName ts
    | none => inTurn
      [need ",", typeName, whenFirst [["CHARACTER", "SET"]] (passed dottedName)] ts]

/-- A field of a time. -/
def extractTerm : Passage := enclosed [timeField, need "FROM", passed inner.term]

/-- The rounding of a number, or of a time to a field. -/
def roundingTerm : Passage := enclosed [passed inner.term, whenFirst [["TO"]] timeField]

/-- A part of a text. -/
def substringTerm : Passage :=
  enclosed [passed inner.term, whenFirst [["FROM"], [","]] (passed inner.term),
    whenFirst [["FOR"], [","]] (passed inner.term)]

/-- A text put over a part of another one. -/
def overlayTerm : Passage :=
  enclosed [passed inner.term, need "PLACING", passed inner.term, need "FROM", passed inner.term,
    whenFirst [["FOR"]] (passed inner.term)]

/-- A text without the characters at its ends. -/
def trimTerm : Passage :=
  enclosed [allow ["BOTH", "LEADING", "TRAILING"], passed inner.term,
    fun ts =>
      match skip? ["FROM"] ts with
      | some ts => passed inner.term ts
      | none => whenFirst [[","]] inner.terms ts]

/-- A search in texts. -/
def matchTerm : Passage :=
  inTurn [wordList, need "AGAINST", enclosed [constant, fun ts =>
    match skip? ["IN", "NATURAL", "LANGUAGE", "MODE"] ts, skip? ["IN", "BOOLEAN", "MODE"] ts with
    | some ts, _ => .ok (withExpansion ts)
    | none, some ts => .ok ts
    | none, none => .ok (withExpansion ts)]]
where
  /-- What follows the words for a second search. -/
  withExpansion (ts : List Token) : List Token :=
    (skip? ["WITH", "QUERY", "EXPANSION"] ts).getD ts

/-- Values put together, each of which may have a name. -/
def structTerm : Passage :=
  enclosed [listOf (inTurn [passed inner.term, whenFirst [["AS"]] (passed word)])]

/-- The construct that a keyword begins, the keyword having been read. -/
def construct? (k : String) : Option Passage :=
  match k with
  | "CASE" => some (caseTerm inner)
  | "CAST" => some (castTerm inner)
  | "TRY_CAST" => some (castTerm inner)
  | "SAFE_CAST" => some (castTerm inner)
  | "CONVERT" => some (convertTerm inner)
  | "EXTRACT" => some (extractTerm inner)
  | "CEIL" => some (roundingTerm inner)
  | "FLOOR" => some (roundingTerm inner)
  | "SUBSTRING" => some (substringTerm inner)
  | "OVERLAY" => some (overlayTerm inner)
  | "TRIM" => some (trimTerm inner)
  | "MATCH" => some matchTerm
  | "STRUCT" => some (structTerm inner)
  | _ => none

end PrivateSql.Sql.Grammar
