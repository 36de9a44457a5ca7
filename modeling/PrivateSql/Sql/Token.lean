import PrivateSql.Text.Casing
/-!
# Tokens of query texts

The words, constants and signs a query text is made of, and how each is written.

* `Word.keyword` — the keyword a bare word may stand for;
* `Token.display`, `displayTokens` — tokens written out again.
-/

namespace PrivateSql.Sql

/-- A word, with the quotation mark around it if there is one. -/
structure Word where
  text : String
  quote : Option Char
  deriving DecidableEq, Repr, Inhabited

/-- A piece of a query text. -/
inductive Token where
  | word (w : Word)
  /-- A number as it is written, and whether the mark of a long number follows it. -/
  | number (text : String) (long : Bool)
  | string (s : String)
  /-- A constant of a kind that queries do not compute with. -/
  | otherLiteral (source : String)
  | symbol (s : String)
  deriving DecidableEq, Repr, Inhabited

/-- Characters with each quotation mark written twice, a pair of them as a pair. A mark after a
backslash counts as written out already. -/
def escapeQuotes (q : Char) : Option Char → List Char → List Char
  | _, [] => []
  | before, [c] => if c = q ∧ before ≠ some '\\' then [c, c] else [c]
  | before, c :: d :: rest =>
    if c = q then
      if before = some '\\' then c :: escapeQuotes q before (d :: rest)
      else if d = q then c :: c :: escapeQuotes q (some c) rest
      else c :: c :: escapeQuotes q (some c) (d :: rest)
    else c :: escapeQuotes q (some c) (d :: rest)

/-- A text between quotation marks. -/
def quoted (q : Char) (s : String) : String :=
  String.ofList (q :: (escapeQuotes q none s.toList ++ [q]))

/-- The keyword a word stands for when a keyword may stand at its place; quoted words stand for
none. -/
def Word.keyword (w : Word) : String :=
  match w.quote with
  | some _ => ""
  | none => Text.toUpper w.text

/-- A word as it is written. -/
def Word.display (w : Word) : String :=
  match w.quote with
  | some q => quoted q w.text
  | none => w.text

/-- The name in queries: bare words are read in lower case. -/
def Word.name (w : Word) : String :=
  match w.quote with
  | some _ => w.text
  | none => Text.toLower w.text

/-- Words with dots between them. -/
def displayDotted (ws : List Word) : String := ".".intercalate (ws.map Word.display)

/-- A token as it is written. -/
def Token.display : Token → String
  | .word w => w.display
  | .number text long => if long then text ++ "L" else text
  | .string s => quoted '\'' s
  | .otherLiteral source => source
  | .symbol s => s

/-- Tokens with spaces between them. -/
def displayTokens (ts : List Token) : String := " ".intercalate (ts.map Token.display)

end PrivateSql.Sql
