import PrivateSql.Sql.Token
import PrivateSql.Text.Alphabetic
import PrivateSql.Text.Blank
import PrivateSql.Query.Error
/-!
# From characters to tokens

A query text is cut into tokens from left to right, each the longest that stands there. Blanks and
comments separate tokens: a comment runs from `--` to the end of its line, or from `/*` to the
`*/` that closes it, with comments inside counted.

* `scanToken` — the token at the start of a text, and the text that follows;
* `Token.scan` — all the tokens.
-/

namespace PrivateSql.Sql

/-- Does a word start with this character? -/
def isWordStart (c : Char) : Bool := c = '_' || c = '#' || c = '@' || Text.isAlphabetic c

/-- Does a word go on with this character? -/
def isWordPart (c : Char) : Bool := c = '$' || c.isDigit || isWordStart c

/-- The text up to the closing quotation mark, and what follows it. Two marks are one mark of the
text. -/
def scanQuoted (q : Char) : List Char → Option (List Char × List Char)
  | [] => none
  | [c] => if c = q then some ([], []) else none
  | c :: d :: rest =>
    if c = q then
      if d = q then (scanQuoted q rest).map fun (cs, rest) => (c :: cs, rest)
      else some ([], d :: rest)
    else (scanQuoted q (d :: rest)).map fun (cs, rest) => (c :: cs, rest)

/-- As `scanQuoted`, in a text where a backslash takes its next character along. -/
def scanEscaped (q : Char) : List Char → Option (List Char × List Char)
  | [] => none
  | [c] => if c = q then some ([], []) else none
  | c :: d :: rest =>
    if c = '\\' then (scanEscaped q rest).map fun (cs, rest) => (c :: d :: cs, rest)
    else if c = q then
      if d = q then (scanEscaped q rest).map fun (cs, rest) => (c :: cs, rest)
      else some ([], d :: rest)
    else (scanEscaped q (d :: rest)).map fun (cs, rest) => (c :: cs, rest)

/-- What follows a comment in which `open` more comments are open, after the character `last`. -/
def skipComment (more : Nat) (last : Char) : List Char → Option (List Char)
  | [] => none
  | c :: rest =>
    if last = '/' ∧ c = '*' then skipComment (more + 1) c rest
    else if last = '*' ∧ c = '/' then
      match more with
      | 0 => some rest
      | more + 1 => skipComment more c rest
    else skipComment more c rest

/-- What follows the line. -/
def skipLine (cs : List Char) : List Char := (cs.dropWhile (· ≠ '\n')).drop 1

/-- Is the character a hexadecimal digit? -/
def isHexDigit (c : Char) : Bool :=
  c.isDigit || ('a' ≤ c && c ≤ 'f') || ('A' ≤ c && c ≤ 'F')

/-- The exponent of a number as it is written, empty without a digit in it, and what follows. -/
def scanExponentText (cs : List Char) : List Char × List Char :=
  match cs with
  | c :: rest =>
    if c = 'e' ∨ c = 'E' then
      let (sign, rest) := match rest with
        | '-' :: r => (['-'], r)
        | '+' :: r => (['+'], r)
        | r => ([], r)
      let (ds, rest) := rest.span (·.isDigit)
      if ds.isEmpty then ([], cs) else (c :: (sign ++ ds), rest)
    else ([], cs)
  | [] => ([], cs)

/-- The number at the start of a text: digits with an optional point and an optional exponent. A
point without digits is a sign of its own. -/
def scanNumber (cs : List Char) : Token × List Char :=
  let (whole, rest) := cs.span (·.isDigit)
  match whole, rest with
  | ['0'], 'x' :: rest =>
    let (ds, rest) := rest.span isHexDigit
    (.otherLiteral (String.ofList ('0' :: 'x' :: ds)), rest)
  | _, _ =>
    let (point, rest) := match rest with
      | '.' :: r => (['.'], r)
      | r => ([], r)
    let (fraction, rest) := rest.span (·.isDigit)
    if whole.isEmpty && fraction.isEmpty then (.symbol ".", rest)
    else
      let (exponent, rest) := scanExponentText rest
      let text := String.ofList (whole ++ point ++ fraction ++ exponent)
      match rest with
      | 'L' :: rest => (.number text true, rest)
      | _ => (.number text false, rest)

/-- The signs of more than one character, a longer one before those it begins with, and the sign
that each stands for: some have two spellings. -/
def longSigns : List (String × String) :=
  [("==", "="), ("!=", "<>")] ++
    ["<=>", "<=", "<>", "<<", "<@", ">=", ">>", "=>", "||/", "||", "|/", "//", "->>", "->", "&&",
      "^@", "::", "!~~*", "!~~", "!~*", "!~", "!!", "~~*", "~~", "~*"].map fun s => (s, s)

/-- What follows these characters, when a text begins with them. -/
def dropStart : List Char → List Char → Option (List Char)
  | [], cs => some cs
  | _ :: _, [] => none
  | s :: start, c :: cs => if s = c then dropStart start cs else none

/-- The sign at the start of a text. -/
def scanSymbol (c : Char) (rest : List Char) : Token × List Char :=
  let long := longSigns.findSome? fun (spelling, sign) =>
    (dropStart spelling.toList (c :: rest)).map fun after => (Token.symbol sign, after)
  long.getD (.symbol (String.singleton c), rest)

/-- A word whose first characters are given, and what follows it. -/
def scanWord (start rest : List Char) : Token × List Char :=
  let (word, rest) := rest.span isWordPart
  (.word ⟨String.ofList (start ++ word), none⟩, rest)

/-- What begins with a hash or an at sign: a sign before a space or with the signs it is written
with, else a word, which takes the next character along whatever it is. -/
def scanMark (c : Char) (rest : List Char) : Token × List Char :=
  match c, rest with
  | '#', '-' :: rest => (.symbol "#-", rest)
  | '#', '>' :: '>' :: rest => (.symbol "#>>", rest)
  | '#', '>' :: rest => (.symbol "#>", rest)
  | '@', '>' :: rest => (.symbol "@>", rest)
  | '@', '?' :: rest => (.symbol "@?", rest)
  | '@', '@' :: ' ' :: rest => (.symbol "@@", rest)
  | '@', '@' :: d :: rest => scanWord [c, '@', d] rest
  | '@', ['@'] => (.symbol "@@", [])
  | _, ' ' :: rest => (.symbol (String.singleton c), rest)
  | _, d :: rest => scanWord [c, d] rest
  | _, [] => (.symbol (String.singleton c), [])

/-- A constant after a letter that says its kind. -/
def scanMarked (mark q : Char) (scanned : Option (List Char × List Char)) :
    Except ParseFailure (Option Token × List Char) :=
  match scanned with
  | some (cs, rest) => .ok (some (.otherLiteral (String.ofList (mark :: q :: (cs ++ [q])))), rest)
  | none => .error (.unterminated "text")

/-- The token at the start of a text, if no blank or comment stands there, and what follows. -/
def scanToken (c : Char) (rest : List Char) : Except ParseFailure (Option Token × List Char) :=
  let found (t : Token × List Char) := .ok (some t.1, t.2)
  if Text.isBlank c then .ok (none, rest)
  else
    match c, rest with
    | '-', '-' :: rest => .ok (none, skipLine rest)
    | '/', '*' :: rest =>
      match skipComment 0 ' ' rest with
      | some rest => .ok (none, rest)
      | none => .error (.unterminated "comment")
    | '\'', _ =>
      match scanQuoted '\'' rest with
      | some (cs, rest) => .ok (some (.string (String.ofList cs)), rest)
      | none => .error (.unterminated "text")
    | _, q :: after =>
      if c = '"' ∨ c = '`' then
        match scanQuoted c rest with
        | some (cs, rest) => .ok (some (.word ⟨String.ofList cs, some c⟩), rest)
        | none => .error (.unterminated "word")
      else if q = '\'' ∧ c ∈ ['b', 'B', 'r', 'R'] then scanMarked c q (scanQuoted q after)
      else if q = '"' ∧ c ∈ ['b', 'B', 'r', 'R'] then scanMarked c q (scanQuoted q after)
      else if q = '\'' ∧ c ∈ ['n', 'N', 'e', 'E', 'x', 'X'] then
        scanMarked c q (scanEscaped q after)
      else if c.isDigit ∨ c = '.' then found (scanNumber (c :: rest))
      else if c = '#' ∨ c = '@' then found (scanMark c rest)
      else if isWordStart c then found (scanWord [c] rest)
      else found (scanSymbol c rest)
    | _, [] =>
      if c = '"' ∨ c = '`' then .error (.unterminated "word")
      else if c.isDigit ∨ c = '.' then found (scanNumber [c])
      else if c = '#' ∨ c = '@' then found (scanMark c [])
      else if isWordStart c then found (scanWord [c] [])
      else found (scanSymbol c [])

/-- The tokens of a text no longer than the fuel. -/
def scanFrom : Nat → List Char → Except ParseFailure (List Token)
  | _, [] => .ok []
  | 0, _ :: _ => .ok []
  | fuel + 1, c :: rest => do
    let (token, rest) ← scanToken c rest
    let tokens ← scanFrom fuel rest
    return token.toList ++ tokens

/-- The tokens of a text. -/
def Token.scan (s : String) : Except ParseFailure (List Token) :=
  let cs := s.toList
  scanFrom cs.length cs

end PrivateSql.Sql
