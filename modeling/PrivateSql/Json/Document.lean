import PrivateSql.Json.Numeral
/-!
# JSON documents

A document is read from left to right up to its end or to its first fault. What was read before a
fault is kept, so that whoever takes the document apart meets its faults in the order of the text.

* `Document.read` — the document of a text, and whether the text ends after it;
* `Document.hasFault` — was it left unfinished?
-/

namespace PrivateSql.Json

/-- A document. Members of an object keep their order and may repeat a name. -/
inductive Document where
  | null
  | boolean (b : Bool)
  | number (n : Numeral)
  /-- A text; nothing when it holds half of a pair of codes. -/
  | text (s : Option String)
  | list (items : List Document)
  | object (members : List (Option String × Document))
  /-- The text does not go on as a document here. -/
  | fault
  deriving Inhabited

namespace Document

/-- Is this a blank of a document? -/
def isBlank (c : Char) : Bool := c = ' ' || c = '\n' || c = '\t' || c = '\r'

def skipBlanks (cs : List Char) : List Char := cs.dropWhile isBlank

/-- The value of a hexadecimal digit. -/
def hexValue? (c : Char) : Option Nat :=
  if c.isDigit then some (c.toNat - '0'.toNat)
  else if 'a' ≤ c && c ≤ 'f' then some (c.toNat - 'a'.toNat + 10)
  else if 'A' ≤ c && c ≤ 'F' then some (c.toNat - 'A'.toNat + 10)
  else none

/-- The code written by four hexadecimal digits. -/
def code? (a b c d : Char) : Option Nat := do
  let a ← hexValue? a
  let b ← hexValue? b
  let c ← hexValue? c
  let d ← hexValue? d
  return 16 * (16 * (16 * a + b) + c) + d

/-- The character a letter after a backslash stands for. -/
def escaped? (c : Char) : Option Char :=
  match c with
  | '"' => some '"'
  | '\\' => some '\\'
  | '/' => some '/'
  | 'b' => some '\x08'
  | 'f' => some '\x0c'
  | 'n' => some '\n'
  | 'r' => some '\r'
  | 't' => some '\t'
  | _ => none

/-- The codes of a text up to its closing quote, and what follows it. -/
def scanCodes : List Char → Option (List Nat × List Char)
  | [] => none
  | '"' :: rest => some ([], rest)
  | '\\' :: 'u' :: a :: b :: c :: d :: rest => do
    let code ← code? a b c d
    let (codes, rest) ← scanCodes rest
    return (code :: codes, rest)
  | '\\' :: c :: rest => do
    let c ← escaped? c
    let (codes, rest) ← scanCodes rest
    return (c.toNat :: codes, rest)
  | c :: rest =>
    if c.toNat < 0x20 then none
    else do
      let (codes, rest) ← scanCodes rest
      return (c.toNat :: codes, rest)

/-- The characters of some codes: the two halves of a pair make one. -/
def combine : List Nat → Option (List Char)
  | [] => some []
  | [c] => if 0xD800 ≤ c ∧ c < 0xE000 then none else some [Char.ofNat c]
  | c :: d :: rest =>
    if 0xD800 ≤ c ∧ c < 0xDC00 then
      if 0xDC00 ≤ d ∧ d < 0xE000 then
        (combine rest).map (Char.ofNat (0x10000 + (c - 0xD800) * 0x400 + (d - 0xDC00)) :: ·)
      else none
    else if 0xDC00 ≤ c ∧ c < 0xE000 then none
    else (combine (d :: rest)).map (Char.ofNat c :: ·)

/-- The text whose opening quote was read, and what follows. -/
def scanText (cs : List Char) : Option (Option String × List Char) := do
  let (codes, rest) ← scanCodes cs
  return ((combine codes).map String.ofList, rest)

/-- A piece of a document with what follows it; nothing follows a fault. -/
abbrev Scanned (α : Type) := α × Option (List Char)

/-- What has to stand here. -/
def expectWord (word : List Char) (d : Document) (cs : List Char) : Scanned Document :=
  if word.isPrefixOf cs then (d, some (cs.drop word.length)) else (.fault, none)

mutual
/-- The document at the start of a text no longer than the fuel. -/
def scan : Nat → List Char → Scanned Document
  | 0, _ => (.fault, none)
  | fuel + 1, cs =>
    match skipBlanks cs with
    | '"' :: rest =>
      match scanText rest with
      | some (s, rest) => (.text s, some rest)
      | none => (.fault, none)
    | '[' :: rest =>
      match skipBlanks rest with
      | ']' :: rest => (.list [], some rest)
      | rest =>
        let (items, rest) := scanItems fuel rest
        (.list items, rest)
    | '\x7b' :: rest =>
      match skipBlanks rest with
      | '\x7d' :: rest => (.object [], some rest)
      | rest =>
        let (members, rest) := scanMembers fuel rest
        (.object members, rest)
    | 'n' :: rest => expectWord "ull".toList .null rest
    | 't' :: rest => expectWord "rue".toList (.boolean true) rest
    | 'f' :: rest => expectWord "alse".toList (.boolean false) rest
    | rest =>
      match Numeral.scan rest with
      | some (n, rest) => (.number n, some rest)
      | none => (.fault, none)

/-- The items of a list up to its end. -/
def scanItems : Nat → List Char → Scanned (List Document)
  | 0, _ => ([.fault], none)
  | fuel + 1, cs =>
    match scan fuel cs with
    | (d, none) => ([d], none)
    | (d, some rest) =>
      match skipBlanks rest with
      | ']' :: rest => ([d], some rest)
      | ',' :: rest =>
        let (items, rest) := scanItems fuel rest
        (d :: items, rest)
      | _ => ([d, .fault], none)

/-- The members of an object up to its end. -/
def scanMembers : Nat → List Char → Scanned (List (Option String × Document))
  | 0, _ => ([(none, .fault)], none)
  | fuel + 1, cs =>
    match skipBlanks cs with
    | '"' :: rest =>
      match scanText rest with
      | none => ([(none, .fault)], none)
      | some (name, rest) =>
        match skipBlanks rest with
        | ':' :: rest =>
          match scan fuel rest with
          | (d, none) => ([(name, d)], none)
          | (d, some rest) =>
            match skipBlanks rest with
            | '\x7d' :: rest => ([(name, d)], some rest)
            | ',' :: rest =>
              let (members, rest) := scanMembers fuel rest
              ((name, d) :: members, rest)
            | _ => ([(name, d), (none, .fault)], none)
        | _ => ([(name, .fault)], none)
    | _ => ([(none, .fault)], none)
end

/-- The document of a text, and whether nothing else stands in the text. -/
def read (s : String) : Document × Bool :=
  let cs := s.toList
  match scan (2 * cs.length + 2) cs with
  | (d, some rest) => (d, (skipBlanks rest).isEmpty)
  | (d, none) => (d, false)

mutual
/-- Was the document left unfinished? -/
def hasFault : Document → Bool
  | .list items => anyFault items
  | .object members => anyMemberFault members
  | .fault => true
  | _ => false

def anyFault : List Document → Bool
  | [] => false
  | d :: ds => hasFault d || anyFault ds

def anyMemberFault : List (Option String × Document) → Bool
  | [] => false
  | (_, d) :: ds => hasFault d || anyMemberFault ds
end

end Document

end PrivateSql.Json
