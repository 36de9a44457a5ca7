import PrivateSql.Json.Quoted
/-!
# JSON documents over several lines

Each item of a list and each member of an object has a line of its own, two spaces further in than
the brackets around it.

* `Block.pretty` — the text of a document.
-/

namespace PrivateSql.Json

/-- A document to be written, its scalars as their texts. -/
inductive Block where
  | scalar (text : String)
  | list (items : List Block)
  | object (members : List (String × Block))

namespace Block

/-- A new line at a depth. -/
def newline (depth : Nat) : String := "\n" ++ String.ofList (List.replicate (2 * depth) ' ')

/-- Lines between two brackets; no lines are written as the brackets alone. -/
def enclose (opening closing : String) (depth : Nat) (lines : List String) : String :=
  if lines.isEmpty then opening ++ closing
  else
    opening ++ ",".intercalate (lines.map (newline (depth + 1) ++ ·)) ++ newline depth ++ closing

mutual
/-- The text of a document whose brackets stand at a depth. -/
def prettyAt (depth : Nat) : Block → String
  | .scalar text => text
  | .list items => enclose "[" "]" depth (prettyItems (depth + 1) items)
  | .object members => enclose "\x7b" "\x7d" depth (prettyMembers (depth + 1) members)

def prettyItems (depth : Nat) : List Block → List String
  | [] => []
  | b :: bs => prettyAt depth b :: prettyItems depth bs

def prettyMembers (depth : Nat) : List (String × Block) → List String
  | [] => []
  | (name, b) :: bs => (quote name ++ ": " ++ prettyAt depth b) :: prettyMembers depth bs
end

/-- The text of a document. -/
def pretty (b : Block) : String := prettyAt 0 b

end Block

end PrivateSql.Json
