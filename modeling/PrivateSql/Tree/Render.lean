import PrivateSql.Tree.Basic
/-!
# The text of a tree

A tree is written as the texts of its children with spaces between them, or commas in a sequence.
Children without text are passed over, and no space stands inside parentheses, before a comma or
between the name of a function and its arguments.
-/

namespace PrivateSql.Tree

/-- What stands between the children of a node. -/
def separator : Kind → String
  | .sequence => ", "
  | _ => " "

/-- Is a piece written without a space after the piece before it, that of the node `previous`? -/
def isTight (previous : Tree) (piece : String) : Bool :=
  previous.text? == some "(" || piece == ")" || piece == ","
    || (piece == "(" && decide (previous.kind = .funcName))

/-- One more child is written after the text so far. -/
def joinPiece (kind : Kind) (written : String) (previous : Option Tree) (piece : String) : String :=
  match previous with
  | none => written ++ piece
  | some p =>
    if separator kind == " " && isTight p piece then written ++ piece
    else written ++ separator kind ++ piece

mutual
/-- The text of a tree. -/
def render : Tree → String
  | .leaf _ s => s
  | .branch k cs => renderFrom k "" none cs

/-- The text of the children that are left, after the text so far and the child it ends with. -/
def renderFrom (kind : Kind) (written : String) (previous : Option Tree) : List Tree → String
  | [] => written
  | c :: cs =>
    let piece := render c
    if piece.isEmpty then renderFrom kind written previous cs
    else renderFrom kind (joinPiece kind written previous piece) (some c) cs
end

end PrivateSql.Tree
