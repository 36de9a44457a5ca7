import PrivateSql.Tree.Basic
/-!
# The bytes of a tree

A tree is hashed through a row of bytes that says all of it: the code of the kind, whether there is
a text, the text, the number of children, and the children. Numbers take eight bytes, the lowest
first; a text is followed by the byte 255, which no text holds.
-/

namespace PrivateSql

/-- A number as `k` bytes, the lowest first. -/
def littleEndian : Nat → Nat → List UInt8
  | 0, _ => []
  | k + 1, n => UInt8.ofNat (n % 256) :: littleEndian k (n / 256)

/-- A text in UTF-8, closed by the byte 255. -/
def textBytes (s : String) : List UInt8 := s.toUTF8.toList ++ [255]

namespace Tree

mutual
/-- The bytes of a tree. -/
def bytes : Tree → List UInt8
  | .leaf k s => littleEndian 8 k.code ++ littleEndian 8 1 ++ textBytes s ++ littleEndian 8 0
  | .branch k cs =>
    littleEndian 8 k.code ++ littleEndian 8 0 ++ littleEndian 8 cs.length ++ bytesAll cs

/-- The bytes of some trees, one after the other. -/
def bytesAll : List Tree → List UInt8
  | [] => []
  | c :: cs => bytes c ++ bytesAll cs
end

end Tree

end PrivateSql
