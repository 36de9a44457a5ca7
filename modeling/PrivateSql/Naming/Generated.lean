import PrivateSql.Naming.SipHash
import PrivateSql.Tree.Encoding
/-!
# Generated names

The columns that a rewritten query adds are named after their content: a word that says what they
are, and six characters of the hash of the content. Equal contents get equal names, in any query.

* `generatedName` — the name for some bytes;
* `generatedNameOfText`, `generatedNameOfTree` — the name for a text, for a tree.
-/

namespace PrivateSql

/-- The characters of the hashed part of a name. -/
def nameAlphabet : List Char := "0123456789abcdefghijklmnopqrstuvwxyz_".toList

/-- The lowest `k` digits of a number in base 37, the lowest first. -/
def base37 : Nat → Nat → List Char
  | 0, _ => []
  | k + 1, n => nameAlphabet.getD (n % 37) '0' :: base37 k (n / 37)

/-- The name with this first word for some bytes. -/
def generatedName (word : String) (bytes : List UInt8) : String :=
  word ++ "_" ++ String.ofList (base37 6 (sipHash bytes).toNat)

/-- The name for a text. -/
def generatedNameOfText (word text : String) : String := generatedName word (textBytes text)

/-- The name for a tree. -/
def generatedNameOfTree (word : String) (t : Tree) : String := generatedName word t.bytes

end PrivateSql
