import PrivateSql.Proofs.ReadQueries
import PrivateSql.Proofs.RereadConstants
import PrivateSql.Proofs.TreeBytes
/-!
# What equal trees have in common

A tree shows everything of an expression but the values of its constants, and of these it shows the texts.  So
expressions with the same tree have the same values when no text stands for two values.  Any text may be
given to a constant, but the constants that arise are read from a text or made of a value, and there
every text stands for one value: a constant that is made of a value is read back as it, and
the least integer, which is not, has a text that nothing else is written with.

* `Literal.Arises` — the constants that are read from texts and those that are made of finite values;
* `Literal.Arises.eq_of_text` — they are told by their texts;
* `same_bytes_evaluate` — equal trees are those with the same bytes, and expressions with equal trees
  have the same values.
-/

namespace PrivateSql

open Sql

/-! ## The constants that are read -/

/-- The constants in the expressions of a query, and its limit. -/
def Query.literals {N : Type} (q : Query N) : List (Literal N) :=
  q.exprs.flatMap Expr.constants ++ q.limit.toList

/-- **What is read is written**, in every clause of a query. -/
theorem Query.literals_isWritten {N : Type} [Number N] {text : String} {q : Query N}
    (h : Query.parse text = .ok q) : ∀ l ∈ q.literals, l.IsWritten := by
  have hwritten := Query.written_of_parse h
  obtain ⟨source, -, h⟩ := bind_eq_ok.mp h
  obtain ⟨block, clauses⟩ := writtenFor_of_toQuery h
  have hexprs : ∀ e ∈ q.exprs, e.Written := by
    intro e he
    simp only [Query.exprs, List.mem_append, Option.mem_toList] at he
    rcases he with (((hselect | hselection) | hkey) | hhaving) | horder
    · exact hwritten.outputs e (by simp [Query.outputExprs, List.mem_map.mp hselect])
    · obtain ⟨t, -, hread⟩ := exists_of_mem_mapM clauses.selection hselection
      exact toExpr_written t hread
    · exact hwritten.keys e hkey
    · exact hwritten.outputs e (by simp [Query.outputExprs, Option.mem_def.mp hhaving])
    · exact hwritten.outputs e (by simp [Query.outputExprs, List.mem_map.mp horder])
  intro l hl
  rcases List.mem_append.mp hl with hmem | hlimit
  · obtain ⟨e, he, hconstant⟩ := List.mem_flatMap.mp hmem
    exact hexprs e he l hconstant
  · obtain ⟨t, -, hread⟩ := exists_of_mem_mapM clauses.limit (Option.mem_toList.mp hlimit)
    exact toExpr_written t (limitOf_eq_ok hread).1 l (by simp)

/-! ## The constants that arise -/

/-- The constants that are read with an expression or with a query, and those that are made of a finite value. -/
inductive Literal.Arises : Literal Binary64 → Prop where
  | expression {text : String} {e : Expr Binary64} {l : Literal Binary64}
      (read : Expr.parse text = .ok e) (mem : l ∈ e.constants) : Arises l
  | query {text : String} {q : Query Binary64} {l : Literal Binary64}
      (read : Query.parse text = .ok q) (mem : l ∈ q.literals) : Arises l
  | value {v : Value Binary64} (finite : v.isWritable = true) : Arises (.ofValue v)

/-- Nothing is read from no text. -/
theorem parse_empty : (Expr.parse (N := Binary64) "").toOption.isNone = true := by decide +kernel

theorem Value.sql_ne_empty {v : Value Binary64} (hv : v.isWritable = true) : v.sql ≠ "" := by
  obtain ⟨e, hread, -⟩ := sql_reread hv
  intro hempty
  have hnone := parse_empty
  rw [hempty] at hread
  rw [hread] at hnone
  cases hnone

/-- The text of the least integer is read as a number, which has a text of its own. -/
theorem Value.sql_least_ne : (.float ⟨0xC3E0000000000000⟩ : Value Binary64).sql ≠
    (.integer Int64.minValue : Value Binary64).sql := by
  decide +kernel

/-- **Finite values are told by their texts**, for they are read back from them. -/
theorem Value.sql_injOn {v v' : Value Binary64} (hv : v.isWritable = true) (hv' : v'.isWritable = true)
    (h : v.sql = v'.sql) : v = v' := by
  obtain ⟨e, hread, hvalue⟩ := sql_reread hv
  obtain ⟨e', hread', hvalue'⟩ := sql_reread hv'
  rw [h, hread', Except.ok.injEq] at hread
  subst hread
  have hreread := (hvalue PathMap.empty).symm.trans (hvalue' PathMap.empty)
  rw [Except.ok.injEq] at hreread
  split at hreread
  · rename_i hleast
    split at hreread
    · rename_i hleast'
      rw [hleast, hleast']
    · rw [hleast, ← hreread] at h
      exact absurd h.symm sql_least_ne
  · split at hreread
    · rename_i hleast'
      rw [hleast', hreread] at h
      exact absurd h sql_least_ne
    · exact hreread

namespace Literal

/-- A constant that is read from the text of a finite value is the constant of this value. -/
theorem IsWritten.eq_ofValue {l : Literal Binary64} {v : Value Binary64} (h : l.IsWritten)
    (hv : v.isWritable = true) (htext : l.text = v.sql) : l = .ofValue v := by
  obtain ⟨e, hread, hvalue⟩ := Value.sql_reread hv
  have hself := parse_literal h (htext ▸ Value.sql_ne_empty hv)
  rw [htext, hread, Except.ok.injEq] at hself
  subst hself
  have hreread := hvalue PathMap.empty
  rw [Expr.evaluate, Except.ok.injEq] at hreread
  split at hreread
  · rename_i hleast
    subst hleast
    rcases h with hnumber | ⟨w, hw, rfl⟩
    · obtain ⟨c, cs, hcs, hminus⟩ : ∃ c cs, l.text.toList = c :: cs ∧ c = '-' :=
        ⟨'-', "9223372036854775808".toList, by rw [htext, Value.sql_least.1]; decide, rfl⟩
      exact absurd hnumber (numberLiteral_eq_error hcs (by rw [hminus]; decide) (by rw [hminus]; decide) l)
    · have hfloat : w = .float ⟨0xC3E0000000000000⟩ := hreread
      rw [hfloat] at hw
      cases hw
  · obtain ⟨value, text⟩ := l
    obtain rfl : text = v.sql := htext
    obtain rfl : value = v := hreread
    rfl

namespace Arises

variable {l l' : Literal Binary64}

/-- A constant that arises is as it is written, or it is made of a finite value. -/
theorem isWritten_or (h : l.Arises) : l.IsWritten ∨ ∃ v, v.isWritable = true ∧ l = .ofValue v := by
  cases h with
  | expression read mem =>
      obtain ⟨t, -, hread⟩ := bind_eq_ok.mp read
      exact .inl (toExpr_written t hread l mem)
  | query read mem => exact .inl (Query.literals_isWritten read l mem)
  | value finite => exact .inr ⟨_, finite, rfl⟩

/-- **The constants that arise are told by their texts.** -/
theorem eq_of_text (h : l.Arises) (h' : l'.Arises) (htext : l.text = l'.text) : l = l' := by
  rcases h.isWritten_or with hwritten | ⟨v, hv, rfl⟩
  · rcases h'.isWritten_or with hwritten' | ⟨v', hv', rfl⟩
    · exact Literal.eq_of_text hwritten hwritten' htext
    · exact hwritten.eq_ofValue hv' htext
  · rcases h'.isWritten_or with hwritten' | ⟨v', hv', rfl⟩
    · exact (hwritten'.eq_ofValue hv htext.symm).symm
    · rw [Value.sql_injOn hv hv' htext]

end Arises

end Literal

/-! ## Equal trees -/

/-- **Equal trees have the same bytes, and the same values.**  Two trees, whatever they are the trees of, are the
same just when their bytes are, as long as the numbers of children fit the eight bytes they are written with.
Two expressions with the same tree have the same value, or the same error, whatever the columns are,
when their constants are read from texts or made of finite values. -/
theorem same_bytes_evaluate :
    (∀ t u : Tree, t.fitsBytes = true → u.fitsBytes = true → (t.same u = true ↔ t.bytes = u.bytes)) ∧
    ∀ e e' : Expr Binary64, (∀ l ∈ e.constants, l.Arises) → (∀ l ∈ e'.constants, l.Arises) →
      e.same e' = true → ∀ b, e.evaluate b = e'.evaluate b := by
  refine ⟨fun t u ht hu => Tree.same_iff_bytes ht hu, fun e e' he he' hsame b => ?_⟩
  have hequal : e = e' :=
    Expr.tree_injective (fun _ _ => Literal.Arises.eq_of_text) he he' (Expr.same_iff.mp hsame)
  rw [hequal]

/-- A sum that is read from a text and one that is built, with a constant made of a value. -/
theorem same_bytes_evaluate_sum :
    ∃ e : Expr Binary64, Expr.parse "abs(x)  +  1.5" = .ok e ∧
      e.tree.bytes = (Expr.tree (.binary (.call "ABS" [.ofColumn "x"]) "+"
        (.ofValue (.float ⟨0x3FF8000000000000⟩ : Value Binary64)))).bytes ∧
      ∀ b, e.evaluate b = Expr.evaluate b (.binary (.call "ABS" [.ofColumn "x"]) "+"
        (.ofValue (.float ⟨0x3FF8000000000000⟩))) := by
  have hread : ((Expr.parse (N := Binary64) "abs(x)  +  1.5").toOption.map fun e =>
      (e.same (.binary (.call "ABS" [.ofColumn "x"]) "+" (.ofValue (.float ⟨0x3FF8000000000000⟩))),
        e.tree.fitsBytes)) = some (true, true) := by
    decide +kernel
  obtain ⟨e, he, hsame⟩ := Option.map_eq_some_iff.mp hread
  obtain ⟨hequal, hfits⟩ := Prod.mk.inj hsame
  have hparse := toOption_eq_some.mp he
  have hbuilt : ∀ l ∈ (Expr.binary (.call "ABS" [.ofColumn "x"]) "+"
      (.ofValue (.float ⟨0x3FF8000000000000⟩ : Value Binary64))).constants, l.Arises := by
    intro l hl
    obtain rfl := List.mem_singleton.mp hl
    exact .value rfl
  exact ⟨e, hparse, (same_bytes_evaluate.1 e.tree _ hfits (by decide +kernel)).mp hequal,
    same_bytes_evaluate.2 e _ (fun l hl => .expression hparse hl) hbuilt hequal⟩

end PrivateSql
