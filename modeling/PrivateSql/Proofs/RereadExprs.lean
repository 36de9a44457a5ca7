import PrivateSql.Proofs.RereadTerms
/-!
# Expressions read from their texts

The term that is read from the tokens of an expression is written for the expression, so the text of a faithful
expression is read as that expression.

* `Expr.IsFaithful.toExpr_term` — the term is written for the expression;
* `Expr.IsFaithful.parse_of_spells`, `Expr.IsFaithful.parse_display` — the text is read as the expression.
-/

namespace PrivateSql

open Sql

variable {N : Type} [Number N]

theorem Literal.toExpr_term {l : Literal N} (h : l.IsWritten) : l.term.toExpr = .ok (.literal l) := by
  rcases h with hnumber | ⟨v, hv, rfl⟩
  · have hnumeric := numberLiteral_isNumeric hnumber
    have hterm : l.term = .number l.text false := by
      rw [Literal.term]
      split <;> simp_all [Value.number?]
    rw [hterm, Term.toExpr, hnumber]
    rfl
  · cases v with
    | integer i => cases hv
    | float x => cases hv
    | _ => rfl

/-- The parts of an identifier with dots between them are its text. -/
theorem Identifier.intercalate_parts (id : Identifier) : ".".intercalate id.parts = id.text := by
  have hjoin (first : List Char) (others : List (List Char)) :
      ['.'].intercalate (first :: others) = first ++ others.flatMap ('.' :: ·) := by
    induction others generalizing first with
    | nil => simp
    | cons second others ih => simp [List.intercalate_cons_cons, ih]
  have hparts : id.parts.map String.toList =
      (splitDots id.text.toList).1 :: (splitDots id.text.toList).2 := by
    simp [parts, Function.comp_def]
  rw [← String.toList_inj, String.toList_intercalate, hparts]
  exact (hjoin _ _).trans (Identifier.append_splitDots id.text.toList)

omit [Number N] in
/-- The words of a bare identifier name it. -/
theorem Identifier.identifierOf_bareWords {id : Identifier} (h : id.isBare = true) :
    identifierOf (Grammar.bareWords id.parts) = id := by
  have hnames : (Grammar.bareWords id.parts).map Word.name = id.parts := by
    rw [Grammar.bareWords, List.map_map]
    refine List.map_congr_left (g := fun part => part) (fun part hpart => ?_) |>.trans (List.map_id _)
    have hboth := List.all_eq_true.mp h part hpart
    exact eq_of_beq (Bool.and_eq_true_iff.mp hboth).2
  rw [identifierOf, hnames, intercalate_parts]

omit [Number N] in
theorem callExpr_scalar {name source : String} (h : name ∈ ["ABS", "SQRT", "ROUND"])
    (args : List (Expr N)) : callExpr (Text.toUpper name) source (args.map some) = .ok (.call name args) := by
  have hknown : ∀ name ∈ ["ABS", "SQRT", "ROUND"], Text.toUpper name = name ∧
      (AggregateFunction.ofName? name).isNone = true ∧ name ∈ scalarFunctions := by decide
  obtain ⟨hname, hnone, hscalar⟩ := hknown name h
  have hargs : (args.map some).mapM id = some args := by
    induction args with
    | nil => rfl
    | cons a args ih => simp [ih]
  rw [hname, callExpr.eq_def, Option.isNone_iff_eq_none.mp hnone]
  simp only [hscalar, if_true, hargs, Expr.ofCall, hname]

omit [Number N] in
theorem callExpr_aggregate (f : AggregateFunction) (source : String) (e : Expr N) :
    callExpr (Text.toUpper f.name) source [some e] = .ok (.aggregate f e) := by
  have hname : AggregateFunction.ofName? (Text.toUpper f.name) = some f := by
    cases f <;> decide
  rw [callExpr.eq_def, hname]
  cases f <;> rfl

theorem toArguments_terms {args : List (Expr N)} (h : ∀ a ∈ args, a.term.toExpr = .ok a) :
    Term.toArguments (Expr.termArguments args) = .ok (args.map some) := by
  induction args with
  | nil => rfl
  | cons a args ih =>
      have htail := ih fun b hb => h b (List.mem_cons_of_mem _ hb)
      rw [Expr.termArguments, Term.toArguments, Term.toArgument, h a List.mem_cons_self, htail]
      rfl

/-- A call that says nothing beside its arguments. -/
theorem toExpr_call {name : String} {arguments : List (Argument Term)} {args : List (Option (Expr N))}
    {e : Expr N} (hargs : Term.toArguments arguments = .ok args)
    (hcall : ∀ source, callExpr (Text.toUpper name) source args = .ok e) :
    (Term.call [⟨name, none⟩] none arguments .none).toExpr = .ok e := by
  have hname : displayDotted [⟨name, none⟩] = name := by simp [displayDotted, Word.display]
  rw [Term.toExpr, hargs, hname]
  simp [CallClauses.none, hcall]

/-- **Terms are written for their expression.** -/
theorem Expr.IsFaithful.toExpr_term {e : Expr N} (h : e.IsFaithful) : e.term.toExpr = .ok e := by
  induction h with
  | literal written shown => exact Literal.toExpr_term written
  | @column id bare named =>
      rw [Expr.term, Term.toExpr]
      exact congrArg _ (congrArg Expr.column (Identifier.identifierOf_bareWords bare))
  | @unary op e known opens operand ih =>
      have hop : op ≠ "+" := by rcases known with rfl | rfl <;> decide
      rw [Expr.term, Term.toExpr, ih, ok_bind, if_neg hop]
      rfl
  | binary known closes opens named left right ihl ihr =>
      rw [Expr.term, Term.toExpr, ihl, ihr]
      simp [known]
  | nested named inner ih =>
      rw [Expr.term, Term.toExpr, ih]
      rfl
  | isNull closes operand ih =>
      rw [Expr.term, Term.toExpr, ih]
      rfl
  | @call name args known named arguments ih =>
      rw [Expr.term]
      exact toExpr_call (toArguments_terms ih) fun source => callExpr_scalar known args
  | @aggregate f e named argument ih =>
      have hargs : Term.toArguments [.term e.term] = .ok [some e] := by
        rw [Term.toArguments, Term.toArgument, ih]
        rfl
      rw [Expr.term]
      exact toExpr_call hargs fun source => callExpr_aggregate f source e
  | count =>
      have hcount : AggregateFunction.ofName? (Text.toUpper "COUNT") = some .count := by decide
      have hargs : Term.toArguments [.star] = .ok [(none : Option (Expr N))] := rfl
      rw [Expr.term]
      refine toExpr_call hargs fun source => ?_
      rw [callExpr.eq_def, show AggregateFunction.count.name = "COUNT" from rfl, hcount]

/-- **Faithful trees are read from their tokens**, whatever text spells these. -/
theorem Expr.IsFaithful.parse_of_spells {e : Expr N} (h : e.IsFaithful)
    (hlevels : e.nesting < Grammar.levels) {s : String} (hs : Spells s e.tokens) :
    Expr.parse s = .ok e := by
  have hscan := scan_eq hs.scans
  have hread : (Grammar.nested Grammar.levels).term e.tokens = .ok (e.term, []) := by
    have hterm := Grammar.readsBelow_nested Grammar.levels e h hlevels [] ⟨Grammar.follows_nil, rfl⟩
    rwa [List.append_nil] at hterm
  rw [Expr.parse, readText, hscan]
  simp only [hread, ok_bind]
  exact h.toExpr_term

/-- **Texts of faithful trees are read as the trees.** -/
theorem Expr.IsFaithful.parse_display {e : Expr N} (h : e.IsFaithful)
    (hlevels : e.nesting < Grammar.levels) : Expr.parse e.display = .ok e :=
  h.parse_of_spells hlevels h.spells

end PrivateSql
