import PrivateSql.Execution.Basic
import PrivateSql.Proofs.Replacement
import PrivateSql.Proofs.Fallible
import PrivateSql.Proofs.ExecutionParts
/-!
# How evaluation fails

Once the aggregates of an expression are replaced, only its operators and its columns can fail: an
operator on operands that it does not fit, or with a result that does not fit, a column without value.
The errors are followed from the operators up to the groups of a query; which failures of columns are
allowed is left open.

* `QueryError.IsInvalid`, `QueryError.IsOperational` — the errors of operators, those of a division
  by zero apart and not;
* `Evaluable`, `evaluate_failsOnly` — expressions fail as operators and columns do;
* `cell_failsOnly`, `filterRows_failsOnly`, `groupRows_failsOnly` — the steps of an execution fail as
  invalid operations and columns do.
-/

namespace PrivateSql

variable {N : Type} [Number N]

namespace QueryError

/-- The error of an operator or a function without value on its operands. -/
def IsInvalid : QueryError → Prop
  | .operation (.invalidOperation _ _ _) => True
  | .invalidExpression _ => True
  | _ => False

/-- The error of an operator, or that of a division by zero. -/
def IsOperational : QueryError → Prop
  | .operation _ => True
  | .invalidExpression _ => True
  | _ => False

end QueryError

open QueryError

omit [Number N] in
theorem valueOrInvalid_failsOnly (e : Expr N) (x : Option (Except ValueError (Value N))) :
    FailsOnly IsOperational (valueOrInvalid e x) := by
  rcases x with _ | (error | v)
  · exact failsOnly_error trivial
  · exact failsOnly_error trivial
  · exact failsOnly_ok v

/-- An expression without aggregates whose columns fail, if at all, in an allowed way. -/
def Evaluable (P : QueryError → Prop) (b : Bindings N) (e : Expr N) : Prop :=
  e.Reads fun c => FailsOnly P ((Expr.column c : Expr N).evaluate b)

/-- The aggregates whose argument can be evaluated on a row, up to allowed failures. -/
def Feedable (P : QueryError → Prop) (b : Bindings N) (a : Expr N) : Prop :=
  ∀ f e, a = .aggregate f e → Evaluable P b e

/-- **Expressions fail as operators and columns do.**  An expression without aggregates fails as one of
its columns does, or as an operator. -/
theorem evaluate_failsOnly {P : QueryError → Prop} (hP : ∀ error, IsOperational error → P error)
    {b : Bindings N} {e : Expr N} (h : Evaluable P b e) : FailsOnly P (e.evaluate b) := by
  have hoperator : ∀ (e : Expr N) (x : Option (Except ValueError (Value N))),
      FailsOnly P (valueOrInvalid e x) :=
    fun e x error herror => hP error (valueOrInvalid_failsOnly e x error herror)
  obtain ⟨hnone, hcolumns⟩ := h
  induction e using Expr.induct with
  | literal l => exact failsOnly_ok l.value
  | column id => exact hcolumns id (by simp)
  | unary op e ih => exact (ih hnone hcolumns).bind fun v _ => hoperator _ _
  | binary l op r ihl ihr =>
      rw [Expr.aggregates_binary, List.append_eq_nil_iff] at hnone
      rw [Expr.columns_binary] at hcolumns
      have hleft := ihl hnone.1 fun c hc => hcolumns c (List.mem_append_left _ hc)
      have hright := ihr hnone.2 fun c hc => hcolumns c (List.mem_append_right _ hc)
      rw [Expr.evaluate]
      apply hleft.bind
      intro x _
      split
      · exact failsOnly_ok _
      · exact hright.bind fun y _ => hoperator _ _
  | nested e ih => exact ih hnone hcolumns
  | isNull e negated ih => exact (ih hnone hcolumns).bind fun v _ => failsOnly_ok _
  | call name args ih =>
      rw [Expr.aggregates_call, List.flatMap_eq_nil_iff] at hnone
      rw [Expr.columns_call] at hcolumns
      rw [Expr.evaluate, Expr.evaluateAll_eq_mapM]
      have hargs : FailsOnly P (args.mapM (Expr.evaluate b)) :=
        failsOnly_mapM fun e he => ih e he (hnone e he)
          fun c hc => hcolumns c (List.mem_flatMap.mpr ⟨e, he, hc⟩)
      apply hargs.bind
      intro vs _
      split
      · exact failsOnly_ok _
      · exact failsOnly_error (hP _ trivial)
  | aggregate f e ih => cases hnone
  | aggregateRows f => cases hnone

/-- A column that has a value does not fail. -/
theorem column_failsOnly {P : QueryError → Prop} {b : Bindings N} {c : Identifier}
    (h : ∃ v, b.find c.parts = .one v) : FailsOnly P ((Expr.column c : Expr N).evaluate b) := by
  obtain ⟨v, hv⟩ := h
  rw [Expr.evaluate, hv]
  exact failsOnly_ok v

/-- A sum of values fails only where two of them cannot be added. -/
theorem add_failsOnly (l r : Value N) :
    FailsOnly (fun e => IsInvalid (.operation e)) (l.add r) := by
  intro e he
  rw [Value.add] at he
  unfold Value.arithmetic at he
  split at he
  · cases he
  · cases he
  · split at he
    · cases he
    · cases he
      trivial
  · split at he
    · cases he
    · cases he
      trivial

theorem addToSum_failsOnly (total v : Value N) :
    FailsOnly IsInvalid (Accumulator.addToSum total v) := by
  unfold Accumulator.addToSum
  split
  · exact failsOnly_ok _
  · exact failsOnly_ok _
  · exact failsOnly_ok _
  · exact failsOnly_error trivial
  · rename_i total v
    split
    · exact failsOnly_ok _
    · rename_i e he
      exact failsOnly_error (add_failsOnly _ _ e he)

section Steps

variable {P : QueryError → Prop} (hP : ∀ error, IsInvalid error → P error)

include hP

/-- **Cells fail as invalid operations and columns do.**  A cell is a value or nothing, unless an
operation is invalid or a column fails. -/
theorem cell_failsOnly {b : Bindings N} {e : Expr N} (h : Evaluable P b e) :
    FailsOnly P (cell b e) := by
  have hevaluate : FailsOnly (fun error => IsOperational error ∨ P error) (e.evaluate b) :=
    evaluate_failsOnly (fun _ => Or.inl)
      ⟨h.noAggregate, fun c hc error herror => .inr (h.allowedColumns c hc error herror)⟩
  intro error herror
  rw [cell] at herror
  split at herror
  · cases herror
  · rename_i hnotZero
    rcases hevaluate error herror with hoperational | hallowed
    · cases error with
      | operation failure =>
          cases failure with
          | zeroDenominator n => exact absurd herror (hnotZero n)
          | invalidOperation op l r => exact hP _ trivial
      | invalidExpression text => exact hP _ trivial
      | _ => exact hoperational.elim
    · exact hallowed

/-! ## Rows and groups -/

theorem satisfies_failsOnly {condition : Option (Expr N)} {b : Bindings N}
    (h : ∀ e ∈ condition, Evaluable P b e) : FailsOnly P (satisfies b condition) := by
  cases condition with
  | none => exact failsOnly_ok _
  | some e => exact (cell_failsOnly hP (h e rfl)).bind fun v _ => failsOnly_ok _

theorem filterRows_failsOnly {condition : Option (Expr N)} {bs : List (Bindings N)}
    (h : ∀ b ∈ bs, ∀ e ∈ condition, Evaluable P b e) : FailsOnly P (filterRows condition bs) := by
  rw [filterRows_eq]
  exact (failsOnly_mapM fun b hb => satisfies_failsOnly hP (h b hb)).map _

theorem cells_failsOnly {b : Bindings N} {es : List (Expr N)} (h : ∀ e ∈ es, Evaluable P b e) :
    FailsOnly P (cells b es) :=
  failsOnly_mapM fun e he => cell_failsOnly hP (h e he)

theorem update_failsOnly (a : Accumulator N) (v : Value N) : FailsOnly P (a.update v) := by
  cases a with
  | count n => exact failsOnly_ok _
  | sum total =>
      have hsum : FailsOnly P (Accumulator.addToSum total v) :=
        fun error herror => hP error (addToSum_failsOnly total v error herror)
      exact hsum.map _
  | extremum keep value => exact failsOnly_ok _
  | moments s n total squares =>
      simp only [Accumulator.update]
      split
      · exact failsOnly_ok _
      · exact failsOnly_ok _

theorem aggregateInput_failsOnly {b : Bindings N} {a : Expr N} (h : Feedable P b a) :
    FailsOnly P (aggregateInput b a) := by
  unfold aggregateInput
  split
  · rename_i f e
    exact cell_failsOnly hP (h f e rfl)
  · exact failsOnly_ok _

theorem updateStates_failsOnly {b : Bindings N} {aggregates : List (Expr N)}
    (h : ∀ a ∈ aggregates, Feedable P b a) (states : List (Accumulator N)) :
    FailsOnly P (Group.updateStates b aggregates states) := by
  induction aggregates generalizing states with
  | nil => exact failsOnly_ok _
  | cons a aggregates ih =>
      cases states with
      | nil => exact failsOnly_ok _
      | cons state states =>
          have hrest := ih (fun a' ha' => h a' (List.mem_cons_of_mem _ ha')) states
          apply (aggregateInput_failsOnly hP (h a List.mem_cons_self)).bind
          intro v _
          apply (update_failsOnly hP state v).bind
          intro state' _
          exact hrest.bind fun states' _ => failsOnly_ok _

theorem groupUpdate_failsOnly {b : Bindings N} {aggregates : List (Expr N)}
    (h : ∀ a ∈ aggregates, Feedable P b a) (g : Group N) : FailsOnly P (g.update aggregates b) :=
  (updateStates_failsOnly hP h g.states).bind fun _ _ => failsOnly_ok _

theorem addRow_failsOnly {b : Bindings N} {aggregates : List (Expr N)}
    (h : ∀ a ∈ aggregates, Feedable P b a) (key : List (Value N)) (groups : List (Group N)) :
    FailsOnly P (addRow aggregates b key groups) := by
  induction groups with
  | nil => exact (groupUpdate_failsOnly hP h _).bind fun _ _ => failsOnly_ok _
  | cons g groups ih =>
      unfold addRow
      split
      · exact (groupUpdate_failsOnly hP h g).bind fun _ _ => failsOnly_ok _
      · exact ih.bind fun _ _ => failsOnly_ok _

/-- **Putting rows together fails as operations and columns do.**  Keys without aggregates and
aggregates of expressions without aggregates fail on invalid operations, and where columns do. -/
theorem groupRows_failsOnly {keys aggregates : List (Expr N)} {rows : List (Bindings N)}
    (hkeys : ∀ b ∈ rows, ∀ e ∈ keys, Evaluable P b e)
    (haggregates : ∀ b ∈ rows, ∀ a ∈ aggregates, Feedable P b a) :
    FailsOnly P (groupRows keys aggregates rows) := by
  refine failsOnly_foldlM (Q := fun _ => True) trivial (fun _ _ _ _ _ _ => trivial) ?_
  intro groups b _ hb
  exact (cells_failsOnly hP (hkeys b hb)).bind
    fun key _ => addRow_failsOnly hP (haggregates b hb) key groups

end Steps

end PrivateSql
