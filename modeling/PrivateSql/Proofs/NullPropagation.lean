import PrivateSql.Binary64.Arithmetic
import PrivateSql.Proofs.ExprStructure
import PrivateSql.Proofs.Fallible
import PrivateSql.Sql.Reading
/-!
# Where `NULL` goes through, and where it does not

An operator or a function that gets a `NULL` gives a `NULL`, and so does an expression of such operators and
functions as soon as one of its columns is `NULL`.  There are two exceptions, and there are no others.  The
remainder asks for its divisor first: divided by zero, `NULL` is an error.  And a function asks for its first
argument only: a number that is rounded to `NULL` places is no valid expression.

* `binaryValue_null`, `functionValue_null` — what operators and functions give for a `NULL`;
* `Expr.IsStrict` — the expressions of arithmetic, comparisons and scalar functions;
* `Expr.RefusesNull` — the two exceptions, as parts of an expression;
* `null_propagates` — `NULL` goes through all the others, and only through them;
* `null_refused` — both exceptions.
-/

namespace PrivateSql

variable {N : Type} [Number N]

/-! ## Operators and functions -/

/-- The operators of arithmetic and of comparison. -/
def strictOperators : List String :=
  ["+", "-", "*", "/", "%", "=", "<>", "!=", "<", "<=", ">", ">="]

/-- Is this a scalar function with a number of arguments that it takes? -/
def isSupportedCall (name : String) (count : Nat) : Bool :=
  scalarFunctions.contains name && count == 1 || name == "ROUND" && count == 2

namespace Value

variable {l r : Value N}

theorem arithmetic_null (h : l = .null ∨ r = .null) (op : String) (onInts : Int → Int → Option Int64)
    (onNumbers : N → N → N) : arithmetic op onInts onNumbers l r = .ok .null := by
  rcases h with rfl | rfl
  · rfl
  · cases l <;> rfl

theorem div_null (h : l = .null ∨ r = .null) : l.div r = .ok .null := by
  rcases h with rfl | rfl
  · rfl
  · cases l <;> rfl

/-- The remainder is the one operator that asks for something else first. -/
theorem rem_null (h : l = .null ∨ r = .null) :
    l.rem r = if r.isZero = true then .error (.zeroDenominator "NULL") else .ok .null := by
  rw [rem, arithmetic_null h]
  split
  · rename_i hzero
    rcases h with rfl | rfl
    · rfl
    · cases hzero
  · rfl

theorem comparison_null (h : l = .null ∨ r = .null) (accept : Ordering → Bool) :
    comparison accept l r = .null := by
  have hnone : l.compare? r = none := by
    rcases h with rfl | rfl
    · rfl
    · cases l <;> rfl
  rw [comparison, hnone]

end Value

/-- **Operators and `NULL`.**  All give `NULL`, but for a remainder by zero. -/
theorem binaryValue_null {op : String} (hop : op ∈ strictOperators) {l r : Value N}
    (h : l = .null ∨ r = .null) :
    binaryValue op l r =
      if op = "%" ∧ r.isZero = true then some (.error (.zeroDenominator "NULL")) else some (.ok .null) := by
  by_cases hrem : op = "%"
  · subst hrem
    have hvalue : binaryValue "%" l r = some (l.rem r) := rfl
    rw [hvalue, Value.rem_null h]
    by_cases hzero : r.isZero = true <;> simp [hzero]
  · rw [if_neg fun hboth => hrem hboth.1]
    simp only [strictOperators, List.mem_cons, List.not_mem_nil, or_false] at hop
    rcases hop with rfl | rfl | rfl | rfl | rfl | rfl | rfl | rfl | rfl | rfl | rfl | rfl
    all_goals first
      | exact congrArg some (Value.arithmetic_null h _ _ _)
      | exact congrArg some (Value.div_null h)
      | exact absurd rfl hrem
      | exact congrArg (fun v => some (Except.ok v)) (Value.comparison_null h _)

/-- A `NULL` among the arguments of a function is its first one, or the places that a value is rounded to. -/
theorem null_first_or_places {name : String} {vs : List (Value N)}
    (hcall : isSupportedCall name vs.length = true) (h : .null ∈ vs) :
    (∃ rest, vs = .null :: rest) ∨ name = "ROUND" ∧ ∃ x, x ≠ .null ∧ vs = [x, .null] := by
  rcases vs with _ | ⟨x, _ | ⟨y, rest⟩⟩
  · cases h
  · obtain rfl := List.mem_singleton.mp h
    exact .inl ⟨[], rfl⟩
  · have hround : name = "ROUND" ∧ rest = [] := by simpa [isSupportedCall] using hcall
    obtain ⟨rfl, rfl⟩ := hround
    by_cases hx : x = .null
    · exact .inl ⟨[y], by rw [hx]⟩
    · obtain rfl : .null = y := by simpa [Ne.symm hx] using h
      exact .inr ⟨rfl, x, hx, rfl⟩

/-- **Functions and `NULL`.**  They give `NULL` when their first argument is. -/
theorem functionValue_null (name : String) (rest : List (Value N)) :
    functionValue name (.null :: rest) = some .null := by
  unfold functionValue
  rfl

theorem functionValue_null_places {x : Value N} (hx : x ≠ .null) :
    functionValue "ROUND" [x, .null] = none := by
  cases x with
  | null => exact absurd rfl hx
  | boolean t | integer i | float f | text s => rfl

namespace Expr

/-! ## Expressions -/

/-- An expression of constants and columns that arithmetic, comparisons and scalar functions join. -/
inductive IsStrict : Expr N → Prop where
  | literal (l : Literal N) : IsStrict (.literal l)
  | column (id : Identifier) : IsStrict (.column id)
  | negative {e : Expr N} (inner : IsStrict e) : IsStrict (.unary "-" e)
  | binary {l r : Expr N} {op : String} (known : op ∈ strictOperators) (left : IsStrict l)
      (right : IsStrict r) : IsStrict (.binary l op r)
  | nested {e : Expr N} (inner : IsStrict e) : IsStrict (.nested e)
  | call {name : String} {args : List (Expr N)} (supported : isSupportedCall name args.length = true)
      (arguments : ∀ e ∈ args, IsStrict e) : IsStrict (.call name args)

variable {b : Bindings N} {e t l r : Expr N}

/-- Is a column of the expression `NULL`? -/
def ReadsNull (b : Bindings N) (e : Expr N) : Prop := ∃ c ∈ e.columns, b.find c.parts = .one .null

/-- The parts of the expression in which no column is `NULL` have values. -/
def SucceedsApart (b : Bindings N) (e : Expr N) : Prop :=
  ∀ t ∈ e.subterms, ¬ t.ReadsNull b → ∃ v, t.evaluate b = .ok v

/-- The expressions that refuse a `NULL`: remainders of it by zero, and numbers rounded to `NULL` places. -/
def RefusesNull (b : Bindings N) (e : Expr N) : Prop :=
  (∃ l r y, e = .binary l "%" r ∧ l.evaluate b = .ok .null ∧ r.evaluate b = .ok y ∧ y.isZero = true) ∨
  ∃ x places v, e = .call "ROUND" [x, places] ∧ x.evaluate b = .ok v ∧ v ≠ .null ∧
    places.evaluate b = .ok .null

omit [Number N] in
/-- None of these operators is decided by its left side. -/
theorem decidedByLeft_of_strict {op : String} (hop : op ∈ strictOperators) (x : Value N) :
    decidedByLeft op x = none := by
  simp only [strictOperators, List.mem_cons, List.not_mem_nil, or_false] at hop
  rcases hop with rfl | rfl | rfl | rfl | rfl | rfl | rfl | rfl | rfl | rfl | rfl | rfl <;> rfl

theorem evaluate_strict {op : String} (hop : op ∈ strictOperators) {x y : Value N}
    (hl : l.evaluate b = .ok x) (hr : r.evaluate b = .ok y) :
    (binary l op r).evaluate b = valueOrInvalid (.binary l op r) (binaryValue op x y) := by
  rw [evaluate, hl, ok_bind, decidedByLeft_of_strict hop]
  simp only [hr, ok_bind]

theorem evaluate_call {name : String} {args : List (Expr N)} {vs : List (Value N)}
    (h : args.mapM (evaluate b) = .ok vs) :
    (call name args).evaluate b = match functionValue name vs with
      | some v => .ok v
      | none => .error (.invalidExpression (display (.call name args))) := by
  rw [evaluate, evaluateAll_eq_mapM, h]
  rfl

/-- What has a value has it from parts that all have one. -/
theorem IsStrict.subterms_ok (h : e.IsStrict) : ∀ {v}, e.evaluate b = .ok v →
    ∀ t ∈ e.subterms, ∃ w, t.evaluate b = .ok w := by
  induction h with
  | literal l =>
      intro v hv t ht
      obtain rfl := List.mem_singleton.mp ht
      exact ⟨v, hv⟩
  | column id =>
      intro v hv t ht
      obtain rfl := List.mem_singleton.mp ht
      exact ⟨v, hv⟩
  | negative _ ih =>
      intro v hv t ht
      obtain ⟨x, hx, -⟩ := bind_eq_ok.mp hv
      rcases List.mem_cons.mp ht with rfl | hinside
      · exact ⟨v, hv⟩
      · exact ih hx t hinside
  | binary known _ _ ihl ihr =>
      intro v hv t ht
      obtain ⟨x, hx, hrest⟩ := bind_eq_ok.mp hv
      simp only [decidedByLeft_of_strict known] at hrest
      obtain ⟨y, hy, -⟩ := bind_eq_ok.mp hrest
      rcases List.mem_cons.mp ht with rfl | hinside
      · exact ⟨v, hv⟩
      · exact (List.mem_append.mp hinside).elim (ihl hx t) (ihr hy t)
  | nested _ ih =>
      intro v hv t ht
      rcases List.mem_cons.mp ht with rfl | hinside
      · exact ⟨v, hv⟩
      · exact ih hv t hinside
  | call _ _ ih =>
      intro v hv t ht
      rcases List.mem_cons.mp ht with rfl | hinside
      · exact ⟨v, hv⟩
      · rw [subtermsAll_eq_flatMap] at hinside
        obtain ⟨a, ha, hta⟩ := List.mem_flatMap.mp hinside
        obtain ⟨vs, hvs, -⟩ := bind_eq_ok.mp hv
        rw [evaluateAll_eq_mapM] at hvs
        obtain ⟨w, -, hw⟩ := exists_result_of_mem hvs ha
        exact ih a ha hw t hta

/-- What refuses a `NULL` has no value. -/
theorem RefusesNull.evaluate_ne_ok (h : t.RefusesNull b) (v : Value N) : t.evaluate b ≠ .ok v := by
  rcases h with ⟨l, r, y, rfl, hl, hr, hzero⟩ | ⟨x, places, w, rfl, hx, hw, hplaces⟩
  · rw [evaluate_strict (by decide) hl hr, binaryValue_null (by decide) (.inl rfl), if_pos ⟨rfl, hzero⟩]
    exact nofun
  · have hargs : [x, places].mapM (evaluate b) = .ok [w, .null] :=
      mapM_eq_ok.mpr (.cons hx (.cons hplaces .nil))
    rw [evaluate_call hargs, functionValue_null_places hw]
    exact nofun

/-- A `NULL` beside an operator goes through, unless the operator refuses it. -/
theorem evaluate_binary_null {op : String} (hop : op ∈ strictOperators) {x y : Value N}
    (hl : l.evaluate b = .ok x) (hr : r.evaluate b = .ok y) (hnull : x = .null ∨ y = .null)
    (hrefuses : ¬ (binary l op r).RefusesNull b) : (binary l op r).evaluate b = .ok .null := by
  have hdivisor : ¬ (op = "%" ∧ y.isZero = true) := by
    rintro ⟨rfl, hzero⟩
    rcases hnull with rfl | rfl
    · exact hrefuses (.inl ⟨l, r, y, rfl, hl, hr, hzero⟩)
    · cases hzero
  rw [evaluate_strict hop hl hr, binaryValue_null hop hnull, if_neg hdivisor]
  rfl

/-- A `NULL` among the arguments of a call goes through, unless the call refuses it. -/
theorem evaluate_call_null {name : String} {args : List (Expr N)} {vs : List (Value N)}
    (supported : isSupportedCall name vs.length = true) (hargs : args.mapM (evaluate b) = .ok vs)
    (hnull : .null ∈ vs) (hrefuses : ¬ (call name args).RefusesNull b) :
    (call name args).evaluate b = .ok .null := by
  rcases null_first_or_places supported hnull with ⟨rest, rfl⟩ | ⟨rfl, v, hv, rfl⟩
  · rw [evaluate_call hargs, functionValue_null]
  · cases mapM_eq_ok.mp hargs with
    | cons hx hplaces =>
        cases hplaces with
        | cons hnull hnil =>
            cases hnil
            exact absurd (.inr ⟨_, _, v, rfl, hx, hv, hnull⟩) hrefuses

/-- A part has a value, whether it reads a `NULL` or not. -/
theorem SucceedsApart.exists_value (h : t.SucceedsApart b) (hnull : t.ReadsNull b → t.evaluate b = .ok .null) :
    ∃ v, t.evaluate b = .ok v ∧ (t.ReadsNull b → v = .null) := by
  by_cases hreads : t.ReadsNull b
  · exact ⟨.null, hnull hreads, fun _ => rfl⟩
  · obtain ⟨v, hv⟩ := h t (mem_subterms_self t) hreads
    exact ⟨v, hv, fun h => absurd h hreads⟩

/-- Where the parts without `NULL` succeed and none refuses a `NULL`, it goes through. -/
theorem IsStrict.evaluate_null (h : e.IsStrict) : e.SucceedsApart b →
    (∀ t ∈ e.subterms, ¬ t.RefusesNull b) → e.ReadsNull b → e.evaluate b = .ok .null := by
  induction h with
  | literal l =>
      rintro - - ⟨c, hc, -⟩
      cases hc
  | column id =>
      rintro - - ⟨c, hc, hfind⟩
      obtain rfl := List.mem_singleton.mp hc
      rw [evaluate, hfind]
  | negative _ ih =>
      intro hapart hnone hreads
      have hinner := ih (fun t ht => hapart t (List.mem_cons_of_mem _ ht))
        (fun t ht => hnone t (List.mem_cons_of_mem _ ht)) hreads
      rw [evaluate, hinner]
      rfl
  | @binary l r op known _ _ ihl ihr =>
      intro hapart hnone hreads
      have hleft : l.SucceedsApart b := fun t ht => hapart t (mem_subterms_left ht)
      have hright : r.SucceedsApart b := fun t ht => hapart t (mem_subterms_right ht)
      obtain ⟨x, hx, hxnull⟩ := hleft.exists_value (ihl hleft fun t ht => hnone t (mem_subterms_left ht))
      obtain ⟨y, hy, hynull⟩ := hright.exists_value (ihr hright fun t ht => hnone t (mem_subterms_right ht))
      have hnull : x = .null ∨ y = .null := by
        obtain ⟨c, hc, hfind⟩ := hreads
        rw [columns_binary, List.mem_append] at hc
        exact hc.imp (fun h => hxnull ⟨c, h, hfind⟩) (fun h => hynull ⟨c, h, hfind⟩)
      exact evaluate_binary_null known hx hy hnull (hnone _ (mem_subterms_self _))
  | nested _ ih =>
      intro hapart hnone hreads
      exact ih (fun t ht => hapart t (List.mem_cons_of_mem _ ht))
        (fun t ht => hnone t (List.mem_cons_of_mem _ ht)) hreads
  | @call name args supported _ ih =>
      intro hapart hnone hreads
      have harg : ∀ a ∈ args, ∃ v, a.evaluate b = .ok v ∧ (a.ReadsNull b → v = .null) := by
        intro a ha
        have happly : a.SucceedsApart b := fun t ht => hapart t (mem_subterms_argument ha ht)
        exact happly.exists_value (ih a ha happly fun t ht => hnone t (mem_subterms_argument ha ht))
      obtain ⟨vs, hvs⟩ := exists_forall₂ harg
      have hargs : args.mapM (evaluate b) = .ok vs := mapM_eq_ok.mpr (hvs.imp fun _ _ h => h.1)
      have hnull : .null ∈ vs := by
        obtain ⟨c, hc, hfind⟩ := hreads
        rw [columns_call, List.mem_flatMap] at hc
        obtain ⟨a, ha, hca⟩ := hc
        obtain ⟨v, hzip, hv⟩ := exists_result_of_mem hargs ha
        have hvnull := (List.forall₂_iff_zip.mp hvs).2 hzip
        exact hvnull.2 ⟨c, hca, hfind⟩ ▸ (List.of_mem_zip hzip).2
      rw [hvs.length_eq] at supported
      exact evaluate_call_null supported hargs hnull (hnone _ (mem_subterms_self _))

end Expr

/-! ## `NULL` propagates -/

/-- **`NULL` propagates, but for remainders by zero and for places.**  An operator of arithmetic or comparison
gives `NULL` for a `NULL`, unless it is the remainder of `NULL` by zero, which is an error; a function gives
`NULL` when its first argument is `NULL`, and when it is another one, which only the places of a rounding are,
it gives nothing.  So in an expression of constants, columns, these operators and functions whose parts without
`NULL` all succeed, a column that is `NULL` makes the expression `NULL` exactly when no part of it is one of these
two. -/
theorem null_propagates :
    (∀ op ∈ strictOperators, ∀ l r : Value N, l = .null ∨ r = .null → binaryValue op l r =
      if op = "%" ∧ r.isZero = true then some (.error (.zeroDenominator "NULL")) else some (.ok .null)) ∧
    unaryValue "-" (.null : Value N) = some (.ok .null) ∧
    (∀ (name : String) (vs : List (Value N)), isSupportedCall name vs.length = true → .null ∈ vs →
      functionValue name vs = if vs.head?.any (·.isNull) = true then some .null else none) ∧
    ∀ (b : Bindings N) (e : Expr N), e.IsStrict → e.SucceedsApart b → e.ReadsNull b →
      (e.evaluate b = .ok .null ↔ ∀ t ∈ e.subterms, ¬ t.RefusesNull b) := by
  refine ⟨fun op hop l r h => binaryValue_null hop h, rfl, fun name vs hcall h => ?_,
    fun b e hstrict hapart hreads => ⟨fun hnull t ht hrefuses => ?_, fun hnone => ?_⟩⟩
  · rcases null_first_or_places hcall h with ⟨rest, rfl⟩ | ⟨rfl, x, hx, rfl⟩
    · exact functionValue_null name rest
    · rw [functionValue_null_places hx]
      cases x with
      | null => exact absurd rfl hx
      | boolean t | integer i | float f | text s => rfl
  · obtain ⟨v, hv⟩ := hstrict.subterms_ok hnull t ht
    exact hrefuses.evaluate_ne_ok v hv
  · exact hstrict.evaluate_null hapart hnone hreads

/-- The expression `ABS(x + 1) <= ROUND(2.5, 0) % y`. -/
def remainderBeside : Expr Binary64 :=
  .binary (.call "ABS" [.binary (.ofColumn "x") "+" (.ofValue (.integer 1))]) "<="
    (.binary (.call "ROUND" [.ofValue (.float ⟨0x4004000000000000⟩), .ofValue (.integer 0)]) "%"
      (.ofColumn "y"))

/-- A `NULL` goes through beside a remainder and a rounding that it does not come into. -/
theorem null_propagates_beside :
    binaryValue "-" (.integer 3) (.null : Value Binary64) = some (.ok .null) ∧
    functionValue "ROUND" [.null, (.integer 2 : Value Binary64)] = some .null ∧
    remainderBeside.evaluate (PathMap.ofList [(["x"], .null), (["y"], .integer 2)]) = .ok .null := by
  obtain ⟨hoperators, -, hfunctions, hexprs⟩ := null_propagates (N := Binary64)
  have hvalues : ∀ t ∈ remainderBeside.subterms,
      (t.evaluate (PathMap.ofList [(["x"], .null), (["y"], .integer 2)])).toOption.isSome = true := by
    decide +kernel
  have hstrict : remainderBeside.IsStrict := by
    refine .binary (by decide) (.call rfl ?_) (.binary (by decide) (.call rfl ?_) (.column _))
    · rintro e (_ | ⟨_, ⟨⟩⟩)
      exact .binary (by decide) (.column _) (.literal _)
    · rintro e (_ | ⟨_, _ | ⟨_, ⟨⟩⟩⟩) <;> exact .literal _
  have hsucceeds : ∀ t ∈ remainderBeside.subterms, ∃ v,
      t.evaluate (PathMap.ofList [(["x"], .null), (["y"], .integer 2)]) = .ok v := by
    intro t ht
    obtain ⟨v, hv⟩ := Option.isSome_iff_exists.mp (hvalues t ht)
    exact ⟨v, toOption_eq_some.mp hv⟩
  refine ⟨hoperators "-" (by decide) _ _ (.inr rfl), hfunctions "ROUND" _ rfl (by simp),
    (hexprs _ _ hstrict (fun t ht _ => hsucceeds t ht) ⟨⟨"x"⟩, by decide +kernel, by decide +kernel⟩).mpr
      fun t ht hrefuses => ?_⟩
  obtain ⟨v, hv⟩ := hsucceeds t ht
  exact hrefuses.evaluate_ne_ok v hv

/-- **`NULL` is refused** by a remainder by zero, and as a number of places. -/
theorem null_refused :
    ((Expr.parse (N := Binary64) "x % 0").toOption.map fun e =>
      errorOf (e.evaluate (PathMap.ofList [(["x"], .null)]))) =
        some (some (.operation (.zeroDenominator "NULL"))) ∧
    ((Expr.parse (N := Binary64) "ROUND(2.5, x)").toOption.map fun e =>
      errorOf (e.evaluate (PathMap.ofList [(["x"], .null)]))) =
        some (some (.invalidExpression "ROUND(2.5, x)")) := by
  decide +kernel

end PrivateSql
