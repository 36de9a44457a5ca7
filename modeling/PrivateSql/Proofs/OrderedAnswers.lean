import PrivateSql.Proofs.GroupedExecution
import PrivateSql.Proofs.ShadowedColumns
import PrivateSql.Proofs.ValueOrder
/-!
# Ordered answers

`ORDER BY` asks for an order of rows: the first keys that differ decide, an item that descends is turned
round, and `NULL` is lowest.  Where each key has values of one type, the comparison of rows of keys asks
for this order and nothing else, two rows comparing as equal only with the same keys.  An answer is then
the rows that satisfy the second condition, in this order; those with the same keys stay in the order in
which they first appeared, and a limit takes the first ones.

* `Value.Below`, `Precedes` — the order of values of one type, and that of rows of keys;
* `compareKeys_eq_lt_iff`, `compareKeys_eq_eq_iff` — what the comparison of rows of keys says;
* `stableSort_keys` — rows sorted as asked for;
* `Query.Gives`, `Query.outputRow_iff` — the row that a query gives for a group or a row, with its keys;
* `Query.FirstAppearing` — the groups or rows in the order in which they first appear;
* `Query.execute_ordered` — the order of an answer.
-/

namespace PrivateSql

/-! ## What is asked for -/

/-- The order of the values of one type: `NULL` below all others, false below true, integers and texts in
their order, and the numbers as they stand on the line, with the negative zero below the positive one. -/
inductive Value.Below : Value Binary64 → Value Binary64 → Prop
  | null {v : Value Binary64} : v ≠ .null → Below .null v
  | boolean : Below (.boolean false) (.boolean true)
  | integer {i j : Int64} : i.toInt < j.toInt → Below (.integer i) (.integer j)
  | float {x y : Binary64} : x.totalPlace < y.totalPlace → Below (.float x) (.float y)
  | text {s t : String} : s < t → Below (.text s) (.text t)

/-- **The order that `ORDER BY` asks for.**  The first keys that differ decide: the lower one comes first
where the item ascends, the higher one where it descends. -/
inductive Precedes : List Bool → List (Value Binary64) → List (Value Binary64) → Prop
  | ascending {directions ls rs} {l r : Value Binary64} :
      l.Below r → Precedes (true :: directions) (l :: ls) (r :: rs)
  | descending {directions ls rs} {l r : Value Binary64} :
      r.Below l → Precedes (false :: directions) (l :: ls) (r :: rs)
  | next {ascending directions ls rs} {k : Value Binary64} :
      Precedes directions ls rs → Precedes (ascending :: directions) (k :: ls) (k :: rs)

/-! ## What the comparison says -/

namespace Value

variable {t : DataType} {a b : Value Binary64}

/-- A value of one type compares as lower when it is lower. -/
theorem totalCompare_eq_lt_iff (ha : a.HasType t) (hb : b.HasType t) :
    a.totalCompare b = .lt ↔ a.Below b := by
  constructor
  · intro h
    rcases ha with rfl | ha
    · apply Below.null
      rintro rfl
      cases h
    · rcases hb with rfl | hb
      · cases a <;> cases h
      · -- Neither is `NULL`, so both have the constructor of the type.
        rw [← hb] at ha
        match a, b, ha, h with
        | .boolean false, .boolean true, _, _ => exact .boolean
        | .integer _, .integer _, _, h => exact .integer (compare_lt_iff_lt.mp h)
        | .float _, .float _, _, h => exact .float (compare_lt_iff_lt.mp h)
        | .text _, .text _, _, h => exact .text (compareOfLessAndEq_eq_lt.mp h)
  · intro h
    cases h with
    | null hne =>
        cases b with
        | null => exact absurd rfl hne
        | boolean _ => rfl
        | integer _ => rfl
        | float _ => rfl
        | text _ => rfl
    | boolean => rfl
    | integer h => exact compare_lt_iff_lt.mpr h
    | float h => exact compare_lt_iff_lt.mpr h
    | text h => exact compareOfLessAndEq_eq_lt.mpr h

/-- Turned round a value of one type compares as lower when the other one is lower. -/
theorem totalCompare_eq_gt_iff (ha : a.HasType t) (hb : b.HasType t) :
    a.totalCompare b = .gt ↔ b.Below a := by
  rw [← totalCompare_eq_lt_iff hb ha, totalCompare_swap a b, Ordering.swap_eq_lt]

end Value

/-- The first keys are in the order asked for, or they are the same and the next ones are in it. -/
theorem precedes_cons_iff {ascending : Bool} {directions : List Bool} {l r : Value Binary64}
    {ls rs : List (Value Binary64)} :
    Precedes (ascending :: directions) (l :: ls) (r :: rs) ↔
      (if ascending then l.Below r else r.Below l) ∨ l = r ∧ Precedes directions ls rs := by
  constructor
  · intro h
    cases h with
    | ascending h => exact .inl h
    | descending h => exact .inl h
    | next h => exact .inr ⟨rfl, h⟩
  · rintro (h | ⟨rfl, h⟩)
    · cases ascending with
      | true => exact .ascending h
      | false => exact .descending h
    · exact .next h

section Keys

variable {types : List DataType} {directions : List Bool} {ls rs : List (Value Binary64)}

/-- **Rows of keys are compared as asked for.**  One row is below another one when it comes first. -/
theorem compareKeys_eq_lt_iff (hlength : directions.length = types.length)
    (hls : List.Forall₂ Value.HasType types ls) (hrs : List.Forall₂ Value.HasType types rs) :
    compareKeys directions ls rs = .lt ↔ Precedes directions ls rs := by
  induction hls generalizing directions rs with
  | nil =>
      obtain rfl := List.length_eq_zero_iff.mp hlength
      constructor <;> rintro ⟨⟩
  | @cons t l types ls hl hls ih =>
      obtain ⟨ascending, directions, rfl⟩ := List.exists_cons_of_length_eq_add_one hlength
      obtain ⟨r, rs, hr, hrest, rfl⟩ := List.forall₂_cons_left_iff.mp hrs
      rw [compareKeys_cons, precedes_cons_iff, Ordering.then_eq_lt, ih (by simpa using hlength) hrest]
      cases ascending with
      | true =>
          rw [inDirection, if_pos rfl, if_pos rfl, Value.totalCompare_eq_lt_iff hl hr,
            Value.totalCompare_eq_eq_iff hl hr]
      | false =>
          rw [inDirection, if_neg Bool.false_ne_true, if_neg Bool.false_ne_true, Ordering.swap_eq_lt,
            Ordering.swap_eq_eq, Value.totalCompare_eq_gt_iff hl hr, Value.totalCompare_eq_eq_iff hl hr]

/-- Rows of keys compare as equal only when they are the same. -/
theorem compareKeys_eq_eq_iff (hlength : directions.length = types.length)
    (hls : List.Forall₂ Value.HasType types ls) (hrs : List.Forall₂ Value.HasType types rs) :
    compareKeys directions ls rs = .eq ↔ ls = rs := by
  induction hls generalizing directions rs with
  | nil =>
      obtain rfl := List.length_eq_zero_iff.mp hlength
      cases hrs
      simp [compareKeys]
  | @cons t l types ls hl hls ih =>
      obtain ⟨ascending, directions, rfl⟩ := List.exists_cons_of_length_eq_add_one hlength
      obtain ⟨r, rs, hr, hrest, rfl⟩ := List.forall₂_cons_left_iff.mp hrs
      have hfirst : inDirection ascending (l.totalCompare r) = .eq ↔ l = r := by
        rw [← Value.totalCompare_eq_eq_iff hl hr]
        cases ascending <;> simp [inDirection]
      rw [compareKeys_cons, Ordering.then_eq_eq, hfirst, ih (by simpa using hlength) hrest,
        List.cons.injEq]

end Keys

/-! ## Sorted rows -/

/-- **Rows are sorted as asked for** when their keys have one type each: no row comes before one that
precedes it, and the rows with some keys stay as they came. -/
theorem stableSort_keys {types : List DataType} {directions : List Bool}
    {outputs : List (OutputRow Binary64)} (hlength : ∀ o ∈ outputs, o.keys.length = directions.length)
    (htypes : ∀ o ∈ outputs, List.Forall₂ Value.HasType types o.keys) :
    (stableSort (fun l r => compareKeys directions l.keys r.keys) outputs).Pairwise
        (fun l r => Precedes directions l.keys r.keys ∨ l.keys = r.keys) ∧
      ∀ keys, (stableSort (fun l r => compareKeys directions l.keys r.keys) outputs).filter
          (fun o => decide (o.keys = keys)) = outputs.filter fun o => decide (o.keys = keys) := by
  -- Where no row is given, nothing says that there are as many types as directions.
  have hsame : ∀ o ∈ outputs, directions.length = types.length := by
    intro o ho
    rw [← hlength o ho, (htypes o ho).length_eq]
  constructor
  · have hcolumns : ∀ S ∈ types.map Value.HasType, OrdersOn Value.totalCompare S := by
      intro S hS
      obtain ⟨t, -, rfl⟩ := List.mem_map.mp hS
      exact Value.ordersOn_of_discerning (Value.discerning_of_type t)
    have horders := (compareKeys_ordersOn hcolumns directions).comap (OutputRow.keys (N := Binary64))
    have hsorted := stableSort_pairwise (l := outputs)
      (horders.mono fun o ho => List.forall₂_map_left_iff.mpr (htypes o ho))
    refine hsorted.imp_of_mem ?_
    intro l r hl hr hle
    have hl := (stableSort_perm _ outputs).mem_iff.mp hl
    have hr := (stableSort_perm _ outputs).mem_iff.mp hr
    cases hcompare : compareKeys directions l.keys r.keys with
    | lt => exact .inl ((compareKeys_eq_lt_iff (hsame l hl) (htypes l hl) (htypes r hr)).mp hcompare)
    | eq => exact .inr ((compareKeys_eq_eq_iff (hsame l hl) (htypes l hl) (htypes r hr)).mp hcompare)
    | gt => exact absurd hcompare hle
  · intro keys
    apply stableSort_filter
    intro l hl r hr hkeys hkeys'
    have heq : l.keys = r.keys := (of_decide_eq_true hkeys).trans (of_decide_eq_true hkeys').symm
    rw [(compareKeys_eq_eq_iff (hsame l hl) (htypes l hl) (htypes r hr)).mpr heq]
    exact Ordering.noConfusion

/-! ## The rows of an answer -/

namespace Query

section

variable {N : Type} [Number N] {q : Query N} {b : Bindings N} {s : Substitution N}

/-- **What a query gives** for a group or a row.  The values are those of what is selected.  The second
condition is asked beside them, by their names, and only where it is true the row is given; its keys are
the values of what it is ordered by, beside the same names. -/
inductive Gives (q : Query N) (b : Bindings N) (s : Substitution N) : Option (OutputRow N) → Prop
  | row {values keys : List (Value N)} :
      cells b (q.select.map fun item => item.expr.replace s) = .ok values →
      satisfies (b.insertAll (q.outputBindings values)) (q.having.map (·.replace s)) = .ok true →
      cells (b.insertAll (q.outputBindings values)) (q.orderBy.map fun item => item.expr.replace s) =
        .ok keys →
      Gives q b s (some ⟨values, keys⟩)
  | leftOut {values : List (Value N)} :
      cells b (q.select.map fun item => item.expr.replace s) = .ok values →
      satisfies (b.insertAll (q.outputBindings values)) (q.having.map (·.replace s)) = .ok false →
      Gives q b s none

/-- The row made of a group or a row is the one that is given. -/
theorem outputRow_iff {row : Option (OutputRow N)} :
    q.outputRow b s = .ok row ↔ q.Gives b s row := by
  constructor
  · intro h
    obtain ⟨values, hvalues, h⟩ := bind_eq_ok.mp h
    obtain ⟨passed, hpassed, h⟩ := bind_eq_ok.mp h
    cases passed with
    | false =>
        cases h
        exact .leftOut hvalues hpassed
    | true =>
        obtain ⟨keys, hkeys, h⟩ := bind_eq_ok.mp h
        cases h
        exact .row hvalues hpassed hkeys
  · intro h
    cases h with
    | row hvalues hpassed hkeys =>
        refine bind_eq_ok.mpr ⟨_, hvalues, bind_eq_ok.mpr ⟨true, hpassed, ?_⟩⟩
        exact bind_eq_ok.mpr ⟨_, hkeys, rfl⟩
    | leftOut hvalues hpassed =>
        exact bind_eq_ok.mpr ⟨_, hvalues, bind_eq_ok.mpr ⟨false, hpassed, rfl⟩⟩

/-- There is a key for each item that the query orders by. -/
theorem Gives.length_keys {o : OutputRow N} (h : q.Gives b s (some o)) :
    o.keys.length = q.orderBy.length := by
  cases h with
  | row _ _ hkeys => exact (cells_map_eq_ok.mp hkeys).length_eq.symm

/-- **In the order in which they first appear**: the rows as they are kept, or one group for each vector
of keys, in the order of the first rows that have them. -/
structure FirstAppearing (q : Query N) (kept : List (Bindings N))
    (sources : List (Bindings N × Substitution N)) : Prop where
  rows : q.isAggregate = false → sources = kept.map fun b => (b, Substitution.empty)
  groups : q.isAggregate = true → ∃ vectors, kept.mapM (cells · q.groupBy) = .ok vectors ∧
    List.Forall₂ (fun key g => q.Summary (rowsWithKey q.groupBy key kept) g.1 g.2)
      (q.groupKeys vectors) sources

theorem firstAppearing_of_sources {kept : List (Bindings N)}
    {sources : List (Bindings N × Substitution N)} (h : q.sources kept = .ok sources) :
    q.FirstAppearing kept sources := by
  constructor
  · intro hagg
    rw [Query.sources, hagg, if_neg Bool.false_ne_true] at h
    exact (Except.ok.inj h).symm
  · intro hagg
    obtain ⟨vectors, hvectors, -, hsummaries⟩ := summaries_of_sources hagg h
    exact ⟨vectors, hvectors, hsummaries⟩

/-- The rows that a query gives over the rows of a relation, before they are ordered and cut. -/
def outputsOver (q : Query N) (path names : List String) (rows : List (List (Value N))) :
    Except QueryError (List (OutputRow N)) := do
  let kept ← filterRows q.selection (rows.map (rowBindings path names))
  let sources ← q.sources kept
  q.outputRows sources

end

/-- **The order of an answer.**  Let a query be executed over some rows.  For each row that is kept, or each
group of them, in the order in which they first appear, a row is given or left out by the second
condition.  Let each key by which the rows given are ordered have values of one type, or `NULL`.  Then the
answer has these rows, each of them once, in the order that `ORDER BY` asks for; rows with the same keys
are in the order in which they first appear; and a limit takes the first ones. -/
theorem execute_ordered {q : Query Binary64} {path names : List String}
    {rows : List (List (Value Binary64))} {answer : Rowset Binary64}
    (h : q.execute path names rows = .ok answer) :
    ∃ outputs, q.outputsOver path names rows = .ok outputs ∧
      (∃ (kept : List (Bindings Binary64)) (sources : List (Bindings Binary64 × Substitution Binary64))
        (given : List (Option (OutputRow Binary64))),
        filterRows q.selection (rows.map (rowBindings path names)) = .ok kept ∧
        q.FirstAppearing kept sources ∧
        List.Forall₂ (fun s row => q.Gives s.1 s.2 row) sources given ∧
        outputs = given.flatMap Option.toList) ∧
      ∀ types, (∀ o ∈ outputs, List.Forall₂ Value.HasType types o.keys) →
        ∃ sorted : List (OutputRow Binary64), sorted.Perm outputs ∧
          sorted.Pairwise (fun l r =>
            Precedes (q.orderBy.map (·.ascending)) l.keys r.keys ∨ l.keys = r.keys) ∧
          (∀ keys, sorted.filter (fun o => decide (o.keys = keys)) =
            outputs.filter fun o => decide (o.keys = keys)) ∧
          answer = ⟨q.names, (q.rowLimit.elim sorted sorted.take).map (·.values)⟩ := by
  obtain ⟨kept, sources, outputs, hkept, hsources, houtputs, rfl⟩ := execute_eq_ok.mp h
  have hover : q.outputsOver path names rows = .ok outputs :=
    bind_eq_ok.mpr ⟨kept, hkept, bind_eq_ok.mpr ⟨sources, hsources, houtputs⟩⟩
  obtain ⟨given, hgiven, rfl⟩ := outputRows_eq_ok.mp houtputs
  have hgives : List.Forall₂ (fun s row => q.Gives s.1 s.2 row) sources given :=
    hgiven.imp fun s row hrow => outputRow_iff.mp hrow
  refine ⟨_, hover, ⟨kept, sources, given, hkept, firstAppearing_of_sources hsources, hgives, rfl⟩, ?_⟩
  intro types htypes
  have hlength : ∀ o ∈ given.flatMap Option.toList,
      o.keys.length = (q.orderBy.map (·.ascending)).length := by
    intro o ho
    obtain ⟨row, hrow, ho⟩ := List.mem_flatMap.mp ho
    obtain rfl := Option.mem_toList.mp ho
    obtain ⟨source, -, hgives⟩ := exists_left_of_forall₂ hgives hrow
    rw [hgives.length_keys, List.length_map]
  obtain ⟨hsorted, hstable⟩ := stableSort_keys hlength htypes
  refine ⟨_, stableSort_perm _ _, hsorted, hstable, ?_⟩
  rw [arrange]
  cases q.rowLimit <;> rfl

/-- Odd numbers come first, in the order in which they appear, then an even one; the row that is cut off is
that of `NULL`, and `9` is left out before, as it comes twice. -/
theorem execute_ordered_parities :
    ∃ (q : Query Binary64) (answer : Rowset Binary64) (outputs sorted : List (OutputRow Binary64)),
      Query.parse "SELECT x, x % 2 AS odd FROM t GROUP BY x HAVING COUNT(*) < 2 ORDER BY odd DESC LIMIT 3" =
        .ok q ∧
      q.execute ["t"] ["x"]
          [[.integer 2], [.integer 5], [.integer 9], [.null], [.integer 9], [.integer 3]] =
        .ok answer ∧
      answer.rows = [[.integer 5, .integer 1], [.integer 3, .integer 1], [.integer 2, .integer 0]] ∧
      outputs.map (·.keys) = [[.integer 0], [.integer 1], [.null], [.integer 1]] ∧
      sorted.Perm outputs ∧
      sorted.Pairwise (fun l r => Precedes [false] l.keys r.keys ∨ l.keys = r.keys) ∧
      answer = ⟨q.names, (sorted.take 3).map (·.values)⟩ := by
  have hruns : ((Query.parse (N := Binary64)
      "SELECT x, x % 2 AS odd FROM t GROUP BY x HAVING COUNT(*) < 2 ORDER BY odd DESC LIMIT 3").toOption.bind
        fun q => (q.execute ["t"] ["x"]
            [[.integer 2], [.integer 5], [.integer 9], [.null], [.integer 9], [.integer 3]]).toOption.bind
          fun answer => (q.outputsOver ["t"] ["x"]
              [[.integer 2], [.integer 5], [.integer 9], [.null], [.integer 9], [.integer 3]]).toOption.map
            fun outputs => (answer.rows, outputs.map (·.keys), q.orderBy.map (·.ascending), q.rowLimit)) =
        some ([[.integer 5, .integer 1], [.integer 3, .integer 1], [.integer 2, .integer 0]],
          [[.integer 0], [.integer 1], [.null], [.integer 1]], [false], some 3) := by
    decide +kernel
  obtain ⟨q, hq, hruns⟩ := Option.bind_eq_some_iff.mp hruns
  obtain ⟨answer, hanswer, hruns⟩ := Option.bind_eq_some_iff.mp hruns
  obtain ⟨outputs, houtputs, hvalues⟩ := Option.map_eq_some_iff.mp hruns
  simp only [Prod.mk.injEq] at hvalues
  obtain ⟨hrows, hkeys, hdirections, hlimit⟩ := hvalues
  have hrun := toOption_eq_some.mp hanswer
  obtain ⟨outputs', houtputs', -, hordered⟩ := execute_ordered hrun
  obtain rfl : outputs' = outputs :=
    Except.ok.inj (houtputs'.symm.trans (toOption_eq_some.mp houtputs))
  have htypes : ∀ o ∈ outputs', List.Forall₂ Value.HasType [.integer] o.keys := by
    have hall : ∀ keys ∈ outputs'.map (·.keys), List.Forall₂ Value.HasType [.integer] keys := by
      rw [hkeys]
      simp [Value.HasType, Value.dataType]
    exact fun o ho => hall _ (List.mem_map_of_mem ho)
  obtain ⟨sorted, hperm, hsorted, -, hanswer⟩ := hordered _ htypes
  rw [hdirections] at hsorted
  rw [hlimit] at hanswer
  exact ⟨q, answer, outputs', sorted, toOption_eq_some.mp hq, hrun, hrows, hkeys, hperm, hsorted,
    hanswer⟩

end Query

end PrivateSql
