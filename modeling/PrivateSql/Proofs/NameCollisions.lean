import Mathlib.Data.List.Nodup
import PrivateSql.Proofs.GeneratedNames
import PrivateSql.Proofs.OuterAnswer
/-!
# Generated names that collide

A generated name is a word and the lowest six digits, in base 37, of the hash of a tree.  The digits
are a number, the code of the tree, so names collide exactly when the words and the codes are the same:
never the name of a key and that of a raw aggregate, but possibly those of two keys, or of two
aggregates of one function.  Among columns of one name the last one is read; so every column of an outer
query reads what it was put in for where trees with one code are the same.

* `nameCode`, `generatedNameOfTree_eq_iff` — the code of a tree, and when two names are equal;
* `Plan.IsCollisionFree` — no two keys and no two aggregates of one function collide;
* `Plan.find_exact_item` — which exact column a generated name reads;
* `Plan.isCollisionFree_iff` — the names of a plan, and what its outer query reads;
* `Plan.names_collide` — plans whose names collide.
-/

namespace PrivateSql

/-! ## Codes -/

/-- The number of names with one word. -/
def nameCount : Nat := 2565726409

/-- The number that the hashed part of a name writes. -/
def nameCode (t : Tree) : Nat := (sipHash t.bytes).toNat % nameCount

theorem length_base37 (k n : Nat) : (base37 k n).length = k := by
  induction k generalizing n with
  | zero => rfl
  | succ k ih => rw [base37, List.length_cons, ih]

/-- The characters of names are different digits. -/
theorem nameAlphabet_inj {a b : Nat} (ha : a < 37) (hb : b < 37)
    (h : nameAlphabet.getD a '0' = nameAlphabet.getD b '0') : a = b := by
  have hnodup : nameAlphabet.Nodup := by decide
  have hlength : nameAlphabet.length = 37 := by decide
  rw [List.getD_eq_getElem?_getD, List.getD_eq_getElem?_getD,
    List.getElem?_eq_getElem (by omega), List.getElem?_eq_getElem (by omega)] at h
  exact hnodup.getElem_inj_iff.mp h

/-- The lowest digits determine the number below the power of the base. -/
theorem base37_eq_iff (k n m : Nat) : base37 k n = base37 k m ↔ n % 37 ^ k = m % 37 ^ k := by
  induction k generalizing n m with
  | zero => simp [base37, Nat.mod_one]
  | succ k ih =>
      have hdigits (x : Nat) : x % 37 ^ (k + 1) = x % 37 + 37 * (x / 37 % 37 ^ k) := by
        rw [Nat.pow_succ', Nat.mod_mul]
      have hn : n % 37 < 37 := Nat.mod_lt _ (by decide)
      have hm : m % 37 < 37 := Nat.mod_lt _ (by decide)
      rw [base37, base37, List.cons.injEq, ih, hdigits n, hdigits m]
      constructor
      · rintro ⟨hlow, hhigh⟩
        rw [nameAlphabet_inj hn hm hlow, hhigh]
      · intro h
        have hlow : n % 37 = m % 37 := by omega
        exact ⟨by rw [hlow], by omega⟩

/-- **When generated names are equal**: the words are, and the codes of the trees. -/
theorem generatedNameOfTree_eq_iff {word word' : String} {t t' : Tree} :
    generatedNameOfTree word t = generatedNameOfTree word' t' ↔
      word = word' ∧ nameCode t = nameCode t' := by
  have hcount : (37 : Nat) ^ 6 = nameCount := by decide
  have hcode : base37 6 (sipHash t.bytes).toNat = base37 6 (sipHash t'.bytes).toNat ↔
      nameCode t = nameCode t' := by
    rw [base37_eq_iff, hcount]
    rfl
  rw [← hcode, generatedNameOfTree, generatedNameOfTree, generatedName, generatedName,
    ← String.toList_inj]
  simp only [String.toList_append, String.toList_ofList]
  constructor
  · intro h
    obtain ⟨hword, hdigits⟩ := List.append_inj' h (by rw [length_base37, length_base37])
    exact ⟨String.toList_inj.mp (List.append_inj_left' hword rfl), hdigits⟩
  · rintro ⟨rfl, hdigits⟩
    rw [hdigits]

variable {N : Type}

/-! ## The names of keys and raw aggregates -/

/-- The words of aggregates are different, and none is the word of keys. -/
theorem functionWord_inj {f f' : AggregateFunction}
    (h : Text.toLower f.name = Text.toLower f'.name) : f = f' := by
  have hall : ∀ f ∈ [AggregateFunction.count, .sum, .min, .max, .mean, .variance, .deviation],
      ∀ f' ∈ [AggregateFunction.count, .sum, .min, .max, .mean, .variance, .deviation],
        Text.toLower f.name = Text.toLower f'.name → f = f' := by
    decide
  exact hall f (by cases f <;> simp) f' (by cases f' <;> simp) h

theorem functionWord_ne_keyWord (f : AggregateFunction) : Plan.keyWord ≠ Text.toLower f.name := by
  have hall : ∀ f ∈ [AggregateFunction.count, .sum, .min, .max, .mean, .variance, .deviation],
      Plan.keyWord ≠ Text.toLower f.name := by
    decide
  exact hall f (by cases f <;> simp)

/-- The column of an aggregate is named after its function and its tree. -/
theorem columnName_of_function {e : Expr N} {f : AggregateFunction} (h : e.function? = some f) :
    e.columnName = generatedNameOfTree (Text.toLower f.name) e.tree := by
  cases e <;> first | (cases h; rfl) | cases h

theorem NoisedColumn.function_eq {c : NoisedColumn N} {f : AggregateFunction}
    (h : c.aggregate.function? = some f) : c.function = f := by
  unfold NoisedColumn.function
  cases hc : c.aggregate <;> rw [hc] at h <;> first | (cases h; rfl) | cases h

namespace Plan

/-- **No collision.**  Keys with one code are the same, and so are aggregates of one function with one
code. -/
structure IsCollisionFree (q : Query N) (p : Plan N) : Prop where
  keys : ∀ k ∈ q.groupBy, ∀ k' ∈ q.groupBy, nameCode k.tree = nameCode k'.tree → k.tree = k'.tree
  aggregates : ∀ a ∈ p.columns, ∀ b ∈ p.columns, a.function = b.function →
    nameCode a.aggregate.tree = nameCode b.aggregate.tree → a.aggregate.tree = b.aggregate.tree

instance (q : Query N) (p : Plan N) : Decidable (IsCollisionFree q p) :=
  decidable_of_iff
    ((∀ k ∈ q.groupBy, ∀ k' ∈ q.groupBy, nameCode k.tree = nameCode k'.tree → k.tree = k'.tree) ∧
      ∀ a ∈ p.columns, ∀ b ∈ p.columns, a.function = b.function →
        nameCode a.aggregate.tree = nameCode b.aggregate.tree → a.aggregate.tree = b.aggregate.tree)
    ⟨fun h => ⟨h.1, h.2⟩, fun h => ⟨h.keys, h.aggregates⟩⟩

/-- Names of keys are equal when their codes are. -/
theorem keyName_eq_iff {k k' : Expr N} :
    keyName k = keyName k' ↔ nameCode k.tree = nameCode k'.tree := by
  rw [keyName, keyName, generatedNameOfTree_eq_iff]
  simp

section Columns

variable {a b : NoisedColumn N}

/-- Names of noised columns are equal when their functions and their codes are. -/
theorem name_eq_iff (ha : a.aggregate.IsRawAggregate) (hb : b.aggregate.IsRawAggregate) :
    a.name = b.name ↔
      a.function = b.function ∧ nameCode a.aggregate.tree = nameCode b.aggregate.tree := by
  obtain ⟨f, hf, -⟩ := ha
  obtain ⟨f', hf', -⟩ := hb
  rw [NoisedColumn.name, NoisedColumn.name, columnName_of_function hf, columnName_of_function hf',
    generatedNameOfTree_eq_iff, NoisedColumn.function_eq hf, NoisedColumn.function_eq hf']
  constructor
  · rintro ⟨hword, hcode⟩
    exact ⟨functionWord_inj hword, hcode⟩
  · rintro ⟨rfl, hcode⟩
    exact ⟨rfl, hcode⟩

/-- A key and an aggregate have different names. -/
theorem keyName_ne_name (k : Expr N) (ha : a.aggregate.IsRawAggregate) : keyName k ≠ a.name := by
  obtain ⟨f, hf, -⟩ := ha
  rw [NoisedColumn.name, columnName_of_function hf, keyName]
  intro h
  exact functionWord_ne_keyWord f (generatedNameOfTree_eq_iff.mp h).1

end Columns

/-! ## The column that a name reads -/

/-- **Among columns of one name the last one is read.** -/
theorem find_last_name {pre n : String} {names : List String} {row : List (Value N)}
    (hplain : ∀ m ∈ names, IsPlain m) (hlength : row.length = names.length) (hn : n ∈ names) :
    ∃ (j : Nat) (v : Value N), names[j]? = some n ∧ (∀ j', j < j' → names[j']? ≠ some n) ∧
      row[j]? = some v ∧ (rowBindings [pre] names row).find [n] = .one v := by
  have hnames : (names.zip row).map (·.1) = names := List.map_fst_zip (by omega)
  have hrow : (names.zip row).map (·.2) = row := List.map_snd_zip (by omega)
  have hsame : ∀ c ∈ names.zip row, Text.toLower c.1 = Text.toLower n → c.1 = n := by
    intro c hc h
    rwa [(hplain c.1 (List.of_mem_zip hc).1).toLower, (hplain n hn).toLower] at h
  have hsome : ((names.zip row).reverse.find? fun c =>
      Text.toLower c.1 == Text.toLower n).isSome := by
    rw [List.find?_isSome]
    rw [← hnames] at hn
    obtain ⟨c, hc, rfl⟩ := List.mem_map.mp hn
    exact ⟨c, List.mem_reverse.mpr hc, by simp⟩
  obtain ⟨c, hc⟩ := Option.isSome_iff_exists.mp hsome
  obtain ⟨hlast, later, before, hsplit, hlater⟩ := List.find?_eq_some_iff_append.mp hc
  have hzip : names.zip row = before.reverse ++ c :: later.reverse := by
    rw [← List.reverse_reverse (names.zip row), hsplit]
    simp
  have hcn : c.1 = n := by
    refine hsame c ?_ (by simpa using hlast)
    rw [hzip]
    exact List.mem_append_right _ List.mem_cons_self
  refine ⟨before.reverse.length, c.2, ?_, ?_, ?_, ?_⟩
  · rw [← hnames, hzip, List.getElem?_map, List.getElem?_append_right (le_refl _)]
    simp [hcn]
  · intro j' hj' hname
    rw [← hnames, hzip, List.getElem?_map, List.getElem?_append_right (le_of_lt hj')] at hname
    obtain ⟨k, hk⟩ : ∃ k, j' - before.reverse.length = k + 1 :=
      ⟨j' - before.reverse.length - 1, by omega⟩
    rw [hk, List.getElem?_cons_succ, Option.map_eq_some_iff] at hname
    obtain ⟨c', hc', rfl⟩ := hname
    have hother := hlater c' (List.mem_reverse.mp (List.mem_of_getElem? hc'))
    simp at hother
  · have hcell : ((names.zip row).map (·.2))[before.reverse.length]? = some c.2 := by
      rw [hzip, List.getElem?_map, List.getElem?_append_right (le_refl _)]
      simp
    rwa [hrow] at hcell
  · have hentry := @PathMap.findEntry_ofList_under _ pre n (names.zip row) c.2 (by rw [hc]; rfl)
    rw [rowBindings, PathMap.find, hentry]
    rfl

variable {q : Query N} {scope : Scope N} {table : Schema N} {recombined : List (Recombination N)}

/-- The items of the inner query: the keys, then the raw aggregates. -/
theorem mem_inner_select {i : SelectItem N} :
    i ∈ (innerQuery q (rawAggregates q recombined)).select ↔
      (∃ k ∈ q.groupBy, i = .of k (some (keyName k))) ∨
        ∃ e ∈ rawAggregates q recombined, i = .of e (some e.columnName) := by
  simp only [innerQuery, List.mem_append, List.mem_map, eq_comm]

/-- The names of the inner query are plain. -/
theorem isPlain_inner_name {n : String}
    (hn : n ∈ (innerQuery q (rawAggregates q recombined)).names) : IsPlain n := by
  obtain ⟨i, hi, rfl⟩ := List.mem_map.mp hn
  rcases mem_inner_select.mp hi with ⟨k, -, rfl⟩ | ⟨e, -, rfl⟩
  · exact isPlain_keyName k
  · exact isPlain_columnName e

variable [Number N]

/-- The noised columns are the raw aggregates. -/
theorem mem_columns_assemble {c : NoisedColumn N} :
    c ∈ (assemble q scope table recombined).columns ↔
      ∃ e ∈ rawAggregates q recombined, c = ⟨e, e.dataType scope, e.sensitivity scope⟩ := by
  simp only [assemble, List.mem_map, eq_comm]

/-- Without collisions, items of the inner query with one name have one tree. -/
theorem tree_eq_of_name_eq
    (hrecombined : q.aggregates.mapM Recombination.of = .ok recombined)
    (hfree : (assemble q scope table recombined).IsCollisionFree q) {i j : SelectItem N}
    (hi : i ∈ (innerQuery q (rawAggregates q recombined)).select)
    (hj : j ∈ (innerQuery q (rawAggregates q recombined)).select) (h : i.name = j.name) :
    i.expr.tree = j.expr.tree := by
  have hcolumn : ∀ e ∈ rawAggregates q recombined,
      (⟨e, e.dataType scope, e.sensitivity scope⟩ : NoisedColumn N) ∈
        (assemble q scope table recombined).columns ∧ e.IsRawAggregate :=
    fun e he => ⟨mem_columns_assemble.mpr ⟨e, he, rfl⟩,
      isRawAggregate_of_mem_rawAggregates hrecombined he⟩
  rcases mem_inner_select.mp hi with ⟨k, hk, rfl⟩ | ⟨e, he, rfl⟩ <;>
    rcases mem_inner_select.mp hj with ⟨k', hk', rfl⟩ | ⟨e', he', rfl⟩
  · exact hfree.keys k hk k' hk' (keyName_eq_iff.mp h)
  · obtain ⟨-, hraw⟩ := hcolumn e' he'
    exact absurd h (keyName_ne_name (a := ⟨e', e'.dataType scope, e'.sensitivity scope⟩) k hraw)
  · obtain ⟨-, hraw⟩ := hcolumn e he
    exact absurd h.symm
      (keyName_ne_name (a := ⟨e, e.dataType scope, e.sensitivity scope⟩) k' hraw)
  · obtain ⟨hmem, hraw⟩ := hcolumn e he
    obtain ⟨hmem', hraw'⟩ := hcolumn e' he'
    obtain ⟨hfunction, hcode⟩ := (name_eq_iff
      (a := ⟨e, e.dataType scope, e.sensitivity scope⟩)
      (b := ⟨e', e'.dataType scope, e'.sensitivity scope⟩) hraw hraw').mp h
    exact hfree.aggregates _ hmem _ hmem' hfunction hcode

/-- **An exact column is read by its name.**  A generated name finds the cell of the last exact column of
this name, also beside outputs of which none answers for it; without collisions this is a column of the
same tree. -/
theorem find_exact_item {row : List (Value N)}
    (hrecombined : q.aggregates.mapM Recombination.of = .ok recombined)
    (hrow : row.length = (assemble q scope table recombined).exactNames.length) {i : SelectItem N}
    (hi : i ∈ (innerQuery q (rawAggregates q recombined)).select) :
    ∃ (k : Nat) (j : SelectItem N) (v : Value N),
      (innerQuery q (rawAggregates q recombined)).select[k]? = some j ∧ row[k]? = some v ∧
      j.name = i.name ∧
      (∀ k' j', k < k' → (innerQuery q (rawAggregates q recombined)).select[k']? = some j' →
        j'.name ≠ i.name) ∧
      (rowBindings [exactPath] (assemble q scope table recombined).exactNames row).find [i.name] =
        .one v ∧
      (∀ values, values.length = q.select.length → q.outputNamed? [i.name] = none →
        ((rowBindings [exactPath] (assemble q scope table recombined).exactNames row).insertAll
          (q.outputBindings values)).find [i.name] = .one v) ∧
      ((assemble q scope table recombined).IsCollisionFree q → j.expr.tree = i.expr.tree) := by
  have hnames : (innerQuery q (rawAggregates q recombined)).names =
      (assemble q scope table recombined).exactNames := names_inner q scope table recombined
  rw [← hnames] at hrow ⊢
  obtain ⟨k, v, hname, hlater, hcell, hfound⟩ :=
    find_last_name (fun _ => isPlain_inner_name) hrow (List.mem_map_of_mem hi)
  rw [Query.names, List.getElem?_map, Option.map_eq_some_iff] at hname
  obtain ⟨j, hj, hjname⟩ := hname
  refine ⟨k, j, v, hj, hcell, hjname, ?_, hfound, ?_, ?_⟩
  · intro k' j' hk' hj' hsame
    refine hlater k' hk' ?_
    rw [Query.names, List.getElem?_map, hj', Option.map_some, hsame]
  · intro values hvalues hnone
    have hside : List.Forall₂ (fun _ _ => True) q.select values :=
      List.forall₂_iff_zip.mpr ⟨hvalues.symm, fun _ => trivial⟩
    rcases Query.find_beside_outputs hside (List.cons_ne_nil i.name []) with
      ⟨-, hbeside⟩ | ⟨item, _, hsome, -⟩
    · rw [hbeside, hfound]
    · rw [hnone] at hsome
      cases hsome
  · exact fun hfree => tree_eq_of_name_eq hrecombined hfree (List.mem_of_getElem? hj) hi hjname

/-! ## What replaces an expression -/

/-- **What an expression is read from.**  It stands for a key, as it is or as a column of the same
meaning, or it is an aggregate that is put together from this raw one. -/
def IsReadFrom (q : Query N) (scope : Scope N) (t e : Expr N) : Prop :=
  (e ∈ q.groupBy ∧
    (e.tree = t.tree ∨ ∃ c, t.tree = (Expr.column c : Expr N).tree ∧ keyOf? q scope c = some e)) ∨
  ∃ a ∈ q.aggregates, a.tree = t.tree ∧ ∃ r, Recombination.of a = .ok r ∧
    ∃ e' ∈ r.raw, e'.tree = e.tree

omit [Number N] in
/-- The columns of what replaces an expression are named after what it is read from. -/
theorem exists_item_of_replacement
    (hrecombined : q.aggregates.mapM Recombination.of = .ok recombined) {t r : Expr N}
    (h : (replacements q scope recombined).find? t = some r) {c : Identifier} (hc : c ∈ r.columns) :
    ∃ i ∈ (innerQuery q (rawAggregates q recombined)).select, i.name = c.text ∧
      IsReadFrom q scope t i.expr := by
  rcases Substitution.find?_insertMany h with ⟨x, hx, htree, rfl⟩ | hkeys
  · obtain ⟨⟨a, r⟩, hzip, rfl⟩ := List.mem_map.mp hx
    have hof : Recombination.of a = .ok r := eq_ok_of_mem_zip hrecombined hzip
    obtain ⟨hraws, -, hcolumns⟩ := Recombination.of_spec hof
    obtain ⟨e, he, hname⟩ := hcolumns c hc
    obtain ⟨e', he', htree'⟩ := exists_mem_rawAggregates (List.of_mem_zip hzip).2 he
    have hraw' := isRawAggregate_of_mem_rawAggregates hrecombined he'
    refine ⟨.of e' (some e'.columnName), mem_inner_select.mpr (.inr ⟨e', he', rfl⟩), ?_, ?_⟩
    · rw [hname]
      exact Expr.columnName_congr hraw'.isAggregate (hraws e he).isAggregate htree'
    · exact .inr ⟨a, (List.of_mem_zip hzip).1, htree, r, hof, e, he, htree'.symm⟩
  · obtain ⟨key, hkey, rfl, hstands⟩ := keyReplacements_sound hkeys
    obtain rfl : c = ⟨keyName key⟩ := by simpa [Expr.ofColumn] using hc
    exact ⟨.of key (some (keyName key)), mem_inner_select.mpr (.inl ⟨key, hkey, rfl⟩), rfl,
      .inl ⟨hkey, hstands⟩⟩

/-- **Generated names.**  In a plan no key shares its name with a raw aggregate.  Names of keys and of
raw aggregates are equal for equal trees only, exactly when trees with one code are the same among the
keys, and among the aggregates of each function.  Then every column that an expression was replaced by
reads, on each exact row, the cell of an exact column of what the expression is read from, also beside
outputs of which none answers for its name. -/
theorem isCollisionFree_iff {catalog : Catalog N} {p : Plan N} (h : Plan.of q catalog = .ok p) :
    (∀ k ∈ q.groupBy, ∀ c ∈ p.columns, keyName k ≠ c.name) ∧
      (p.IsCollisionFree q ↔
        (∀ a ∈ p.columns, ∀ b ∈ p.columns, a.name = b.name →
          a.aggregate.tree = b.aggregate.tree) ∧
        ∀ k ∈ q.groupBy, ∀ k' ∈ q.groupBy, keyName k = keyName k' → k.tree = k'.tree) ∧
      ∃ scope table recombined, p = assemble q scope table recombined ∧
        (p.IsCollisionFree q → ∀ t r, (replacements q scope recombined).find? t = some r →
          ∀ c ∈ r.columns, ∃ i ∈ p.inner.select, i.name = c.text ∧ IsReadFrom q scope t i.expr ∧
            ∀ row : List (Value N), row.length = p.exactNames.length →
              ∃ (k : Nat) (j : SelectItem N) (v : Value N), p.inner.select[k]? = some j ∧
                row[k]? = some v ∧ j.expr.tree = i.expr.tree ∧
                (rowBindings [exactPath] p.exactNames row).find [c.text] = .one v ∧
                ∀ values, values.length = q.select.length → q.outputNamed? [c.text] = none →
                  ((rowBindings [exactPath] p.exactNames row).insertAll
                    (q.outputBindings values)).find [c.text] = .one v) := by
  obtain ⟨scope, table, recombined, -, -, -, hrecombined, rfl⟩ := of_eq_ok h
  have hraw : ∀ c ∈ (assemble q scope table recombined).columns, c.aggregate.IsRawAggregate := by
    intro c hc
    obtain ⟨e, he, rfl⟩ := mem_columns_assemble.mp hc
    exact isRawAggregate_of_mem_rawAggregates hrecombined he
  refine ⟨fun k _ c hc => keyName_ne_name k (hraw c hc), ⟨?_, ?_⟩, scope, table, recombined, rfl, ?_⟩
  · intro hfree
    refine ⟨fun a ha b hb hname => ?_, fun k hk k' hk' hname => ?_⟩
    · obtain ⟨hfunction, hcode⟩ := (name_eq_iff (hraw a ha) (hraw b hb)).mp hname
      exact hfree.aggregates a ha b hb hfunction hcode
    · exact hfree.keys k hk k' hk' (keyName_eq_iff.mp hname)
  · rintro ⟨hcolumns, hkeys⟩
    exact ⟨fun k hk k' hk' hcode => hkeys k hk k' hk' (keyName_eq_iff.mpr hcode),
      fun a ha b hb hfunction hcode =>
        hcolumns a ha b hb ((name_eq_iff (hraw a ha) (hraw b hb)).mpr ⟨hfunction, hcode⟩)⟩
  · intro hfree t r hr c hc
    obtain ⟨i, hi, hname, hread⟩ := exists_item_of_replacement hrecombined hr hc
    refine ⟨i, hi, hname, hread, fun row hrow => ?_⟩
    obtain ⟨k, j, v, hj, hv, -, -, hfound, hbeside, htree⟩ :=
      find_exact_item hrecombined hrow hi
    rw [hname] at hfound hbeside
    exact ⟨k, j, v, hj, hv, htree hfree, hfound, hbeside⟩

/-- The plan of a text over a dataset of integers, if there is one. -/
def planText (values : List Int64) (text : String) : Option (Query Binary64 × Plan Binary64) := do
  let q ← (Query.parse text).toOption
  let p ← (Plan.of q (integerDataset Binary64 values).catalog).toOption
  return (q, p)

theorem planText_eq_some {values : List Int64} {text : String} {q : Query Binary64}
    {p : Plan Binary64} (h : planText values text = some (q, p)) :
    Query.parse text = .ok q ∧ Plan.of q (integerDataset Binary64 values).catalog = .ok p := by
  obtain ⟨q, hq, h⟩ := Option.bind_eq_some_iff.mp h
  obtain ⟨p, hp, h⟩ := Option.bind_eq_some_iff.mp h
  cases h
  exact ⟨toOption_eq_some.mp hq, toOption_eq_some.mp hp⟩

/-- The mean of a column by another expression of it: four exact columns of different names. -/
theorem isCollisionFree_mean : ∃ q p,
    Query.parse "SELECT x + 1, AVG(x) FROM t GROUP BY x + 1 HAVING COUNT(*) > 1" = .ok q ∧
      Plan.of q (integerDataset Binary64 [5, 7, 5]).catalog = .ok p ∧ p.columns.length = 3 ∧
      (∀ a ∈ p.columns, ∀ b ∈ p.columns, a.name = b.name → a.aggregate.tree = b.aggregate.tree) ∧
      ∀ k ∈ q.groupBy, ∀ c ∈ p.columns, keyName k ≠ c.name := by
  have hruns : ((planText [5, 7, 5]
      "SELECT x + 1, AVG(x) FROM t GROUP BY x + 1 HAVING COUNT(*) > 1").map fun (q, p) =>
        (p.columns.length, decide (p.IsCollisionFree q))) = some (3, true) := by
    decide +kernel
  obtain ⟨⟨q, p⟩, hplan, hvalues⟩ := Option.map_eq_some_iff.mp hruns
  obtain ⟨hlength, hfree⟩ := Prod.ext_iff.mp hvalues
  obtain ⟨hq, hp⟩ := planText_eq_some hplan
  obtain ⟨hapart, hiff, -⟩ := isCollisionFree_iff hp
  exact ⟨q, p, hq, hp, hlength, (hiff.mp (of_decide_eq_true hfree)).1, hapart⟩

/-- Queries over the rows 0, 1 and 0 with two aggregates or two keys of one name: their rows, and those of
their outer queries. -/
def colliding : List (String × List (List (Value Binary64)) × List (List (Value Binary64))) :=
  [("SELECT SUM(x + 31144) AS a, SUM(x + 56598) AS b FROM t",
      [[.integer 93433, .integer 169795]], [[.integer 169795, .integer 169795]]),
    ("SELECT x + 11074 AS k FROM t GROUP BY x + 11074, x + 26298",
      [[.integer 11074], [.integer 11075]], [[.integer 26298], [.integer 26299]])]

/-- **Names that collide.**  Two sums have one name, and so have two keys, although their trees differ;
the outer query reads the second one for both. -/
theorem names_collide :
    colliding.Forall fun x => ∃ q p answer outer, Query.parse x.1 = .ok q ∧
      Preparation.of q (integerDataset Binary64 [0, 1, 0]) = .ok p ∧
      (∃ i ∈ p.plan.inner.select, ∃ j ∈ p.plan.inner.select,
        i.name = j.name ∧ i.expr.tree ≠ j.expr.tree) ∧
      (integerDataset Binary64 [0, 1, 0]).run q = .ok answer ∧ answer.rows = x.2.1 ∧
      (integerDataset Binary64 [0, 1, 0]).run p.plan.outer = .ok outer ∧ outer.rows = x.2.2 ∧
      x.2.1 ≠ x.2.2 := by
  have hruns : ∀ x ∈ colliding, ((answerText (integerDataset Binary64 [0, 1, 0]) x.1).map
      fun (_, p, answer, _, _) => (answer.rows,
        ((integerDataset Binary64 [0, 1, 0]).run p.plan.outer).toOption.map (·.rows),
        decide (∃ i ∈ p.plan.inner.select, ∃ j ∈ p.plan.inner.select,
          i.name = j.name ∧ i.expr.tree ≠ j.expr.tree))) = some (x.2.1, some x.2.2, true) := by
    decide +kernel
  have hdiffer : ∀ x ∈ colliding, x.2.1 ≠ x.2.2 := by
    decide +kernel
  rw [List.forall_iff_forall_mem]
  intro x hx
  obtain ⟨⟨q, p, answer, scope, kept⟩, htext, hvalues⟩ := Option.map_eq_some_iff.mp (hruns x hx)
  obtain ⟨hrows, hvalues⟩ := Prod.ext_iff.mp hvalues
  obtain ⟨houter, hcollide⟩ := Prod.ext_iff.mp hvalues
  obtain ⟨outer, hrun, houterRows⟩ := Option.map_eq_some_iff.mp houter
  obtain ⟨hq, h⟩ := answered_of_answerText (isBuilt_integerDataset _) htext
  exact ⟨q, p, answer, outer, hq, h.prepared, of_decide_eq_true hcollide, h.answered, hrows,
    toOption_eq_some.mp hrun, houterRows, hdiffer x hx⟩

end Plan

end PrivateSql
