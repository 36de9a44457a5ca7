import PrivateSql.Execution.Dataset
/-!
# A sample table

A table of a thousand persons to try queries on: 451 are not married and then 549 are, ages run from
18 to 97, and each of the ten levels of education has a hundred rows.

* `Sample.persons` — the table;
* `Sample.dataset` — the dataset that holds it.
-/

namespace PrivateSql.Sample

variable {N : Type} [Number N]

/-- A column of integers with its bounds. -/
def integerField (name : String) (lower upper : Int) : Field N :=
  ⟨name, .integer, some (Number.ofInt lower), some (Number.ofInt upper)⟩

/-- The schema of the table, with the declared bounds of its columns. -/
def schema : Schema N where
  name := "PUMS.PUMS"
  rows := 1000
  fields :=
    [integerField "age" 0 100, integerField "sex" 0 1, integerField "educ" 1 16,
      ⟨"income", .float, some (Number.ofInt 0), some (Number.ofInt 500000)⟩,
      integerField "married" 0 1]

/-- The person of a row. -/
def person (i : Nat) : List (Value N) :=
  let age := 18 + i * 37 % 80
  [.integer (Int64.ofNat age), .integer (Int64.ofNat (i % 2)), .integer (Int64.ofNat (i % 10 + 1)),
    .float (Number.ofInt (1000 * age)), .integer (if i < 451 then 0 else 1)]

/-- The table. -/
def persons : Table N := ⟨schema, (List.range 1000).map person⟩

/-- The catalog of the table. -/
def catalog : Catalog N := .ofSchemas [schema]

/-- The dataset that holds the table. -/
def dataset : Dataset N := .ofTables [persons]

end PrivateSql.Sample
