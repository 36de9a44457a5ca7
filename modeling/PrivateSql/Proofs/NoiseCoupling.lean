import PrivateSql.Proofs.RoundedCounts
/-!
# Noise does not depend on data

Two releases of rows of the same number run side by side from the same words.  Nothing that is drawn is
looked at before the next draw, and nothing of a row but that its calibrated cells are there decides what
is drawn: the noise of a release is one matrix, drawn row by row and calibration by calibration, whatever
the cells are, and the released rows are computed from the exact rows and the matrix.  This holds for any
sampler, however many words it takes for a draw.

Noise is added where the calibrations say, so two calibrations of one column noise its cell twice, and
the second noise is added to a rounded cell; the noise of a cell is then no number.

* `drawNoise`, `noisedRow` — the matrix, and what is made of a row with its noise;
* `noiseRowBy_eq`, `noiseRowsBy_eq` — noising is drawing the matrix, then adding it;
* `IsNoised` — rows released with a matrix of noise, cell by cell;
* `noiseRows_couple` — two releases share their noise;
* `noiseRows_twice` — a column with two calibrations, which has no noise of its own.
-/

namespace PrivateSql

variable {N : Type} [Number N]

/-! ## Noise of any sampler -/

/-- The number a cell counts for when it is noised; nothing counts as 0. -/
def Value.amount (v : Value N) : N := v.number?.getD Number.zero

/-- The noised cell, where a sampler draws the noise of a scale. -/
def Calibration.releaseBy (draw : N → Drawing N) (c : Calibration N) (v : Value N) :
    Drawing (Value N) := do
  let exact ← Drawing.ofExcept (exactNumber v)
  return c.cellOf (exact + (← draw c.scale))

/-- A row with its calibrated cells noised, one after the other. -/
def noiseRowBy (draw : N → Drawing N) (cs : List (Calibration N)) (row : List (Value N)) :
    Drawing (List (Value N)) :=
  cs.foldlM
    (fun row c => do return row.set c.index (← c.releaseBy draw (row.getD c.index .null))) row

/-- Rows with their calibrated cells noised. -/
def noiseRowsBy (draw : N → Drawing N) (cs : List (Calibration N)) (rows : List (List (Value N))) :
    Drawing (List (List (Value N))) :=
  rows.mapM (noiseRowBy draw cs)

/-- A mechanism noises with its own sampler. -/
theorem noiseRows_eq_by (cs : List (Calibration N)) (m : Mechanism) :
    noiseRows cs m = noiseRowsBy m.noise cs := by
  have hrelease : ∀ c : Calibration N, c.release m = c.releaseBy m.noise := by
    intro c
    funext v
    simp only [Calibration.release, Calibration.releaseBy, Mechanism.release, bind_assoc, pure_bind]
  funext rows
  refine mapM_congr_left fun row _ => ?_
  simp only [noiseRow, noiseRowBy, hrelease]

/-- A cell that can be noised is there, and it is `NULL` or a number. -/
def Calibration.CanNoise (c : Calibration N) (row : List (Value N)) : Prop :=
  ∃ v, row[c.index]? = some v ∧ (v = .null ∨ v.number?.isSome)

/-! ## The matrix of noise -/

/-- The noise of a row, a draw for each calibration. -/
def drawRow (draw : N → Drawing N) (cs : List (Calibration N)) : Drawing (List N) :=
  cs.mapM fun c => draw c.scale

/-- The noise of so many rows. -/
def drawNoise (draw : N → Drawing N) (cs : List (Calibration N)) (height : Nat) :
    Drawing (List (List N)) :=
  (List.replicate height cs).mapM (drawRow draw)

/-- A row with its noise added, one calibration after the other. -/
def noisedRow : List (Calibration N) → List (Value N) → List N → List (Value N)
  | c :: cs, row, x :: xs =>
    noisedRow cs (row.set c.index (c.cellOf ((row.getD c.index .null).amount + x))) xs
  | _, row, _ => row

theorem exactNumber_of_numeric {v : Value N} (h : v = .null ∨ v.number?.isSome) :
    Calibration.exactNumber v = .ok v.amount := by
  cases v with
  | null => rfl
  | integer i => rfl
  | float x => rfl
  | boolean b => simp [Value.number?] at h
  | text s => simp [Value.number?] at h

/-- A released cell is a number. -/
theorem isSome_number?_cellOf (c : Calibration N) (noisy : N) : (c.cellOf noisy).number?.isSome := by
  unfold Calibration.cellOf
  split <;> rfl

/-- Noising one cell leaves cells that can be noised. -/
theorem Calibration.CanNoise.set {c : Calibration N} {row : List (Value N)} (h : c.CanNoise row)
    (c' : Calibration N) (noisy : N) : c.CanNoise (row.set c'.index (c'.cellOf noisy)) := by
  obtain ⟨v, hv, hnumeric⟩ := h
  obtain ⟨hlt, -⟩ := List.getElem?_eq_some_iff.mp hv
  by_cases hsame : c'.index = c.index
  · refine ⟨c'.cellOf noisy, ?_, .inr (isSome_number?_cellOf c' noisy)⟩
    rw [hsame, List.getElem?_set_self hlt]
  · exact ⟨v, by rw [List.getElem?_set_ne hsame, hv], hnumeric⟩

/-- **Noising a row** is drawing its noise, then adding it: no draw waits for a cell. -/
theorem noiseRowBy_eq (draw : N → Drawing N) {cs : List (Calibration N)} {row : List (Value N)}
    (h : ∀ c ∈ cs, c.CanNoise row) :
    noiseRowBy draw cs row = (do
      let xs ← drawRow draw cs
      return noisedRow cs row xs) := by
  induction cs generalizing row with
  | nil => simp [noiseRowBy, drawRow, noisedRow]
  | cons c cs ih =>
      obtain ⟨⟨v, hv, hnumeric⟩, hrest⟩ := List.forall_mem_cons.mp h
      have hcell : row.getD c.index .null = v := by
        rw [List.getD_eq_getElem?_getD, hv, Option.getD_some]
      have hexact : Calibration.exactNumber (row.getD c.index .null) = .ok v.amount := by
        rw [hcell, exactNumber_of_numeric hnumeric]
      have htail : ∀ x, noiseRowBy draw cs (row.set c.index (c.cellOf (v.amount + x))) = (do
          let xs ← drawRow draw cs
          return noisedRow cs (row.set c.index (c.cellOf (v.amount + x))) xs) :=
        fun x => ih fun c' hc' => (hrest c' hc').set c _
      calc noiseRowBy draw (c :: cs) row
          = (do
              let x ← draw c.scale
              noiseRowBy draw cs (row.set c.index (c.cellOf (v.amount + x)))) := by
            simp only [noiseRowBy, List.foldlM_cons, Calibration.releaseBy, hexact, Drawing.ofExcept,
              bind_assoc, pure_bind]
        _ = (do
              let x ← draw c.scale
              let xs ← drawRow draw cs
              return noisedRow cs (row.set c.index (c.cellOf (v.amount + x))) xs) := by
            simp only [htail]
        _ = (do
              let xs ← drawRow draw (c :: cs)
              return noisedRow (c :: cs) row xs) := by
            simp only [drawRow, List.mapM_cons, bind_assoc, pure_bind, noisedRow, hcell]

/-- **Noising rows** is drawing their matrix of noise, then adding it. -/
theorem noiseRowsBy_eq (draw : N → Drawing N) {cs : List (Calibration N)}
    {rows : List (List (Value N))} (h : ∀ row ∈ rows, ∀ c ∈ cs, c.CanNoise row) :
    noiseRowsBy draw cs rows = (do
      let noise ← drawNoise draw cs rows.length
      return List.zipWith (noisedRow cs) rows noise) := by
  induction rows with
  | nil => simp [noiseRowsBy, drawNoise]
  | cons row rows ih =>
      obtain ⟨hrow, hrest⟩ := List.forall_mem_cons.mp h
      have htail := ih hrest
      simp only [noiseRowsBy, drawNoise] at htail ⊢
      rw [List.mapM_cons, htail, noiseRowBy_eq draw hrow]
      simp only [List.length_cons, List.replicate_succ, List.mapM_cons, bind_assoc, pure_bind,
        List.zipWith_cons_cons]

/-! ## Cells -/

/-- Cells without calibration are kept. -/
theorem noisedRow_of_not_mem {cs : List (Calibration N)} {j : Nat} (h : ∀ c ∈ cs, c.index ≠ j)
    (row : List (Value N)) (xs : List N) : (noisedRow cs row xs)[j]? = row[j]? := by
  induction cs generalizing row xs with
  | nil => rfl
  | cons c cs ih =>
      obtain ⟨hc, hrest⟩ := List.forall_mem_cons.mp h
      cases xs with
      | nil => rfl
      | cons x xs => rw [noisedRow, ih hrest, List.getElem?_set_ne hc]

/-- **A column with one calibration.**  Its cell is rounded from the exact number and the noise drawn for
this calibration. -/
theorem noisedRow_cell {cs : List (Calibration N)} {k : Nat} {c : Calibration N} {x : N}
    {row : List (Value N)} {xs : List N} {v : Value N} (hc : cs[k]? = some c) (hx : xs[k]? = some x)
    (hv : row[c.index]? = some v)
    (hsingle : ∀ i c', cs[i]? = some c' → c'.index = c.index → i = k) :
    (noisedRow cs row xs)[c.index]? = some (c.cellOf (v.amount + x)) := by
  induction cs generalizing k row xs with
  | nil => cases hc
  | cons first cs ih =>
      cases xs with
      | nil => cases hx
      | cons x₁ xs =>
          rw [noisedRow]
          cases k with
          | zero =>
              obtain rfl : first = c := Option.some.inj hc
              obtain rfl : x₁ = x := Option.some.inj hx
              obtain ⟨hlt, -⟩ := List.getElem?_eq_some_iff.mp hv
              have hothers : ∀ c' ∈ cs, c'.index ≠ first.index := by
                intro c' hc' hsame
                obtain ⟨i, hi⟩ := List.mem_iff_getElem?.mp hc'
                exact Nat.succ_ne_zero i (hsingle (i + 1) c' hi hsame)
              rw [noisedRow_of_not_mem hothers, List.getElem?_set_self hlt,
                List.getD_eq_getElem?_getD, hv, Option.getD_some]
          | succ k =>
              have hfirst : first.index ≠ c.index := fun hsame =>
                Nat.succ_ne_zero k (hsingle 0 first rfl hsame).symm
              refine ih hc hx (by rw [List.getElem?_set_ne hfirst, hv]) fun i c' hi hsame => ?_
              exact Nat.succ.inj (hsingle (i + 1) c' hi hsame)

/-- Rows released with a matrix of noise, which has a row for each of them and a column for each
calibration.  A row is its exact row with the noise added in the order of the calibrations, so the cell of
a column with one calibration is rounded from its exact number and its noise, and a cell without
calibration is kept. -/
structure IsNoised (cs : List (Calibration N)) (rows : List (List (Value N)))
    (noise : List (List N)) (released : List (List (Value N))) : Prop where
  height : noise.length = rows.length
  width : ∀ xs ∈ noise, xs.length = cs.length
  rows_eq : released = List.zipWith (noisedRow cs) rows noise
  cell : ∀ (i k : Nat) row xs c x v, rows[i]? = some row → noise[i]? = some xs →
    cs[k]? = some c → xs[k]? = some x → row[c.index]? = some v →
    (∀ k' c', cs[k']? = some c' → c'.index = c.index → k' = k) →
      (released[i]?.bind fun out => out[c.index]?) = some (c.cellOf (v.amount + x))
  kept : ∀ (i j : Nat) row, rows[i]? = some row → (∀ c ∈ cs, c.index ≠ j) →
    (released[i]?.bind fun out => out[j]?) = row[j]?

/-- Adding a matrix that was drawn for the rows. -/
theorem isNoised_of_gives {draw : N → Drawing N} {cs : List (Calibration N)}
    {rows : List (List (Value N))} {noise : List (List N)} {w w' : Words}
    (h : (drawNoise draw cs rows.length).Gives w noise w') :
    IsNoised cs rows noise (List.zipWith (noisedRow cs) rows noise) := by
  have hforall := Drawing.forall₂_of_gives_mapM h
  have hheight : noise.length = rows.length := by
    rw [← hforall.length_eq, List.length_replicate]
  have hreleased : ∀ (i : Nat) (row : List (Value N)), rows[i]? = some row → ∃ xs,
      noise[i]? = some xs ∧
        (List.zipWith (noisedRow cs) rows noise)[i]? = some (noisedRow cs row xs) := by
    intro i row hrow
    obtain ⟨hlt, -⟩ := List.getElem?_eq_some_iff.mp hrow
    have hxs := List.getElem?_eq_getElem (hheight ▸ hlt : i < noise.length)
    exact ⟨_, hxs, by rw [List.getElem?_zipWith, hrow, hxs]⟩
  refine ⟨hheight, ?_, rfl, ?_, ?_⟩
  · intro xs hxs
    obtain ⟨cs', hcs', w₁, w₂, hdrawn⟩ := exists_left_of_forall₂ hforall hxs
    obtain rfl := List.eq_of_mem_replicate hcs'
    exact (Drawing.forall₂_of_gives_mapM hdrawn).length_eq.symm
  · intro i k row xs c x v hrow hxs hc hx hv hsingle
    obtain ⟨xs', hxs', hout⟩ := hreleased i row hrow
    obtain rfl := Option.some.inj (hxs.symm.trans hxs')
    rw [hout, Option.bind_some, noisedRow_cell hc hx hv hsingle]
  · intro i j row hrow hnone
    obtain ⟨xs, -, hout⟩ := hreleased i row hrow
    rw [hout, Option.bind_some, noisedRow_of_not_mem hnone]

/-! ## Two releases -/

/-- **Noise does not depend on data.**  Let two lists of as many rows have cells to noise where the
calibrations say.  From the same words their releases fail alike, on a scale that the sampler refuses, or
there is one matrix of noise, drawn without the rows, with which both are released, and both leave the
same words.  This holds for the sampler of a mechanism and for any other one. -/
theorem noiseRows_couple (cs : List (Calibration N)) {rows rows' : List (List (Value N))}
    (hheight : rows.length = rows'.length) (h : ∀ row ∈ rows, ∀ c ∈ cs, c.CanNoise row)
    (h' : ∀ row ∈ rows', ∀ c ∈ cs, c.CanNoise row) :
    (∀ m : Mechanism, noiseRows cs m = noiseRowsBy m.noise cs) ∧
      ∀ (draw : N → Drawing N) (w : Words),
        (∃ c ∈ cs, ∃ w₁ e w', (draw c.scale).Fails w₁ e w' ∧
          (noiseRowsBy draw cs rows).Fails w e w' ∧ (noiseRowsBy draw cs rows').Fails w e w') ∨
        ∃ noise released released' w',
          (drawNoise draw cs rows.length).Gives w noise w' ∧
          (noiseRowsBy draw cs rows).Gives w released w' ∧ IsNoised cs rows noise released ∧
          (noiseRowsBy draw cs rows').Gives w released' w' ∧ IsNoised cs rows' noise released' := by
  refine ⟨noiseRows_eq_by cs, fun draw w => ?_⟩
  rw [noiseRowsBy_eq draw h, noiseRowsBy_eq draw h', ← hheight]
  rcases Drawing.gives_or_fails (drawNoise draw cs rows.length) w with
    ⟨noise, w', hnoise⟩ | ⟨e, w', hfails⟩
  · refine .inr ⟨noise, _, _, w', hnoise, ?_, isNoised_of_gives hnoise, ?_,
      isNoised_of_gives (hheight ▸ hnoise)⟩
    · exact Drawing.gives_bind.mpr ⟨noise, w', hnoise, Drawing.gives_pure.mpr ⟨rfl, rfl⟩⟩
    · exact Drawing.gives_bind.mpr ⟨noise, w', hnoise, Drawing.gives_pure.mpr ⟨rfl, rfl⟩⟩
  · obtain ⟨cs', hcs', w₁, hrow⟩ := Drawing.exists_of_fails_mapM hfails
    obtain rfl := List.eq_of_mem_replicate hcs'
    obtain ⟨c, hc, w₂, hdraw⟩ := Drawing.exists_of_fails_mapM hrow
    exact .inl ⟨c, hc, w₂, e, w', hdraw, Drawing.fails_bind.mpr (.inl hfails),
      Drawing.fails_bind.mpr (.inl hfails)⟩

/-- A count of two groups, next to the counts of two other groups. -/
theorem noiseRows_couple_counts :
    ∃ noise released released' w',
      (noiseRows [⟨1, .count, .integer, 1, 1⟩] .laplace
          [[.integer 5, .integer 2], [.integer 7, .null]]).Gives (.ofList []) released w' ∧
        IsNoised [⟨1, .count, .integer, 1, (1 : ℝ)⟩]
          [[.integer 5, .integer 2], [.integer 7, .null]] noise released ∧
      (noiseRows [⟨1, .count, .integer, 1, 1⟩] .laplace
          [[.integer 6, .integer 3], [.text "x", .integer 1]]).Gives (.ofList []) released' w' ∧
        IsNoised [⟨1, .count, .integer, 1, (1 : ℝ)⟩]
          [[.integer 6, .integer 3], [.text "x", .integer 1]] noise released' := by
  have hheight : ([[.integer 5, .integer 2], [.integer 7, .null]] : List (List (Value ℝ))).length =
      ([[.integer 6, .integer 3], [.text "x", .integer 1]] : List (List (Value ℝ))).length := rfl
  obtain ⟨hby, hcouple⟩ := noiseRows_couple [⟨1, .count, .integer, 1, 1⟩] hheight
    (by simp [Calibration.CanNoise, Value.number?]) (by simp [Calibration.CanNoise, Value.number?])
  rw [hby .laplace]
  rcases hcouple Mechanism.laplace.noise (.ofList []) with
    ⟨c, hc, w₁, e, w', hfails, -⟩ | ⟨noise, released, released', w', -, h⟩
  · obtain rfl := List.mem_singleton.mp hc
    have hgives := gives_laplaceNoise one_pos w₁
    have hboth := (congrArg Prod.fst hfails).symm.trans (congrArg Prod.fst hgives)
    cases hboth
  · exact ⟨noise, released, released', w', h⟩

/-! ## Two calibrations of one column -/

/-- A count calibrated with a scale for which the word at three quarters has the noise 3. -/
noncomputable def coarseCount : Calibration ℝ := ⟨0, .count, .integer, 1, 3 / Real.log (2 : ℕ)⟩

/-- The words that give this noise. -/
def threeQuarters : Words := .ofList [0xC000000000000000]

theorem laplaceOfWord_threeQuarters :
    laplaceOfWord coarseCount.scale 0xC000000000000000 = 3 := by
  have hplace : placeOf 0xC000000000000000 = 3 / 4 := by
    have hbits : (0xC000000000000000 : UInt64).toNat / twoPow 12 = 3 * twoPow 50 := by
      decide
    rw [placeOf, hbits, dyadic]
    norm_num [twoPow]
  have hlog : Real.log 2 ≠ 0 := (Real.log_pos one_lt_two).ne'
  rw [laplaceOfWord_of_high (by rw [hplace]; norm_num), hplace, coarseCount,
    show (2 * (1 - 3 / 4) : ℝ) = 2⁻¹ by norm_num, Real.log_inv, Nat.cast_ofNat]
  field_simp

/-- The cell of an integer that is counted. -/
theorem cellOf_coarseCount (z : ℤ) :
    coarseCount.cellOf (z : ℝ) = .integer (Binary64.clampToInt64 (max z 0)) := by
  rw [Calibration.cellOf_count rfl, exact_roundToInteger_int, exact_maximum, exact_zero,
    show (max (z : ℝ) 0) = ((max z 0 : ℤ) : ℝ) by push_cast; rfl, exact_toInt64_int]

/-- Two draws from these words. -/
theorem gives_drawNoise_threeQuarters : ∃ w',
    (drawNoise Mechanism.laplace.noise [coarseCount, coarseCount] 1).Gives threeQuarters
      [[3, 3]] w' := by
  have hscale : 0 < coarseCount.scale := div_pos three_pos (Real.log_pos one_lt_two)
  have hdraw : ∀ w : Words, w.current = 0xC000000000000000 →
      (Mechanism.laplace.noise coarseCount.scale).Gives w 3 w.next.2 := by
    intro w hw
    have hgives := gives_laplaceNoise hscale w
    rwa [hw, laplaceOfWord_threeQuarters] at hgives
  have hrow : (drawRow Mechanism.laplace.noise [coarseCount, coarseCount]).Gives threeQuarters
      [3, 3] threeQuarters.next.2.next.2 :=
    Drawing.gives_mapM_cons.mpr ⟨3, _, [3], hdraw _ rfl,
      Drawing.gives_mapM_cons.mpr ⟨3, _, [], hdraw _ rfl, Drawing.gives_mapM_nil.mpr ⟨rfl, rfl⟩, rfl⟩,
      rfl⟩
  exact ⟨_, Drawing.gives_mapM_cons.mpr
    ⟨[3, 3], _, [], hrow, Drawing.gives_mapM_nil.mpr ⟨rfl, rfl⟩, rfl⟩⟩

/-- The release of a cell with these words: each time 3 is added and the count is kept from being
negative. -/
theorem gives_noiseRows_threeQuarters (i : Int64) {w' : Words}
    (hw' : (drawNoise Mechanism.laplace.noise [coarseCount, coarseCount] 1).Gives threeQuarters
      [[3, 3]] w') :
    (noiseRows [coarseCount, coarseCount] .laplace [[.integer i]]).Gives threeQuarters
      [[.integer (Binary64.clampToInt64
        (max ((Binary64.clampToInt64 (max (i.toInt + 3) 0)).toInt + 3) 0))]] w' := by
  have hcan : ∀ row ∈ [[(Value.integer i : Value ℝ)]], ∀ c ∈ [coarseCount, coarseCount],
      c.CanNoise row := by
    simp [Calibration.CanNoise, Value.number?, coarseCount]
  have hcell : ∀ j : Int64, coarseCount.cellOf ((Value.integer j : Value ℝ).amount + 3) =
      .integer (Binary64.clampToInt64 (max (j.toInt + 3) 0)) := by
    intro j
    rw [← cellOf_coarseCount]
    push_cast
    rfl
  have hrow : noisedRow [coarseCount, coarseCount] [.integer i] [3, 3] =
      [.integer (Binary64.clampToInt64
        (max ((Binary64.clampToInt64 (max (i.toInt + 3) 0)).toInt + 3) 0))] := by
    rw [← hcell, ← hcell]
    rfl
  rw [noiseRows_eq_by, noiseRowsBy_eq _ hcan]
  refine Drawing.gives_bind.mpr ⟨_, w', hw', Drawing.gives_pure.mpr ⟨?_, rfl⟩⟩
  rw [← hrow]
  rfl

/-- **Two calibrations of one column.**  From the same words a cell 0 is released as 6 and a cell `-5` as
3, while no number of noise takes 0 to 6 and `-5` to 3: the first noise is added and rounded before the
second one. -/
theorem noiseRows_twice :
    ∃ w', (noiseRows [coarseCount, coarseCount] .laplace [[.integer 0]]).Gives threeQuarters
        [[.integer 6]] w' ∧
      (noiseRows [coarseCount, coarseCount] .laplace [[.integer (-5)]]).Gives threeQuarters
        [[.integer 3]] w' ∧
      ¬ ∃ x : ℝ, coarseCount.cellOf ((Value.integer 0 : Value ℝ).amount + x) = .integer 6 ∧
        coarseCount.cellOf ((Value.integer (-5) : Value ℝ).amount + x) = .integer 3 := by
  obtain ⟨w', hw'⟩ := gives_drawNoise_threeQuarters
  refine ⟨w', gives_noiseRows_threeQuarters 0 hw', gives_noiseRows_threeQuarters (-5) hw', ?_⟩
  rintro ⟨x, hzero, hfive⟩
  have hnumber : ∀ (noisy : ℝ) (i : Int64), coarseCount.cellOf noisy = .integer i →
      releasedCount noisy = i.toInt := by
    intro noisy i hcell
    have hreleased := Calibration.number?_cellOf_count (c := coarseCount) rfl noisy
    rw [hcell, Value.number?, exact_ofInt, Option.some.injEq] at hreleased
    exact_mod_cast hreleased.symm
  have hsix : roundAway ((0 : ℝ) + x) = 6 := by
    have hcount := hnumber _ _ hzero
    have hword : (6 : Int64).toInt = 6 := by decide
    have hamount : (Value.integer 0 : Value ℝ).amount = 0 := by simp [Value.amount, Value.number?]
    rw [hamount, hword, releasedCount] at hcount
    omega
  have hthree : roundAway ((-5 : ℝ) + x) = 3 := by
    have hcount := hnumber _ _ hfive
    have hword : (3 : Int64).toInt = 3 := by decide
    have hamount : (Value.integer (-5) : Value ℝ).amount = -5 := by
      have hminus : (-5 : Int64).toInt = -5 := by decide
      simp [Value.amount, Value.number?, hminus]
    rw [hamount, hword, releasedCount] at hcount
    omega
  -- The first cell puts the noise below 6.5, the second one at 7.5 or more.
  have hbelow := (lt_roundAway_iff (z := 6) (by norm_num) (0 + x)).not.mp (by omega)
  have habove := (lt_roundAway_iff (z := 2) (by norm_num) (-5 + x)).mp (by omega)
  push_cast at hbelow habove
  linarith

end PrivateSql
