import Mathlib.Data.List.Basic
import PrivateSql.Tree.Walk
import PrivateSql.Proofs.ExprStructure
/-!
# Traversals by a stack are recursions

A walk keeps the nodes that wait on a stack; a fold keeps results and numbers of children beside them.  What a
stack stands for is said once: the nodes that a walk has still to give, the result that a fold leads to.  One
step gives the first of these nodes, or keeps the result; so the whole traversals are the recursions.

* `Walk.answer_eq_getElem?` — a walk gives the nodes it has ahead, one each time it is asked, and then none;
* `Tree.mem_places_iff`, `Tree.places_sorted` — the places that a walk comes to, and their order;
* `Folding.LeadsTo.step` — a step keeps the result that a fold leads to;
* `Tree.traversed_recursively` — both traversals, on every tree;
* `Expr.filter_nodes_tree`, `Expr.aggregateDepth_eq_fold` — what expressions are searched for, by the traversals
  of their trees.
-/

namespace PrivateSql

/-! ## What a walk has ahead -/

namespace Walk

/-- Ask a walk for its next node.  A walk that is over stays over. -/
def next (w : Walk) : Option Tree × Walk :=
  match w.step with
  | none => (none, w)
  | some (t, w') => (some t, w')

/-- The walk that was asked so many times. -/
def after : Walk → Nat → Walk
  | w, 0 => w
  | w, n + 1 => w.next.2.after n

/-- What a walk answers when it was asked `n` times before. -/
def answer (w : Walk) (n : Nat) : Option Tree := (w.after n).next.1

/-- A waiting node and the nodes below it that the walk comes to. -/
def nodesOf (notBelow : Option Kind) (p : Pending) : List Tree :=
  p.node ::
    (if p.isRoot || some p.node.kind != notBelow then Tree.preorderAll notBelow p.node.children else [])

/-- The nodes that a walk has still to give. -/
def ahead (w : Walk) : List Tree := w.stack.flatMap (nodesOf w.notBelow)

end Walk

theorem Tree.preorderBelow_eq (notBelow : Option Kind) (t : Tree) :
    t.preorderBelow notBelow =
      t :: (if some t.kind != notBelow then Tree.preorderAll notBelow t.children else []) := by
  cases t with
  | leaf k s => simp [preorderBelow, preorderAll, children]
  | branch k cs => rfl

namespace Walk

variable {w w' : Walk} {t : Tree}

/-- Children that wait in a row are walked through in a row. -/
theorem flatMap_children (notBelow : Option Kind) (ts : List Tree) :
    (ts.map (Pending.mk · false)).flatMap (nodesOf notBelow) = Tree.preorderAll notBelow ts := by
  induction ts with
  | nil => rfl
  | cons t ts ih =>
      rw [List.map_cons, List.flatMap_cons, ih, Tree.preorderAll, Tree.preorderBelow_eq]
      rfl

/-- **One step of a walk.**  It gives the first of the nodes ahead and leaves the others. -/
theorem ahead_of_step (h : w.step = some (t, w')) : w.ahead = t :: w'.ahead := by
  obtain ⟨stack, notBelow⟩ := w
  cases stack with
  | nil => simp [step] at h
  | cons p rest =>
      have hexplores : (⟨p :: rest, notBelow⟩ : Walk).explores p =
          (p.isRoot || some p.node.kind != notBelow) := rfl
      cases hopen : p.isRoot || some p.node.kind != notBelow with
      | false =>
          simp only [step, hexplores, hopen, Option.some.injEq, Prod.mk.injEq] at h
          obtain ⟨rfl, rfl⟩ := h
          simp [ahead, nodesOf, hopen]
      | true =>
          simp only [step, hexplores, hopen, Option.some.injEq, Prod.mk.injEq] at h
          obtain ⟨rfl, rfl⟩ := h
          simp [ahead, nodesOf, hopen, flatMap_children]

theorem ahead_of_over (h : w.step = none) : w.ahead = [] := by
  obtain ⟨stack, notBelow⟩ := w
  cases stack with
  | nil => rfl
  | cons p rest => simp [step] at h

theorem ahead_start (root : Tree) (notBelow : Option Kind) :
    (start root notBelow).ahead = root.preorder notBelow := by
  simp [ahead, start, nodesOf, Tree.preorder]

/-- **Walks give what they have ahead.**  Each time a walk is asked it gives the next of these nodes, and when
they have all been given it gives none any more. -/
theorem answer_eq_getElem? (w : Walk) (n : Nat) : w.answer n = w.ahead[n]? := by
  induction n generalizing w with
  | zero =>
      rw [answer, after, next]
      cases h : w.step with
      | none => simp [ahead_of_over h]
      | some p => simp [ahead_of_step h]
  | succ n ih =>
      have hnext : w.answer (n + 1) = w.next.2.answer n := rfl
      rw [hnext, ih, next]
      cases h : w.step with
      | none => simp [ahead_of_over h]
      | some p => simp [ahead_of_step h]

/-- The nodes met until the stack is empty are those ahead. -/
theorem run_eq_ahead (w : Walk) : w.run = w.ahead := by
  induction w using run.induct with
  | case1 w h =>
      rw [run.eq_def, ahead_of_over h]
      split <;> simp_all
  | case2 w t w' h ih =>
      rw [run.eq_def, ahead_of_step h]
      split <;> simp_all

end Walk

namespace Tree

theorem nodes_eq_preorder (t : Tree) (notBelow : Option Kind) :
    t.nodes notBelow = t.preorder notBelow := by
  rw [nodes, Walk.run_eq_ahead, Walk.ahead_start]

/-! ## The places that a walk comes to -/

/-- The node at a place, which is given by the numbers of the children on the way to it. -/
def at? : Tree → List Nat → Option Tree
  | t, [] => some t
  | t, i :: p => t.children[i]?.bind fun c => c.at? p

/-- Does a walk that began above come to a place of this tree?  There is a node, and no node above it is of the
kind that the walk does not look below. -/
def IsOpen (t : Tree) (notBelow : Option Kind) (p : List Nat) : Prop :=
  (t.at? p).isSome ∧ ∀ q u, q <+: p → q ≠ p → t.at? q = some u → some u.kind ≠ notBelow

/-- Does a walk from the root come to a place?  There is a node, and no node above it, the root apart, is of the
kind that the walk does not look below. -/
def IsMet (t : Tree) (notBelow : Option Kind) (p : List Nat) : Prop :=
  (t.at? p).isSome ∧ ∀ q u, q <+: p → q ≠ [] → q ≠ p → t.at? q = some u → some u.kind ≠ notBelow

mutual
/-- The places in a tree that is not the root, in pre-order. -/
def placesBelow (notBelow : Option Kind) : Tree → List (List Nat)
  | .leaf _ _ => [[]]
  | .branch k cs => [] :: (if some k != notBelow then placesFrom notBelow 0 cs else [])

/-- The places in some trees that are no root, the first of which is the child number `i`. -/
def placesFrom (notBelow : Option Kind) (i : Nat) : List Tree → List (List Nat)
  | [] => []
  | c :: cs => (placesBelow notBelow c).map (i :: ·) ++ placesFrom notBelow (i + 1) cs
end

/-- The places that a walk comes to, in pre-order. -/
def places (t : Tree) (notBelow : Option Kind) : List (List Nat) :=
  [] :: placesFrom notBelow 0 t.children

variable {notBelow : Option Kind}

theorem isOpen_nil (t : Tree) (notBelow : Option Kind) : t.IsOpen notBelow [] :=
  ⟨rfl, fun _ _ hq hne _ => absurd (List.prefix_nil.mp hq) hne⟩

theorem isOpen_cons {t : Tree} {i : Nat} {p : List Nat} :
    t.IsOpen notBelow (i :: p) ↔
      some t.kind ≠ notBelow ∧ ∃ c, t.children[i]? = some c ∧ c.IsOpen notBelow p := by
  constructor
  · rintro ⟨hsome, habove⟩
    refine ⟨habove [] t List.nil_prefix (List.cons_ne_nil _ _ |>.symm) rfl, ?_⟩
    cases hc : t.children[i]? with
    | none => simp [at?, hc] at hsome
    | some c =>
        refine ⟨c, rfl, by simpa [at?, hc] using hsome, fun q u hq hne hu => ?_⟩
        exact habove (i :: q) u (List.cons_prefix_cons.mpr ⟨rfl, hq⟩) (by simpa using hne)
          (by simpa [at?, hc] using hu)
  · rintro ⟨hkind, c, hc, hsome, habove⟩
    refine ⟨by simpa [at?, hc] using hsome, fun q u hq hne hu => ?_⟩
    cases q with
    | nil =>
        cases hu
        exact hkind
    | cons j q =>
        obtain ⟨rfl, htail⟩ := List.cons_prefix_cons.mp hq
        exact habove q u htail (by simpa using hne) (by simpa [at?, hc] using hu)

/-- Below the root a walk from the root comes to the same places as one that began above. -/
theorem isMet_cons {t : Tree} {i : Nat} {p : List Nat} :
    t.IsMet notBelow (i :: p) ↔ ∃ c, t.children[i]? = some c ∧ c.IsOpen notBelow p := by
  constructor
  · rintro ⟨hsome, habove⟩
    cases hc : t.children[i]? with
    | none => simp [at?, hc] at hsome
    | some c =>
        refine ⟨c, rfl, by simpa [at?, hc] using hsome, fun q u hq hne hu => ?_⟩
        exact habove (i :: q) u (List.cons_prefix_cons.mpr ⟨rfl, hq⟩) (List.cons_ne_nil _ _)
          (by simpa using hne) (by simpa [at?, hc] using hu)
  · rintro ⟨c, hc, hsome, habove⟩
    refine ⟨by simpa [at?, hc] using hsome, fun q u hq hnil hne hu => ?_⟩
    cases q with
    | nil => exact absurd rfl hnil
    | cons j q =>
        obtain ⟨rfl, htail⟩ := List.cons_prefix_cons.mp hq
        exact habove q u htail (by simpa using hne) (by simpa [at?, hc] using hu)

mutual
theorem mem_placesBelow_iff : (t : Tree) → {p : List Nat} →
    (p ∈ placesBelow notBelow t ↔ t.IsOpen notBelow p)
  | .leaf k s, [] => by simp [placesBelow, isOpen_nil]
  | .leaf k s, i :: p => by simp [placesBelow, isOpen_cons, children]
  | .branch k cs, [] => by simp [placesBelow, isOpen_nil]
  | .branch k cs, i :: p => by
      have hbelow := @mem_placesFrom_iff 0 cs i p
      by_cases hk : some k = notBelow
      · simp [placesBelow, isOpen_cons, kind, hk]
      · simpa [placesBelow, isOpen_cons, kind, hk, children] using hbelow

theorem mem_placesFrom_iff (first : Nat) : (cs : List Tree) → {i : Nat} → {p : List Nat} →
    (i :: p ∈ placesFrom notBelow first cs ↔
      first ≤ i ∧ ∃ c, cs[i - first]? = some c ∧ c.IsOpen notBelow p)
  | [], i, p => by simp [placesFrom]
  | c :: cs, i, p => by
      have hhead := @mem_placesBelow_iff c p
      have htail := @mem_placesFrom_iff (first + 1) cs i p
      rw [placesFrom, List.mem_append, htail]
      rcases Nat.lt_trichotomy i first with hlt | rfl | hgt
      · simp
        omega
      · have hnot : ¬ i + 1 ≤ i := by omega
        simp [hhead, hnot]
      · obtain ⟨j, rfl⟩ := Nat.exists_eq_add_of_lt hgt
        have hnext : first + j + 1 - first = j + 1 := by omega
        have hother : first + j + 1 - (first + 1) = j := by omega
        have hne : first ≠ first + j + 1 := by omega
        have hle : first ≤ first + j + 1 := by omega
        simp [hnext, hother, hne, hle]
end

/-- **The places of a walk.**  A walk from the root comes to a place when there is a node, with no node above it
but the root that the walk does not look below. -/
theorem mem_places_iff {t : Tree} {p : List Nat} : p ∈ t.places notBelow ↔ t.IsMet notBelow p := by
  cases p with
  | nil =>
      have hroot : t.IsMet notBelow [] := ⟨rfl, fun q _ hq hne => absurd (List.prefix_nil.mp hq) hne⟩
      simpa [places] using hroot
  | cons i p =>
      rw [places, List.mem_cons, isMet_cons, mem_placesFrom_iff]
      simp

/-! ## Their order -/

theorem exists_cons_of_mem_placesFrom {first : Nat} {cs : List Tree} {p : List Nat}
    (h : p ∈ placesFrom notBelow first cs) : ∃ i q, p = i :: q ∧ first ≤ i := by
  induction cs generalizing first with
  | nil => simp [placesFrom] at h
  | cons c cs ih =>
      rw [placesFrom, List.mem_append] at h
      rcases h with hhead | htail
      · obtain ⟨q, -, rfl⟩ := List.mem_map.mp hhead
        exact ⟨first, q, rfl, Nat.le_refl first⟩
      · obtain ⟨i, q, rfl, hle⟩ := ih htail
        exact ⟨i, q, rfl, by omega⟩

mutual
theorem placesBelow_sorted (notBelow : Option Kind) : (t : Tree) →
    (placesBelow notBelow t).Pairwise (· < ·)
  | .leaf k s => List.pairwise_singleton _ _
  | .branch k cs => by
      rw [placesBelow, List.pairwise_cons]
      split
      · refine ⟨fun p hp => ?_, placesFrom_sorted notBelow 0 cs⟩
        obtain ⟨i, p, rfl, -⟩ := exists_cons_of_mem_placesFrom hp
        exact List.nil_lt_cons i p
      · exact ⟨fun p hp => absurd hp List.not_mem_nil, .nil⟩

theorem placesFrom_sorted (notBelow : Option Kind) (first : Nat) : (cs : List Tree) →
    (placesFrom notBelow first cs).Pairwise (· < ·)
  | [] => .nil
  | c :: cs => by
      rw [placesFrom, List.pairwise_append]
      refine ⟨?_, placesFrom_sorted notBelow (first + 1) cs, fun p hp q hq => ?_⟩
      · rw [List.pairwise_map]
        exact (placesBelow_sorted notBelow c).imp fun hlt => List.cons_lt_cons_self.mpr hlt
      · obtain ⟨p, -, rfl⟩ := List.mem_map.mp hp
        obtain ⟨i, q, rfl, hle⟩ := exists_cons_of_mem_placesFrom hq
        exact List.cons_lt_cons_iff.mpr (.inl (by omega))
end

/-- **Pre-order.**  The places come in the order of their numbers, a node before those below it; so none comes
twice. -/
theorem places_sorted (t : Tree) (notBelow : Option Kind) : (t.places notBelow).Pairwise (· < ·) := by
  refine List.pairwise_cons.mpr ⟨fun p hp => ?_, placesFrom_sorted notBelow 0 t.children⟩
  obtain ⟨i, p, rfl, -⟩ := exists_cons_of_mem_placesFrom hp
  exact List.nil_lt_cons i p

/-! ## The nodes at these places -/

mutual
theorem map_at?_placesBelow : (t : Tree) →
    (placesBelow notBelow t).map t.at? = (preorderBelow notBelow t).map some
  | .leaf k s => rfl
  | .branch k cs => by
      have hchildren := map_placesFrom cs 0 (at? (.branch k cs)) fun j p => by
        rw [Nat.zero_add]
        rfl
      rw [placesBelow, preorderBelow]
      split
      · rw [List.map_cons, List.map_cons, hchildren]
        rfl
      · rfl

theorem map_placesFrom : (cs : List Tree) → (first : Nat) → (node : List Nat → Option Tree) →
    (∀ j p, node ((first + j) :: p) = cs[j]?.bind fun c => c.at? p) →
    (placesFrom notBelow first cs).map node = (preorderAll notBelow cs).map some
  | [], _, _, _ => rfl
  | c :: cs, first, node, hnode => by
      have hhead : node ∘ (first :: ·) = c.at? := funext fun p => hnode 0 p
      have htail := map_placesFrom cs (first + 1) node fun j p => by
        rw [Nat.add_assoc, Nat.add_comm 1 j]
        exact hnode (j + 1) p
      rw [placesFrom, preorderAll, List.map_append, List.map_append, List.map_map, hhead,
        map_at?_placesBelow c, htail]
end

/-- The nodes of a walk are those at its places. -/
theorem map_at?_places (t : Tree) (notBelow : Option Kind) :
    (t.places notBelow).map t.at? = (t.preorder notBelow).map some := by
  have hbelow := @map_placesFrom notBelow t.children 0 t.at? fun j p => by
    rw [Nat.zero_add]
    rfl
  rw [places, preorder, List.map_cons, List.map_cons, hbelow]
  rfl

end Tree

/-! ## Where a fold leads -/

namespace Folding

variable {α : Type} {visit : Tree → List α → α}

/-- So many steps lead from one fold to another. -/
inductive Steps (visit : Tree → List α → α) : Nat → Folding α → Folding α → Prop
  | done (f : Folding α) : Steps visit 0 f f
  | more {n : Nat} {f f' f'' : Folding α} (h : f.step visit = some f') (rest : Steps visit n f' f'') :
      Steps visit (n + 1) f f''

/-- What stands on the three stacks of a fold that leads to a result.  Behind a node whose children are treated
lie their number and their results, the last one first; every other node brings one result of its own. -/
inductive LeadsTo (visit : Tree → List α → α) (result : α) : Folding α → Prop
  | ended : LeadsTo visit result ⟨[], [result], []⟩
  | waiting {t : Tree} {rest : List (Tree × Bool)} {results : List α} {arities : List Nat}
      (h : LeadsTo visit result ⟨rest, t.foldUp visit :: results, arities⟩) :
      LeadsTo visit result ⟨(t, false) :: rest, results, arities⟩
  | treated {t : Tree} {rest : List (Tree × Bool)} {results : List α} {arities : List Nat}
      (h : LeadsTo visit result ⟨rest, t.foldUp visit :: results, arities⟩) :
      LeadsTo visit result ⟨(t, true) :: rest,
        (Tree.foldUpAll visit t.children).reverse ++ results, t.children.length :: arities⟩

end Folding

theorem Tree.foldUp_eq {α : Type} (visit : Tree → List α → α) (t : Tree) :
    t.foldUp visit = visit t (Tree.foldUpAll visit t.children) := by
  cases t <;> rfl

theorem Tree.length_foldUpAll {α : Type} (visit : Tree → List α → α) (ts : List Tree) :
    (Tree.foldUpAll visit ts).length = ts.length := by
  induction ts with
  | nil => rfl
  | cons t ts ih => rw [Tree.foldUpAll, List.length_cons, List.length_cons, ih]

namespace Folding

variable {α : Type} {visit : Tree → List α → α} {result : α} {f f' : Folding α}

theorem leadsTo_start (visit : Tree → List α → α) (t : Tree) :
    LeadsTo visit (t.foldUp visit) (start t) :=
  .waiting .ended

/-- Nodes that wait in a row bring their results in a row. -/
theorem LeadsTo.children {ts : List Tree} {rest : List (Tree × Bool)} {results : List α}
    {arities : List Nat}
    (h : LeadsTo visit result ⟨rest, (Tree.foldUpAll visit ts).reverse ++ results, arities⟩) :
    LeadsTo visit result ⟨ts.map (·, false) ++ rest, results, arities⟩ := by
  induction ts generalizing results with
  | nil => exact h
  | cons t ts ih =>
      refine .waiting (ih ?_)
      rwa [Tree.foldUpAll, List.reverse_cons, List.append_assoc] at h

/-- **One step of a fold.**  It keeps the result that the fold leads to. -/
theorem LeadsTo.step (h : LeadsTo visit result f) (hstep : f.step visit = some f') :
    LeadsTo visit result f' := by
  cases h with
  | ended => simp [Folding.step] at hstep
  | @waiting t rest results arities h =>
      simp only [Folding.step, Option.some.injEq] at hstep
      subst hstep
      exact LeadsTo.children (.treated h)
  | @treated t rest results arities h =>
      simp only [Folding.step, Option.some.injEq] at hstep
      subst hstep
      have hlength : t.children.length = (Tree.foldUpAll visit t.children).reverse.length := by
        rw [List.length_reverse, Tree.length_foldUpAll]
      rw [Tree.foldUp_eq] at h
      simpa [hlength] using h

theorem LeadsTo.steps {n : Nat} (h : LeadsTo visit result f) (hsteps : Steps visit n f f') :
    LeadsTo visit result f' := by
  induction hsteps with
  | done f => exact h
  | more hstep rest ih => exact ih (h.step hstep)

/-- When the children of a node are combined, the number on record is theirs, and the results that are taken
are there and are theirs. -/
def CombinesChildren (visit : Tree → List α → α) (f : Folding α) : Prop :=
  ∀ t rest, f.stack = (t, true) :: rest → ∃ n arities, f.arities = n :: arities ∧
    n ≤ f.results.length ∧ (f.results.take n).reverse = Tree.foldUpAll visit t.children

theorem LeadsTo.combinesChildren (h : LeadsTo visit result f) : f.CombinesChildren visit := by
  intro t rest hstack
  cases h with
  | ended | waiting => cases hstack
  | @treated t rest results arities h =>
      cases hstack
      have hlength : t.children.length = (Tree.foldUpAll visit t.children).reverse.length := by
        rw [List.length_reverse, Tree.length_foldUpAll]
      refine ⟨t.children.length, arities, rfl, ?_, ?_⟩
      · rw [List.length_append, hlength]
        exact Nat.le_add_right _ _
      · rw [hlength, List.take_left, List.reverse_reverse]

/-! ## How a fold ends -/

/-- Every step is one of those that remain. -/
theorem remaining_eq_of_step (h : f.step visit = some f') :
    remaining f.stack = remaining f'.stack + 1 := by
  obtain ⟨stack, results, arities⟩ := f
  match stack with
  | [] => simp [Folding.step] at h
  | (t, true) :: rest =>
      simp only [Folding.step, Option.some.injEq] at h
      subst h
      simp only [remaining]
      omega
  | (t, false) :: rest =>
      simp only [Folding.step, Option.some.injEq] at h
      subst h
      simp only [remaining_append, remaining_children, remaining, t.size_eq]
      omega

/-- A fold takes as many steps as remain, and then its stack is empty. -/
theorem exists_steps (visit : Tree → List α → α) (f : Folding α) :
    ∃ f', Steps visit (remaining f.stack) f f' ∧ f'.stack = [] := by
  induction f using run.induct visit with
  | case1 f h =>
      obtain ⟨stack, results, arities⟩ := f
      match stack with
      | [] => exact ⟨_, .done _, rfl⟩
      | (t, true) :: rest | (t, false) :: rest => simp [Folding.step] at h
  | case2 f f' h ih =>
      obtain ⟨f'', hsteps, hover⟩ := ih
      rw [remaining_eq_of_step h]
      exact ⟨f'', .more h hsteps, hover⟩

theorem run_of_over (h : f.step visit = none) : f.run visit = f.results := by
  rw [run.eq_def]
  split
  · rfl
  · simp_all

theorem run_of_step (h : f.step visit = some f') : f.run visit = f'.run visit := by
  rw [run.eq_def]
  split <;> simp_all

theorem run_of_steps {n : Nat} (h : Steps visit n f f') : f.run visit = f'.run visit := by
  induction h with
  | done f => rfl
  | more hstep rest ih => rw [run_of_step hstep, ih]

theorem LeadsTo.eq_of_over (h : LeadsTo visit result f) (hover : f.stack = []) :
    f.results = [result] ∧ f.arities = [] := by
  cases h with
  | ended => exact ⟨rfl, rfl⟩
  | waiting | treated => cases hover

/-- **Folds end with their result.**  After the steps that remain there is this one result and nothing else, and
the run gives it. -/
theorem LeadsTo.exists_end (h : LeadsTo visit result f) :
    ∃ f', Steps visit (remaining f.stack) f f' ∧ f'.step visit = none ∧ f'.results = [result] ∧
      f'.arities = [] ∧ f.run visit = [result] := by
  obtain ⟨f', hsteps, hstack⟩ := exists_steps visit f
  obtain ⟨hresults, harities⟩ := (h.steps hsteps).eq_of_over hstack
  have hover : f'.step visit = none := by simp [Folding.step, hstack]
  refine ⟨f', hsteps, hover, hresults, harities, ?_⟩
  rw [run_of_steps hsteps, run_of_over hover, hresults]

end Folding

namespace Tree

theorem fold_eq_foldUp {α : Type} (visit : Tree → List α → α) (t : Tree) :
    t.fold visit = t.foldUp visit := by
  obtain ⟨f, -, -, -, -, hrun⟩ := (Folding.leadsTo_start visit t).exists_end
  rw [fold, hrun]
  rfl

/-- **Traversals by a stack are recursions.**  A walk, asked again and again, gives the nodes of the tree in
pre-order and then none: those at the places that it may come to, in the order of these places, each once.  A
fold never takes more results than there are when it combines those of the children of a node, and they are
the results of these children; after two steps for each node one result is left, that of the recursion. -/
theorem traversed_recursively (t : Tree) (notBelow : Option Kind) :
    (∀ n, (Walk.start t notBelow).answer n = (t.preorder notBelow)[n]?) ∧
      t.nodes notBelow = t.preorder notBelow ∧
      ((t.places notBelow).map t.at? = (t.preorder notBelow).map some ∧
        (t.places notBelow).Pairwise (· < ·) ∧ ∀ p, p ∈ t.places notBelow ↔ t.IsMet notBelow p) ∧
      ∀ {α : Type} (visit : Tree → List α → α),
        (∀ n f, Folding.Steps visit n (Folding.start t) f → f.CombinesChildren visit) ∧
          (∃ f, Folding.Steps visit (2 * t.size) (Folding.start t) f ∧ f.step visit = none ∧
            f.results = [t.foldUp visit] ∧ f.arities = []) ∧
          t.fold visit = t.foldUp visit := by
  refine ⟨fun n => ?_, nodes_eq_preorder t notBelow, ⟨map_at?_places t notBelow, places_sorted t notBelow,
    fun p => mem_places_iff⟩, fun {α} visit => ?_⟩
  · rw [Walk.answer_eq_getElem?, Walk.ahead_start]
  · have hstart := Folding.leadsTo_start visit t
    obtain ⟨f, hsteps, hover, hresults, harities, -⟩ := hstart.exists_end
    exact ⟨fun n f hf => (hstart.steps hf).combinesChildren, ⟨f, hsteps, hover, hresults, harities⟩,
      fold_eq_foldUp visit t⟩

end Tree

/-! ## What expressions are searched for -/

namespace Tree

theorem preorderAll_eq_flatMap (notBelow : Option Kind) (ts : List Tree) :
    preorderAll notBelow ts = ts.flatMap (preorderBelow notBelow) := by
  induction ts with
  | nil => rfl
  | cons t ts ih => rw [preorderAll, List.flatMap_cons, ih]

/-- A walk that looks below every node meets a branch and then what is in its children. -/
theorem preorderBelow_none_branch (k : Kind) (cs : List Tree) :
    preorderBelow none (.branch k cs) = .branch k cs :: cs.flatMap (preorderBelow none) := by
  rw [preorderBelow, preorderAll_eq_flatMap]
  rfl

theorem nodes_none (t : Tree) : t.nodes none = t.preorderBelow none := by
  rw [nodes_eq_preorder, preorderBelow_eq, preorder]
  rfl

/-- Is a node an expression? -/
def isExpr (t : Tree) : Bool := decide (t.kind = .expression)

/-- Is a node an aggregate?  A call of a scalar function has a list of arguments in its place. -/
def isAggregate : Tree → Bool
  | .branch .expression [.leaf .funcName _, _, argument, _] => decide (argument.kind ≠ .sequence)
  | _ => false

/-- How many aggregates are nested at a node, from how many are at its children. -/
def aggregatesAbove (t : Tree) (depths : List Nat) : Nat :=
  (depths.max?).getD 0 + if t.isAggregate then 1 else 0

end Tree

namespace Expr

variable {N : Type}

/-- Below a branch the search goes on in the children. -/
theorem filter_branch (k : Kind) (cs : List Tree) :
    (Tree.preorderBelow none (.branch k cs)).filter Tree.isExpr =
      (if k = .expression then [.branch k cs] else []) ++
        cs.flatMap fun c => (c.preorderBelow none).filter Tree.isExpr := by
  rw [Tree.preorderBelow_none_branch, List.filter_cons, List.filter_flatMap]
  by_cases hk : k = .expression <;> simp [Tree.isExpr, Tree.kind, hk]

theorem filter_leaf {k : Kind} (s : String) (hk : k ≠ .expression) :
    (Tree.preorderBelow none (.leaf k s)).filter Tree.isExpr = [] := by
  simp [Tree.preorderBelow, Tree.isExpr, Tree.kind, hk]

/-- **Searches are walks.**  The nodes of an expression that are expressions are its parts, in their order. -/
theorem filter_nodes_tree (e : Expr N) :
    (e.tree.nodes none).filter Tree.isExpr = e.subterms.map tree := by
  rw [Tree.nodes_none]
  induction e using induct with
  | literal l | column id | aggregateRows f => rfl
  | unary op e ih | nested e ih | aggregate f e ih => simp [tree, subterms, filter_branch, filter_leaf, ih]
  | isNull e negated ih => cases negated <;> simp [tree, subterms, filter_branch, filter_leaf, ih]
  | binary l op r ihl ihr => simp [tree, subterms, filter_branch, filter_leaf, ihl, ihr]
  | call name args ih =>
      have hargs : args.flatMap (fun e => (e.tree.preorderBelow none).filter Tree.isExpr) =
          args.flatMap fun e => e.subterms.map tree :=
        List.flatMap_congr ih
      simp [tree, subterms, filter_branch, filter_leaf, trees_eq_map, subtermsAll_eq_flatMap,
        List.flatMap_map, List.map_flatMap, hargs]

theorem kind_tree (e : Expr N) : e.tree.kind = .expression := by
  cases e <;> rfl

theorem getD_max?_cons (d : Nat) (ds : List Nat) :
    ((d :: ds).max?).getD 0 = max d ((ds.max?).getD 0) := by
  rw [List.max?_cons]
  cases ds.max? <;> simp

/-- **The nesting check is a fold.** -/
theorem aggregateDepth_eq_fold (e : Expr N) : e.aggregateDepth = e.tree.fold Tree.aggregatesAbove := by
  rw [Tree.fold_eq_foldUp]
  induction e using induct with
  | literal l | column id | aggregateRows f => rfl
  | unary op e ih | nested e ih | aggregate f e ih =>
      simp [tree, aggregateDepth, ih, Tree.foldUp, Tree.foldUpAll, Tree.aggregatesAbove, Tree.isAggregate,
        kind_tree]
  | isNull e negated ih =>
      cases negated <;>
        simp [tree, aggregateDepth, ih, Tree.foldUp, Tree.foldUpAll, Tree.aggregatesAbove, Tree.isAggregate]
  | binary l op r ihl ihr =>
      simp [tree, aggregateDepth, ihl, ihr, Tree.foldUp, Tree.foldUpAll, Tree.aggregatesAbove,
        Tree.isAggregate]
  | call name args ih =>
      have hargs : ((Tree.foldUpAll Tree.aggregatesAbove (args.map tree)).max?).getD 0 =
          aggregateDepthAll args := by
        induction args with
        | nil => rfl
        | cons e es ihes =>
            rw [List.map_cons, Tree.foldUpAll, getD_max?_cons, aggregateDepthAll, ih e List.mem_cons_self,
              ihes fun e' he' => ih e' (List.mem_cons_of_mem _ he')]
      simp [tree, aggregateDepth, trees_eq_map, Tree.foldUp, Tree.foldUpAll, Tree.aggregatesAbove,
        Tree.isAggregate, Tree.kind, hargs]

end Expr

end PrivateSql
