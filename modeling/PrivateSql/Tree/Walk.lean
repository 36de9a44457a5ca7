import PrivateSql.Tree.Basic
/-!
# Walks through trees

Two traversals driven by an explicit stack, and their definitions by recursion. A walk gives the
nodes in pre-order; it may be told not to look below the nodes of one kind, the root apart. A fold
gives each node the results of its children.

* `Walk.run` — the nodes met by a walk, `Tree.preorder` — the same by recursion;
* `Folding.run` — the result of a fold, `Tree.foldUp` — the same by recursion;
* `Tree.nodes`, `Tree.depth` — the nodes of a tree, and how deep it is.
-/

namespace PrivateSql

/-- A node waiting on the stack of a walk, and whether it is the root. -/
structure Pending where
  node : Tree
  isRoot : Bool

/-- A walk: the nodes still to visit, and the kind below which it does not look. -/
structure Walk where
  stack : List Pending
  notBelow : Option Kind

namespace Walk

/-- The walk about to visit the root of a tree. -/
def start (root : Tree) (notBelow : Option Kind) : Walk := ⟨[⟨root, true⟩], notBelow⟩

/-- Does the walk look below this node? -/
def explores (w : Walk) (p : Pending) : Bool := p.isRoot || some p.node.kind != w.notBelow

/-- Visit the node on top; its children take its place, the first one on top. -/
def step (w : Walk) : Option (Tree × Walk) :=
  match w.stack with
  | [] => none
  | p :: rest =>
    let below := if w.explores p then p.node.children.map (Pending.mk · false) else []
    some (p.node, { w with stack := below ++ rest })

/-- The number of nodes that the walk may still meet. -/
def remaining (w : Walk) : Nat := Tree.sizeAll (w.stack.map (·.node))

theorem remaining_step {w w' : Walk} {t : Tree} (h : w.step = some (t, w')) :
    w'.remaining < w.remaining := by
  unfold step at h
  split at h
  · simp at h
  · rename_i p rest hs
    simp only [Option.some.injEq, Prod.mk.injEq] at h
    obtain ⟨-, rfl⟩ := h
    simp only [remaining, hs, List.map_append, List.map_cons, Tree.sizeAll_append, Tree.sizeAll]
    have hp := p.node.size_eq
    split
    · have : List.map (·.node) (p.node.children.map (Pending.mk · false)) = p.node.children := by
        simp [Function.comp_def]
      rw [this]
      omega
    · simp only [List.map_nil, Tree.sizeAll]
      omega

/-- The nodes met until the stack is empty. -/
def run (w : Walk) : List Tree :=
  match _h : w.step with
  | none => []
  | some (t, w') => t :: run w'
termination_by w.remaining
decreasing_by exact remaining_step _h

end Walk

/-- A fold in progress: the nodes still to treat, each with whether its children are treated
already, the results of treated nodes, the last first, and the numbers of children of the nodes
being treated, the innermost first. -/
structure Folding (α : Type) where
  stack : List (Tree × Bool)
  results : List α
  arities : List Nat

namespace Folding

variable {α : Type}

/-- The fold about to treat the root of a tree. -/
def start (root : Tree) : Folding α := ⟨[(root, false)], [], []⟩

/-- Treat the node on top: push its children, or combine their results. -/
def step (visit : Tree → List α → α) (f : Folding α) : Option (Folding α) :=
  match f.stack with
  | [] => none
  | (t, true) :: rest =>
    let n := f.arities.headD 0
    some ⟨rest, visit t (f.results.take n).reverse :: f.results.drop n, f.arities.tail⟩
  | (t, false) :: rest =>
    some ⟨t.children.map (·, false) ++ (t, true) :: rest, f.results, t.children.length :: f.arities⟩

/-- The number of steps until the stack is empty: one for a node with treated children, two for
each of the others. -/
def remaining : List (Tree × Bool) → Nat
  | [] => 0
  | (_, true) :: rest => 1 + remaining rest
  | (t, false) :: rest => 2 * t.size + remaining rest

theorem remaining_append (s s' : List (Tree × Bool)) :
    remaining (s ++ s') = remaining s + remaining s' := by
  induction s with
  | nil => simp [remaining]
  | cons p rest ih =>
    obtain ⟨t, _ | _⟩ := p <;> simp only [List.cons_append, remaining, ih] <;> omega

theorem remaining_children (ts : List Tree) :
    remaining (ts.map (·, false)) = 2 * Tree.sizeAll ts := by
  induction ts with
  | nil => rfl
  | cons t ts ih => simp only [List.map_cons, remaining, ih, Tree.sizeAll]; omega

theorem remaining_step {visit : Tree → List α → α} {f f' : Folding α}
    (h : f.step visit = some f') : remaining f'.stack < remaining f.stack := by
  unfold step at h
  split at h
  · simp at h
  · rename_i hs
    simp only [Option.some.injEq] at h
    subst h
    rw [hs]
    simp only [remaining]
    omega
  · rename_i t rest hs
    simp only [Option.some.injEq] at h
    subst h
    rw [hs]
    simp only [remaining_append, remaining_children, remaining, t.size_eq]
    omega

/-- Treat nodes until the stack is empty. -/
def run (visit : Tree → List α → α) (f : Folding α) : List α :=
  match _h : f.step visit with
  | none => f.results
  | some f' => run visit f'
termination_by remaining f.stack
decreasing_by exact remaining_step _h

end Folding

namespace Tree

/-- The nodes met by a walk from the root. -/
def nodes (t : Tree) (notBelow : Option Kind) : List Tree := (Walk.start t notBelow).run

/-- The result of the root, each node being visited with the results of its children. -/
def fold {α : Type} (visit : Tree → List α → α) (t : Tree) : α :=
  ((Folding.start t).run visit).headD (visit t [])

mutual
/-- The nodes of a tree that is not the root, in pre-order. -/
def preorderBelow (notBelow : Option Kind) : Tree → List Tree
  | .leaf k s => [.leaf k s]
  | .branch k cs =>
    .branch k cs :: (if some k != notBelow then preorderAll notBelow cs else [])

/-- The nodes of some trees that are no root, in pre-order. -/
def preorderAll (notBelow : Option Kind) : List Tree → List Tree
  | [] => []
  | c :: cs => preorderBelow notBelow c ++ preorderAll notBelow cs
end

/-- The nodes of a tree in pre-order: the root, then those of its children from left to right. -/
def preorder (t : Tree) (notBelow : Option Kind) : List Tree :=
  t :: preorderAll notBelow t.children

mutual
/-- The bottom-up fold by recursion. -/
def foldUp {α : Type} (visit : Tree → List α → α) : Tree → α
  | .leaf k s => visit (.leaf k s) []
  | .branch k cs => visit (.branch k cs) (foldUpAll visit cs)

/-- The results of some trees. -/
def foldUpAll {α : Type} (visit : Tree → List α → α) : List Tree → List α
  | [] => []
  | c :: cs => foldUp visit c :: foldUpAll visit cs
end

/-- How deep a tree is: 1 for a leaf. -/
def depth (t : Tree) : Nat :=
  t.fold fun _ depths => match depths.max? with
    | some d => d + 1
    | none => 1

end Tree

end PrivateSql
