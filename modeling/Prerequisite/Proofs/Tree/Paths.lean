import Mathlib.Data.List.Sort
import Prerequisite.Tree.Basic

/-!
# Nodes and paths

A node of a tree is named by the path that leads to it from the root.  The nodes of a tree are
listed from the root on, each before the nodes below it, so that each path is listed once and in
its lexicographic place.  Two trees have the same shape if the same paths lead to nodes of them.

Proofs about siblings go through them from the first to the last, and at each of them first to its
children and then to the other siblings.
-/

namespace Prerequisite.Tree

/-- The node to which a path leads from the root, if it leads to one.  A path goes down from child
to child, and names each child by its number among its siblings. -/
def node? (t : Tree) : List Nat → Option Tree
  | [] => some t
  | number :: path => t.children[number]?.bind fun child => child.node? path

/-- The same paths lead to nodes of two trees. -/
def SameShape (t u : Tree) : Prop := ∀ path, (t.node? path).isSome ↔ (u.node? path).isSome

mutual

/-- The nodes of a tree with the paths that lead to them, each before the nodes below it. -/
def nodes : Tree → List (List Nat × Tree)
  | .requirement place verdict term => [([], .requirement place verdict term)]
  | .negation place operand =>
    ([], .negation place operand) :: operand.nodes.map (Prod.map (0 :: ·) id)
  | .junction place kind parts => ([], .junction place kind parts) :: nodesFrom 0 parts

/-- The nodes of some siblings, where the first of them has a given number. -/
def nodesFrom (first : Nat) : List Tree → List (List Nat × Tree)
  | [] => []
  | t :: rest => t.nodes.map (Prod.map (first :: ·) id) ++ nodesFrom (first + 1) rest

end

/-- The paths to the nodes of a tree. -/
def paths (t : Tree) : List (List Nat) := t.nodes.map Prod.fst

/-- The paths to the nodes of some siblings, where the first of them has a given number. -/
def pathsFrom (first : Nat) (parts : List Tree) : List (List Nat) :=
  (nodesFrom first parts).map Prod.fst

theorem nodes_eq_cons (t : Tree) :
  t.nodes = ([], t) :: nodesFrom 0 t.children
  := by
  rcases t with _ | _ | _
  · rfl
  · simp [nodes, nodesFrom, children]
  · rfl

theorem paths_eq_cons (t : Tree) :
  t.paths = [] :: pathsFrom 0 t.children
  := by
  rw [paths, nodes_eq_cons, List.map_cons, pathsFrom]

theorem pathsFrom_cons (first : Nat) (t : Tree) (rest : List Tree) :
  pathsFrom first (t :: rest) = t.paths.map (first :: ·) ++ pathsFrom (first + 1) rest
  := by
  rw [paths, pathsFrom, nodesFrom, List.map_append, List.map_map, List.map_map]
  rfl

/-- What holds of no trees at all holds of all siblings, if it holds of some siblings as soon as it
holds of the children of the first and of the other siblings. -/
@[elab_as_elim]
theorem siblings_induction {motive : List Tree → Prop} (nil : motive [])
    (cons : ∀ t rest, motive t.children → motive rest → motive (t :: rest))
    (parts : List Tree) :
  motive parts
  := by
  refine Tree.rec_1 (motive_1 := fun t => motive t.children) ?_ ?_ ?_ nil cons parts
  · intro _ _ _
    apply nil
  · intro _ operand hoperand
    apply cons operand [] hoperand nil
  · intro _ _ _ hparts
    apply hparts

/-! ### Where the listed paths lead -/

theorem mem_nodes_iff_of_children
    {t : Tree}
    (h : ∀ path u, (path, u) ∈ nodesFrom 0 t.children
      ↔ ∃ number below, path = (0 + number) :: below
        ∧ (t.children[number]?.bind fun child => child.node? below) = some u)
    (path : List Nat) (u : Tree) :
  (path, u) ∈ t.nodes ↔ t.node? path = some u
  := by
  rw [nodes_eq_cons, List.mem_cons, h]
  rcases path with _ | ⟨number, below⟩
  · simp [node?, eq_comm]
  · simp [node?]

/-- A node of some siblings is a node of one of them, by a path that begins with the number of this
sibling. -/
theorem mem_nodesFrom_iff {parts : List Tree} (first : Nat) (path : List Nat) (u : Tree) :
  (path, u) ∈ nodesFrom first parts
    ↔ ∃ number below, path = (first + number) :: below
      ∧ (parts[number]?.bind fun part => part.node? below) = some u
  := by
  induction parts using siblings_induction generalizing first path u with
  | nil => simp [nodesFrom]
  | cons t rest hchildren hrest =>
    have hnodes := mem_nodes_iff_of_children (hchildren 0)
    have hnext (number : Nat) : first + 1 + number = first + (number + 1) := by omega
    rw [nodesFrom, List.mem_append, hrest]
    constructor
    · rintro (h | ⟨number, below, rfl, h⟩)
      · obtain ⟨⟨below, v⟩, hmem, heq⟩ := List.mem_map.mp h
        obtain ⟨rfl, rfl⟩ := Prod.mk.inj heq
        use 0, below, rfl
        apply (hnodes below v).mp hmem
      · use number + 1, below
        rw [hnext]
        use rfl, h
    · rintro ⟨_ | number, below, rfl, h⟩
      · left
        apply List.mem_map.mpr
        use (below, u), (hnodes below u).mpr h
        rfl
      · right
        use number, below
        rw [hnext]
        use rfl, h

theorem mem_nodes_iff {t : Tree} (path : List Nat) (u : Tree) :
  (path, u) ∈ t.nodes ↔ t.node? path = some u
  := mem_nodes_iff_of_children (mem_nodesFrom_iff 0) path u

theorem mem_paths_iff {t : Tree} (path : List Nat) :
  path ∈ t.paths ↔ (t.node? path).isSome
  := by
  simp [paths, mem_nodes_iff, Option.isSome_iff_exists]

/-! ### The order of the listed paths -/

theorem exists_of_mem_pathsFrom
    {first : Nat} {parts : List Tree} {path : List Nat} (h : path ∈ pathsFrom first parts) :
  ∃ number below, first ≤ number ∧ path = number :: below
  := by
  obtain ⟨⟨path, u⟩, hmem, rfl⟩ := List.mem_map.mp h
  obtain ⟨number, below, rfl, -⟩ := (mem_nodesFrom_iff first path u).mp hmem
  use first + number, below, Nat.le_add_right first number

theorem pairwise_paths_of_children {t : Tree} (h : (pathsFrom 0 t.children).Pairwise (· < ·)) :
  t.paths.Pairwise (· < ·)
  := by
  rw [paths_eq_cons, List.pairwise_cons]
  constructor
  · intro path hpath
    obtain ⟨number, below, -, rfl⟩ := exists_of_mem_pathsFrom hpath
    apply List.nil_lt_cons
  · apply h

theorem pairwise_pathsFrom (first : Nat) (parts : List Tree) :
  (pathsFrom first parts).Pairwise (· < ·)
  := by
  induction parts using siblings_induction generalizing first with
  | nil => apply List.Pairwise.nil
  | cons t rest hchildren hrest =>
    rw [pathsFrom_cons, List.pairwise_append, List.pairwise_map]
    refine ⟨?own, hrest (first + 1), ?others⟩
    case own =>
      apply (pairwise_paths_of_children (hchildren 0)).imp
      intro path path' hlt
      apply List.cons_lt_cons_iff.mpr
      right
      use rfl
    case others =>
      intro path hpath path' hpath'
      obtain ⟨below, -, rfl⟩ := List.mem_map.mp hpath
      obtain ⟨number, below', hnumber, rfl⟩ := exists_of_mem_pathsFrom hpath'
      apply List.cons_lt_cons_iff.mpr
      left
      apply hnumber

/-- The paths are listed in lexicographic order, so none is listed twice. -/
theorem pairwise_paths (t : Tree) :
  t.paths.Pairwise (· < ·)
  := pairwise_paths_of_children (pairwise_pathsFrom 0 t.children)

/-- Trees have the same shape if and only if the same paths are listed for them. -/
theorem sameShape_iff {t u : Tree} :
  t.SameShape u ↔ t.paths = u.paths
  := by
  constructor
  · intro h
    apply t.pairwise_paths.eq_of_mem_iff u.pairwise_paths
    intro path
    rw [mem_paths_iff, mem_paths_iff]
    apply h
  · intro h path
    rw [← mem_paths_iff, ← mem_paths_iff, h]

end Prerequisite.Tree
