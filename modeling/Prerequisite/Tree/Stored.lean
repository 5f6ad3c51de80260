import Prerequisite.Tree.Basic

/-!
# Trees that store their tallies

A node can store its tally.  The tally is computed when the node is made, from what the nodes right
below have stored, and from then on it is copied along with the node.  It is not computed anew when
the node is placed, or when it moves to another node.
-/

namespace Prerequisite

/-- A requirement tree with a tally stored at each node. The verdict of a requirement is the status
that it stores. -/
inductive StoredTree where
  | requirement (place : Place) (tally : Tally) (term : Term)
  | negation (place : Place) (tally : Tally) (operand : StoredTree)
  | junction (place : Place) (tally : Tally) (kind : Junction) (parts : List StoredTree)

namespace StoredTree

/-- The tally that the root stores. -/
def tally : StoredTree → Tally
  | .requirement _ tally _ => tally
  | .negation _ tally _ => tally
  | .junction _ tally _ _ => tally

/-- The trees right below the root. -/
def children : StoredTree → List StoredTree
  | .requirement _ _ _ => []
  | .negation _ _ operand => [operand]
  | .junction _ _ _ parts => parts

/-! ### Making nodes -/

/-- What a tree contributes to the counts of a conjunction: a requirement counts once, and any other
tree contributes the counts that it stores. -/
def contribution : StoredTree → Nat × Nat
  | .requirement _ tally _ => (if tally.status = .met then 1 else 0, 1)
  | t => (t.tally.met, t.tally.total)

/-- The counts of a conjunction, which are added up in one pass. -/
def aggregate (parts : List StoredTree) : Nat × Nat :=
  parts.foldl
    (fun counts part =>
      (Tally.add counts.1 part.contribution.1, Tally.add counts.2 part.contribution.2))
    (0, 0)

/-- The tally that a conjunction or a group stores. -/
def tallyAll (parts : List StoredTree) : Tally :=
  let (met, total) := aggregate parts
  let status :=
    if 0 < total ∧ met = total then .met
    else if ¬ parts.any (·.tally.status.isBlocking) then .unknown
    else if 0 < met then .partly
    else .unmet
  ⟨met, total, status⟩

/-- The tally that a disjunction stores. -/
def tallyAny (parts : List StoredTree) : Tally :=
  let satisfied := parts.any fun part =>
    part.tally.status = .met ∨ part.tally.status = .partly ∧ 0 < part.tally.met
  let met := satisfied.toNat
  let status :=
    if met = 1 then .met
    else if parts.any (·.tally.status = .unknown) then .unknown
    else .unmet
  ⟨met, 1, status⟩

/-- The tally that a negation stores. -/
def tallyNot (operand : StoredTree) : Tally :=
  let status := operand.tally.status.inverted
  let total := operand.tally.total
  ⟨if status = .met then total else 0, total, status⟩

/-- The requirement that a term holds, as a snapshot decides it. -/
def ofTerm (stats : Option Snapshot) (term : Term) : StoredTree :=
  .requirement {} (.ofStatus (.ofVerdict (term.verdict stats))) term

/-- The negation of a tree. -/
protected def not (operand : StoredTree) : StoredTree := .negation {} (tallyNot operand) operand

/-- The conjunction of some trees. -/
protected def all (parts : List StoredTree) : StoredTree := .junction {} (tallyAll parts) .all parts

/-- The disjunction of some trees. -/
protected def any (parts : List StoredTree) : StoredTree := .junction {} (tallyAny parts) .any parts

/-- The group of some trees. -/
def group (parts : List StoredTree) : StoredTree := .junction {} (tallyAll parts) .group parts

/-- Some trees joined in some way. -/
def joined : Junction → List StoredTree → StoredTree
  | .all => .all
  | .any => .any
  | .group => group

/-! ### Transforming trees -/

/-- The tree without its place, and with the tally that it stores. -/
def detached : StoredTree → StoredTree
  | .requirement _ tally term => .requirement {} tally term
  | .negation _ tally operand => .negation {} tally operand
  | .junction _ tally kind parts => .junction {} tally kind parts

/-- The trees that replace a part below a node of a given kind. -/
def spliced (kind : Junction) : StoredTree → List StoredTree
  | .junction place tally k parts =>
    if k = kind ∧ kind ≠ .group then parts.map detached else [.junction place tally k parts]
  | t => [t]

mutual

/-- The consolidated tree, without a layout. -/
def consolidate : StoredTree → StoredTree
  | .requirement place tally term => (StoredTree.requirement place tally term).detached
  | .negation _ _ operand => operand.consolidate.not
  | .junction _ _ kind parts => joined kind (consolidateParts kind parts)

/-- The consolidated parts of a node of a given kind. -/
def consolidateParts (kind : Junction) : List StoredTree → List StoredTree
  | [] => []
  | t :: rest => t.consolidate.spliced kind ++ consolidateParts kind rest

end

mutual

/-- The tree with a given place at its root, and with the nodes below placed accordingly. -/
def placedAt (place : Place) : StoredTree → StoredTree
  | .requirement _ tally term => .requirement place tally term
  | .negation _ tally operand => .negation place tally (operand.placedAt ⟨place.level + 1, true⟩)
  | .junction _ tally kind parts => .junction place tally kind (siblingsAt (place.level + 1) parts)

/-- The trees placed as siblings at a given level. -/
def siblingsAt (level : Nat) : List StoredTree → List StoredTree
  | [] => []
  | t :: rest => t.placedAt ⟨level, rest.isEmpty⟩ :: siblingsAt level rest

end

/-- The tree laid out from its root. -/
def finalize (t : StoredTree) : StoredTree := t.placedAt ⟨0, true⟩

mutual

/-- The tree with the verdicts that a snapshot gives, and without a layout. -/
def decided (stats : Option Snapshot) : StoredTree → StoredTree
  | .requirement _ _ term => ofTerm stats term
  | .negation _ _ operand => (operand.decided stats).not
  | .junction _ _ kind parts => joined kind (eachDecided stats parts)

/-- Some trees with the verdicts that a snapshot gives. -/
def eachDecided (stats : Option Snapshot) : List StoredTree → List StoredTree
  | [] => []
  | t :: rest => t.decided stats :: eachDecided stats rest

end

/-- The tree as a snapshot decides it, laid out from its root. -/
def evaluate (stats : Option Snapshot) (t : StoredTree) : StoredTree := (t.decided stats).finalize

/-! ### Obtaining trees -/

/-- The tree is obtained by making nodes, by transforming trees, and by descending to a child. -/
inductive IsObtained : StoredTree → Prop where
  | ofTerm (stats : Option Snapshot) (term : Term) : IsObtained (ofTerm stats term)
  | not {operand : StoredTree} : IsObtained operand → IsObtained operand.not
  | and {left right : StoredTree} :
      IsObtained left → IsObtained right → IsObtained (.all [left, right])
  | or {left right : StoredTree} :
      IsObtained left → IsObtained right → IsObtained (.any [left, right])
  | group {parts : List StoredTree} : (∀ t ∈ parts, IsObtained t) → IsObtained (group parts)
  | consolidate {t : StoredTree} : IsObtained t → IsObtained t.consolidate
  | evaluate {t : StoredTree} (stats : Option Snapshot) :
      IsObtained t → IsObtained (t.evaluate stats)
  | finalize {t : StoredTree} : IsObtained t → IsObtained t.finalize
  | child {t child : StoredTree} : IsObtained t → child ∈ t.children → IsObtained child

end StoredTree

end Prerequisite
