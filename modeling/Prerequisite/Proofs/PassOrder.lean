import Prerequisite.Proofs.Passes
import Prerequisite.Proofs.Tree.Reassociation

/-!
# The order of passes

Consolidation looks at the connectives of a tree and at no verdict, and evaluation decides the
leaves and keeps the connectives.  So it does not matter which of the two comes first, once the tree
is laid out.  A layout stays until the next layout, and until consolidation takes it away.  What any
run of passes does to a tree is therefore told by three things: whether the tree was consolidated at
some time, which snapshot decided it last, and which pass came last.
-/

namespace Prerequisite.Tree

/-! ### Layouts -/

/-- A layout replaces the one that a tree has. -/
theorem placedAt_bare (place : Place) (t : Tree) :
  t.bare.placedAt place = t.placedAt place
  := by
  induction t using Tree.induction generalizing place with
  | requirement _ verdict term => rfl
  | negation _ operand ih => rw [bare, Tree.not, placedAt, ih, placedAt]
  | junction _ kind parts ih =>
    have hsiblings (level : Nat) :
        siblingsAt level (parts.map bare) = siblingsAt level parts := by
      induction parts with
      | nil => rfl
      | cons t rest ihrest =>
        rw [List.map_cons, siblingsAt, siblingsAt, List.isEmpty_map, ih t List.mem_cons_self,
          ihrest fun u hu => ih u (List.mem_cons_of_mem _ hu)]
    rw [bare, placedAt, placedAt, eachBare_eq_map, hsiblings]

theorem finalize_bare (t : Tree) :
  t.bare.finalize = t.finalize
  := placedAt_bare _ t

theorem finalize_finalize (t : Tree) :
  t.finalize.finalize = t.finalize
  := by
  have hbare : t.finalize.bare = t.bare := bare_placedAt _ t
  rw [← finalize_bare t.finalize, hbare, finalize_bare]

/-- Evaluation takes the layout away. -/
theorem decided_bare (stats : Option Snapshot) (t : Tree) :
  t.bare.decided stats = t.decided stats
  := by
  rw [← decided_finalize stats t.bare, finalize_bare, decided_finalize]

theorem consolidate_consolidate (t : Tree) :
  t.consolidate.consolidate = t.consolidate
  := by
  rw [(alternates_consolidate t).consolidate_eq, bare_consolidate]

/-! ### Consolidation and evaluation -/

/-- A tree that is consolidated and then evaluated is the tree that is evaluated, then consolidated
and laid out, whatever its verdicts and its layout were before. The two have the same terms,
verdicts, counts and statuses at all nodes, and the same layout. -/
theorem evaluate_consolidate (stats : Option Snapshot) (t : Tree) :
  t.consolidate.evaluate stats = (t.evaluate stats).consolidate.finalize
  := by
  rw [evaluate, decided_consolidate, evaluate, consolidate_finalize]

/-! ### Runs of passes -/

/-- What becomes of the layout of a tree in a run of passes. -/
inductive LayoutChange where
  | kept
  | removed
  | made

/-- The tree after its layout has changed. -/
def LayoutChange.apply (change : LayoutChange) (t : Tree) : Tree :=
  match change with
  | kept => t
  | removed => t.bare
  | made => t.finalize

/-- What a run of passes does to a tree. -/
structure Effect where
  /-- The snapshot that decides the tree last, if any snapshot does. -/
  decides : Option (Option Snapshot) := none
  consolidates : Bool := false
  layout : LayoutChange := .kept

namespace Effect

/-- The tree with the verdicts that a run of passes leaves. -/
def decide (e : Effect) (t : Tree) : Tree := e.decides.elim t t.decided

/-- The tree with the verdicts and the shape that a run of passes leaves. -/
def shape (e : Effect) (t : Tree) : Tree :=
  if e.consolidates then (e.decide t).consolidate else e.decide t

/-- The tree after a run of passes. -/
def apply (e : Effect) (t : Tree) : Tree := e.layout.apply (e.shape t)

/-- The effect of a run with one more pass. -/
def andThen (e : Effect) : Pass → Effect
  | .consolidate => { e with consolidates := true, layout := .removed }
  | .finalize => { e with layout := .made }
  | .evaluate stats => { e with decides := some stats, layout := .made }

end Effect

theorem consolidate_apply (change : LayoutChange) (t : Tree) :
  (change.apply t).consolidate = t.consolidate
  := by
  cases change with
  | kept => rfl
  | removed => apply consolidate_bare
  | made => apply consolidate_finalize

theorem finalize_apply (change : LayoutChange) (t : Tree) :
  (change.apply t).finalize = t.finalize
  := by
  cases change with
  | kept => rfl
  | removed => apply finalize_bare
  | made => apply finalize_finalize

theorem decided_apply (stats : Option Snapshot) (change : LayoutChange) (t : Tree) :
  (change.apply t).decided stats = t.decided stats
  := by
  cases change with
  | kept => rfl
  | removed => apply decided_bare
  | made => apply decided_finalize

namespace Effect

theorem consolidate_shape (e : Effect) (t : Tree) :
  (e.shape t).consolidate = (e.decide t).consolidate
  := by
  rw [shape]
  split
  · apply consolidate_consolidate
  · rfl

/-- Of two snapshots the last one decides, also if the tree was consolidated between them. -/
theorem decided_shape (stats : Option Snapshot) (e : Effect) (t : Tree) :
  (e.shape t).decided stats = { e with decides := some stats }.shape t
  := by
  have hdecide : (e.decide t).decided stats = t.decided stats := by
    rw [decide]
    cases e.decides with
    | none => rfl
    | some earlier => apply decided_decided
  have hlast : { e with decides := some stats }.decide t = t.decided stats := rfl
  rw [shape, shape, hlast]
  split
  · rw [decided_consolidate, hdecide]
  · exact hdecide

/-- One more pass does to a tree what it adds to the effect. -/
theorem after_apply (e : Effect) (t : Tree) (pass : Pass) :
  (e.apply t).after pass = (e.andThen pass).apply t
  := by
  cases pass with
  | consolidate =>
    rw [Tree.after, apply, consolidate_apply, consolidate_shape]
    exact (bare_consolidate (e.decide t)).symm
  | finalize => exact finalize_apply e.layout (e.shape t)
  | evaluate stats =>
    rw [Tree.after, evaluate, apply, decided_apply, decided_shape]
    rfl

end Effect

/-- The order of passes matters to the layout alone. A run of passes does to each tree what the last
snapshot, a consolidation if there was one, and the last layout do to it. -/
theorem foldl_after_eq_apply (passes : List Pass) (t : Tree) :
  passes.foldl after t = (passes.foldl Effect.andThen {}).apply t
  := by
  suffices hrun : ∀ e : Effect,
      passes.foldl after (e.apply t) = (passes.foldl Effect.andThen e).apply t from hrun {}
  induction passes with
  | nil =>
    intro e
    rfl
  | cons pass rest ih =>
    intro e
    rw [List.foldl_cons, List.foldl_cons, e.after_apply, ih]

end Prerequisite.Tree
