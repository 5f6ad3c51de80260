import Prerequisite.Proofs.Tree.Tallies
import Prerequisite.Tree.Evaluation
import Prerequisite.Tree.Stored

/-!
# Stored tallies

Each tree can be given the tally of each node to store.  Whatever makes or transforms trees does the
same to the trees with their tallies, although it reads the stored tallies and never computes the
tally of a whole tree.  So in each tree that is obtained, the nodes store the tallies of the trees
below them, and nothing is lost when the stored tallies are erased.
-/

namespace Prerequisite

namespace StoredTree

@[simp]
theorem consolidateParts_eq_flatMap (kind : Junction) (parts : List StoredTree) :
  consolidateParts kind parts = parts.flatMap fun t => t.consolidate.spliced kind
  := by
  induction parts with
  | nil => rfl
  | cons t rest ih => simp [consolidateParts, ih]

@[simp]
theorem eachDecided_eq_map (stats : Option Snapshot) (parts : List StoredTree) :
  eachDecided stats parts = parts.map (decided stats)
  := by
  induction parts with
  | nil => rfl
  | cons t rest ih => simp [eachDecided, ih]

end StoredTree

namespace Tree

/-! ### Storing the tallies -/

mutual

/-- The tree with the tally of each node. -/
def stored : Tree → StoredTree
  | .requirement place verdict term =>
    .requirement place (Tree.requirement place verdict term).tally term
  | .negation place operand => .negation place (Tree.negation place operand).tally operand.stored
  | .junction place kind parts =>
    .junction place (Tree.junction place kind parts).tally kind (eachStored parts)

/-- Some trees with the tallies of their nodes. -/
def eachStored : List Tree → List StoredTree
  | [] => []
  | t :: rest => t.stored :: eachStored rest

end

@[simp]
theorem eachStored_eq_map (parts : List Tree) :
  eachStored parts = parts.map stored
  := by
  induction parts with
  | nil => rfl
  | cons t rest ih => simp [eachStored, ih]

@[simp]
theorem tally_stored (t : Tree) :
  t.stored.tally = t.tally
  := by
  cases t <;> rfl

theorem children_stored (t : Tree) :
  t.stored.children = t.children.map stored
  := by
  cases t <;> simp [stored, StoredTree.children, children]

/-! ### Making nodes -/

theorem contribution_stored (t : Tree) :
  t.stored.contribution = (t.tally.met, t.tally.total)
  := by
  cases t <;> simp [stored, StoredTree.contribution, StoredTree.tally, tally, Tally.ofStatus]

theorem aggregate_stored (parts : List Tree) :
  StoredTree.aggregate (parts.map stored)
    = (Tally.sum (parts.map (·.tally.met)), Tally.sum (parts.map (·.tally.total)))
  := by
  rw [StoredTree.aggregate, List.foldl_map, Tally.sum, Tally.sum, List.foldl_map, List.foldl_map]
  simp only [contribution_stored]
  exact List.foldl_hom₂ parts Prod.mk _ _ _ 0 0 fun _ _ _ => rfl

theorem tallyAll_stored (parts : List Tree) :
  StoredTree.tallyAll (parts.map stored) = .all (parts.map tally)
  := by
  simp [StoredTree.tallyAll, aggregate_stored, Tally.all, Function.comp_def]

theorem tallyAny_stored (parts : List Tree) :
  StoredTree.tallyAny (parts.map stored) = .any (parts.map tally)
  := by
  have hsatisfied : (parts.map stored).any (fun part =>
      part.tally.status = .met ∨ part.tally.status = .partly ∧ 0 < part.tally.met)
      = (parts.map tally).any Tally.satisfies := by
    simp [Function.comp_def, Tally.satisfies]
  have hunknown : (parts.map stored).any (·.tally.status = .unknown)
      = (parts.map tally).any (·.status = .unknown) := by
    simp [Function.comp_def]
  rw [StoredTree.tallyAny, hsatisfied, hunknown, Tally.any]
  cases (parts.map tally).any Tally.satisfies with
  | true => rfl
  | false => cases (parts.map tally).any (·.status = .unknown) <;> rfl

theorem tallyNot_stored (operand : Tree) :
  StoredTree.tallyNot operand.stored = operand.tally.not
  := by
  rw [StoredTree.tallyNot, tally_stored, Tally.not]

theorem stored_ofTerm (stats : Option Snapshot) (term : Term) :
  (ofTerm stats term).stored = .ofTerm stats term
  := by
  simp [ofTerm, stored, StoredTree.ofTerm, tally]

theorem stored_not (operand : Tree) :
  operand.not.stored = operand.stored.not
  := by
  rw [Tree.not, stored, tally_negation, StoredTree.not, tallyNot_stored]

theorem stored_junction (kind : Junction) (parts : List Tree) :
  (Tree.junction {} kind parts).stored = .joined kind (parts.map stored)
  := by
  rw [stored, eachStored_eq_map]
  cases kind with
  | any => rw [tally_any, StoredTree.joined, StoredTree.any, tallyAny_stored]
  | all => rw [tally_all _ (by decide), StoredTree.joined, StoredTree.all, tallyAll_stored]
  | group => rw [tally_all _ (by decide), StoredTree.joined, StoredTree.group, tallyAll_stored]

/-! ### Transforming trees -/

mutual

theorem stored_placedAt (place : Place) (t : Tree) :
  (t.placedAt place).stored = t.stored.placedAt place
  := by
  cases t with
  | requirement _ verdict term => rfl
  | negation _ operand =>
    rw [placedAt, stored, stored, StoredTree.placedAt, stored_placedAt _ operand, tally_negation,
      tally_negation, tally_placedAt]
  | junction before kind parts =>
    have htally := tally_placedAt place (.junction before kind parts)
    rw [placedAt] at htally ⊢
    rw [stored, stored, StoredTree.placedAt, htally, eachStored_siblingsAt]

theorem eachStored_siblingsAt (level : Nat) (parts : List Tree) :
  eachStored (siblingsAt level parts) = StoredTree.siblingsAt level (eachStored parts)
  := by
  match parts with
  | [] => rfl
  | t :: rest =>
    have hempty : (eachStored rest).isEmpty = rest.isEmpty := by simp
    rw [siblingsAt, eachStored, eachStored, StoredTree.siblingsAt, stored_placedAt _ t,
      eachStored_siblingsAt _ rest, hempty]

end

theorem stored_finalize (t : Tree) :
  t.finalize.stored = t.stored.finalize
  := stored_placedAt _ t

theorem stored_decided (stats : Option Snapshot) (t : Tree) :
  (t.decided stats).stored = t.stored.decided stats
  := by
  induction t using Tree.induction with
  | requirement place verdict term => rw [decided, stored_ofTerm, stored, StoredTree.decided]
  | negation place operand ih => rw [decided, stored_not, ih, stored, StoredTree.decided]
  | junction place kind parts ih =>
    rw [decided, eachDecided_eq_map, stored_junction, stored, StoredTree.decided, eachStored_eq_map,
      StoredTree.eachDecided_eq_map, List.map_map, List.map_map]
    congr 1
    apply List.map_congr_left ih

theorem stored_evaluate (stats : Option Snapshot) (t : Tree) :
  (t.evaluate stats).stored = t.stored.evaluate stats
  := by
  rw [evaluate, stored_finalize, stored_decided, StoredTree.evaluate]

theorem place_consolidate (t : Tree) :
  t.consolidate.place = {}
  := by
  cases t <;> rfl

/-- The trees right below the root of a consolidated tree have no places yet. -/
theorem place_of_mem_children_consolidate (t : Tree) :
  ∀ child ∈ t.consolidate.children, child.place = {}
  := by
  induction t using Tree.induction with
  | requirement place verdict term => simp [consolidate, children]
  | negation place operand _ => simp [consolidate, Tree.not, children, place_consolidate]
  | junction place kind parts ih =>
    intro child hchild
    rw [consolidate, children, consolidateParts_eq_flatMap, List.mem_flatMap] at hchild
    obtain ⟨part, hpart, hspliced⟩ := hchild
    obtain ⟨_, _, heq, -, hparts⟩ | hself := spliced_cases kind part.consolidate
    · apply ih part hpart
      rw [hparts] at hspliced
      rwa [heq, children]
    · rw [hself, List.mem_singleton] at hspliced
      rw [hspliced, place_consolidate]

theorem detached_stored {t : Tree} (h : t.place = {}) :
  t.stored.detached = t.stored
  := by
  cases t <;> simp_all [place, stored, StoredTree.detached]

theorem stored_spliced (kind : Junction) {t : Tree} (h : ∀ child ∈ t.children, child.place = {}) :
  (t.spliced kind).map stored = t.stored.spliced kind
  := by
  cases t with
  | requirement _ _ _ => rfl
  | negation _ _ => rfl
  | junction place k parts =>
    have hdetached : (parts.map stored).map StoredTree.detached = parts.map stored := by
      rw [List.map_map]
      apply List.map_congr_left
      intro part hpart
      exact detached_stored (h part hpart)
    rw [spliced, stored, StoredTree.spliced, eachStored_eq_map, hdetached]
    split_ifs
    · rfl
    · rw [List.map_singleton, stored, eachStored_eq_map]

theorem stored_consolidate (t : Tree) :
  t.consolidate.stored = t.stored.consolidate
  := by
  induction t using Tree.induction with
  | requirement place verdict term => rfl
  | negation place operand ih => rw [consolidate, stored_not, ih, stored, StoredTree.consolidate]
  | junction place kind parts ih =>
    rw [consolidate, stored_junction, stored, StoredTree.consolidate, eachStored_eq_map,
      consolidateParts_eq_flatMap, StoredTree.consolidateParts_eq_flatMap, List.map_flatMap,
      List.flatMap_map]
    congr 1
    apply List.flatMap_congr
    intro part hpart
    rw [← ih part hpart, stored_spliced kind part.place_of_mem_children_consolidate]

end Tree

/-! ### Erasing the tallies -/

/-- The verdict that leads to the status, if there is one. -/
def Status.verdict? : Status → Option Bool
  | .met => some true
  | .unmet => some false
  | .partly => none
  | .unknown => none

namespace StoredTree

mutual

/-- The tree without the tallies. -/
def erase : StoredTree → Tree
  | .requirement place tally term => .requirement place tally.status.verdict? term
  | .negation place _ operand => .negation place operand.erase
  | .junction place _ kind parts => .junction place kind (eraseEach parts)

/-- Some trees without the tallies. -/
def eraseEach : List StoredTree → List Tree
  | [] => []
  | t :: rest => t.erase :: eraseEach rest

end

@[simp]
theorem eraseEach_eq_map (parts : List StoredTree) :
  eraseEach parts = parts.map erase
  := by
  induction parts with
  | nil => rfl
  | cons t rest ih => simp [eraseEach, ih]

/-- Nothing is lost when the tallies of the nodes are stored and erased again. -/
theorem erase_stored (t : Tree) :
  t.stored.erase = t
  := by
  induction t using Tree.induction with
  | requirement place verdict term => rcases verdict with _ | _ | _ <;> rfl
  | negation place operand ih => rw [Tree.stored, erase, ih]
  | junction place kind parts ih =>
    have hparts : parts.map (erase ∘ Tree.stored) = parts.map id := List.map_congr_left ih
    rw [Tree.stored, erase, Tree.eachStored_eq_map, eraseEach_eq_map, List.map_map, hparts,
      List.map_id]

/-- Each node of a tree that is obtained stores the tally of the tree below it. -/
theorem IsObtained.exists_stored {t : StoredTree} (h : t.IsObtained) :
  ∃ u : Tree, t = u.stored
  := by
  induction h with
  | ofTerm stats term =>
    use Tree.ofTerm stats term
    rw [Tree.stored_ofTerm]
  | not _ ih =>
    obtain ⟨u, rfl⟩ := ih
    use u.not
    rw [Tree.stored_not]
  | and _ _ ihleft ihright =>
    obtain ⟨u, rfl⟩ := ihleft
    obtain ⟨v, rfl⟩ := ihright
    use .all [u, v]
    rw [Tree.all, Tree.stored_junction]
    rfl
  | or _ _ ihleft ihright =>
    obtain ⟨u, rfl⟩ := ihleft
    obtain ⟨v, rfl⟩ := ihright
    use .any [u, v]
    rw [Tree.any, Tree.stored_junction]
    rfl
  | @group parts _ ih =>
    have hparts : parts.map (Tree.stored ∘ erase) = parts.map id := by
      apply List.map_congr_left
      intro part hpart
      obtain ⟨u, rfl⟩ := ih part hpart
      exact congrArg Tree.stored (erase_stored u)
    use Tree.group (parts.map erase)
    rw [Tree.group, Tree.stored_junction, List.map_map, hparts, List.map_id]
    rfl
  | consolidate _ ih =>
    obtain ⟨u, rfl⟩ := ih
    use u.consolidate
    rw [Tree.stored_consolidate]
  | evaluate stats _ ih =>
    obtain ⟨u, rfl⟩ := ih
    use u.evaluate stats
    rw [Tree.stored_evaluate]
  | finalize _ ih =>
    obtain ⟨u, rfl⟩ := ih
    use u.finalize
    rw [Tree.stored_finalize]
  | child _ hchild ih =>
    obtain ⟨u, rfl⟩ := ih
    rw [Tree.children_stored, List.mem_map] at hchild
    obtain ⟨v, -, rfl⟩ := hchild
    use v

/-- Nothing is lost when the stored tallies of a tree that is obtained are erased. -/
theorem IsObtained.stored_erase {t : StoredTree} (h : t.IsObtained) :
  t.erase.stored = t
  := by
  obtain ⟨u, rfl⟩ := h.exists_stored
  rw [erase_stored]

/-- The tally that is stored is the tally of the tree. -/
theorem IsObtained.tally_erase {t : StoredTree} (h : t.IsObtained) :
  t.erase.tally = t.tally
  := by
  rw [← Tree.tally_stored, h.stored_erase]

/-- The counts and the status that are stored agree. -/
theorem IsObtained.isConsistent_tally {t : StoredTree} (h : t.IsObtained) :
  t.tally.IsConsistent
  := by
  rw [← h.tally_erase]
  apply Tree.isConsistent_tally

end StoredTree

end Prerequisite
