import Prerequisite.Proofs.Tree.Shape

/-!
# Alternation

Conjunctions and disjunctions alternate in a tree if no conjunction stands right below a
conjunction and no disjunction right below a disjunction.  They alternate in every consolidated
tree, and so in the tree of any criteria.
-/

namespace Prerequisite

/-- The connective that joins the parts of a node. The parts of a group are joined as those of a
conjunction. -/
def Junction.connective : Junction → Connective
  | .any => .or
  | .all | .group => .and

namespace Tree

/-- No conjunction stands right below a conjunction, and no disjunction right below a
disjunction. -/
inductive Alternates : Tree → Prop where
  | requirement (place : Place) (verdict : Option Bool) (term : Term) :
      Alternates (.requirement place verdict term)
  | negation {operand : Tree} (place : Place) :
      Alternates operand → Alternates (.negation place operand)
  | junction {kind : Junction} {parts : List Tree} (place : Place) :
      (kind ≠ .group → ∀ t ∈ parts, t.connective? ≠ some kind.connective) →
      (∀ t ∈ parts, Alternates t) → Alternates (.junction place kind parts)

variable {t : Tree}

theorem alternates_junction_iff {place : Place} {kind : Junction} {parts : List Tree} :
  (Tree.junction place kind parts).Alternates
    ↔ (kind ≠ .group → ∀ t ∈ parts, t.connective? ≠ some kind.connective)
      ∧ ∀ t ∈ parts, t.Alternates
  := by
  constructor
  · rintro (_ | _ | ⟨_, hconnective, hparts⟩)
    exact ⟨hconnective, hparts⟩
  · rintro ⟨hconnective, hparts⟩
    exact .junction place hconnective hparts

/-! ### The connective at the root -/

theorem connective?_junction_eq_some_iff
    {place : Place} {kind : Junction} {parts : List Tree} {connective : Connective} :
  (Tree.junction place kind parts).connective? = some connective
    ↔ kind ≠ .group ∧ kind.connective = connective
  := by
  cases kind <;> simp [connective?, Junction.connective]

@[simp]
theorem connective?_placedAt (place : Place) (t : Tree) :
  (t.placedAt place).connective? = t.connective?
  := by
  rcases t with _ | _ | ⟨_, _ | _ | _, _⟩ <;> rfl

@[simp]
theorem connective?_consolidate (t : Tree) :
  t.consolidate.connective? = t.connective?
  := by
  rcases t with _ | _ | ⟨_, _ | _ | _, _⟩ <;> rfl

/-- A part that is joined otherwise than the node above it is not replaced. -/
theorem spliced_eq_singleton {kind : Junction}
    (h : kind ≠ .group → t.connective? ≠ some kind.connective) :
  t.spliced kind = [t]
  := by
  obtain ⟨place, parts, rfl, hkind, -⟩ | hspliced := spliced_cases kind t
  · exfalso
    apply h hkind
    exact connective?_junction_eq_some_iff.mpr ⟨hkind, rfl⟩
  · exact hspliced

/-! ### Alternation and the passes over a tree -/

theorem Alternates.placedAt (h : t.Alternates) (place : Place) :
  (t.placedAt place).Alternates
  := by
  induction h generalizing place with
  | requirement _ verdict term => exact .requirement place verdict term
  | negation _ _ ih => exact .negation place (ih _)
  | junction _ hconnective _ ih =>
    rw [Tree.placedAt, alternates_junction_iff]
    constructor
    · intro hkind u hu
      obtain ⟨part, hpart, place, rfl⟩ := exists_of_mem_siblingsAt hu
      rw [connective?_placedAt]
      exact hconnective hkind part hpart
    · intro u hu
      obtain ⟨part, hpart, place, rfl⟩ := exists_of_mem_siblingsAt hu
      exact ih part hpart place

/-- Conjunctions and disjunctions alternate in what occurs in a tree in which they do. -/
theorem Alternates.of_occursIn {root : Tree} {depth : Nat} (hroot : root.Alternates)
    (h : t.OccursIn depth root) :
  t.Alternates
  := by
  induction h with
  | root => exact hroot
  | negation _ _ ih =>
    cases hroot with
    | negation _ hoperand => exact ih hoperand
  | junction _ _ hpart _ ih => exact ih ((alternates_junction_iff.mp hroot).2 _ hpart)

/-- What replaces a part of a node is joined otherwise than the node, if the part alternates. -/
theorem Alternates.connective?_ne_of_mem_spliced (h : t.Alternates) {kind : Junction}
    (hkind : kind ≠ .group) :
  ∀ u ∈ t.spliced kind, u.connective? ≠ some kind.connective
  := by
  by_cases hconnective : t.connective? = some kind.connective
  · cases t with
    | requirement place verdict term => cases hconnective
    | negation place operand => cases kind <;> cases hconnective
    | junction place k parts =>
      obtain ⟨hk, hsame⟩ := connective?_junction_eq_some_iff.mp hconnective
      obtain rfl : k = kind := by
        cases k <;> cases kind <;> simp_all [Junction.connective]
      have hspliced : (Tree.junction place k parts).spliced k = parts := by simp [spliced, hkind]
      rw [hspliced]
      exact (alternates_junction_iff.mp h).1 hkind
  · rw [spliced_eq_singleton fun _ => hconnective]
    simpa using hconnective

theorem Alternates.spliced (h : t.Alternates) (kind : Junction) :
  ∀ u ∈ t.spliced kind, u.Alternates
  := by
  obtain ⟨place, parts, rfl, -, hspliced⟩ | hspliced := spliced_cases kind t
  · rw [hspliced]
    exact (alternates_junction_iff.mp h).2
  · rw [hspliced]
    simpa using h

/-- Conjunctions and disjunctions alternate in a consolidated tree. -/
theorem alternates_consolidate (t : Tree) :
  t.consolidate.Alternates
  := by
  induction t using Tree.induction with
  | requirement _ verdict term => exact .requirement _ verdict term
  | negation _ operand ih => exact .negation _ ih
  | junction _ kind parts ih =>
    rw [consolidate, consolidateParts_eq_flatMap, alternates_junction_iff]
    constructor
    · intro hkind u hu
      obtain ⟨part, hpart, hmem⟩ := List.mem_flatMap.mp hu
      exact (ih part hpart).connective?_ne_of_mem_spliced hkind u hmem
    · intro u hu
      obtain ⟨part, hpart, hmem⟩ := List.mem_flatMap.mp hu
      exact (ih part hpart).spliced kind u hmem

theorem alternates_of_build?
    {names : Names} {stats : Option Snapshot} {criteria : List Criterion}
    (h : build? names stats criteria = some t) :
  t.Alternates
  := by
  obtain ⟨-, rfl⟩ := build?_eq_some_iff.mp h
  exact (alternates_consolidate _).placedAt _

end Tree

end Prerequisite
