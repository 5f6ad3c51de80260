import Prerequisite.Proofs.Blockers
import Prerequisite.Proofs.Grammar

/-!
# Plain conjunctions

Criteria whose connectives are all conjunctions have a flat tree, which is a single requirement, or
a conjunction or group of requirements.  The tally of a flat tree and its blockers are determined by
its leaves.  So it cannot be told from the outcome whether such criteria were read as an expression
or taken as a group at once, nor where the conjunctions stood, nor whether there were any.
-/

namespace Prerequisite

namespace Tree

/-! ### Flat trees -/

/-- The tree is a requirement, or a conjunction or group of requirements. -/
inductive IsFlat : Tree → Prop where
  | requirement (place : Place) (verdict : Option Bool) (term : Term) :
      IsFlat (.requirement place verdict term)
  | junction {kind : Junction} {parts : List Tree} (place : Place) :
      kind ≠ .any → (∀ t ∈ parts, t.term?.isSome) → IsFlat (.junction place kind parts)

theorem exists_eq_requirement {t : Tree} (h : t.term?.isSome) :
  ∃ place verdict term, t = .requirement place verdict term
  := by
  cases t with
  | requirement place verdict term => exact ⟨place, verdict, term, rfl⟩
  | negation place operand => simp [term?] at h
  | junction place kind parts => simp [term?] at h

@[simp]
theorem term?_placedAt (place : Place) (t : Tree) :
  (t.placedAt place).term? = t.term?
  := by
  cases t <;> rfl

theorem IsFlat.placedAt {t : Tree} (h : t.IsFlat) (place : Place) :
  (t.placedAt place).IsFlat
  := by
  cases h with
  | requirement _ verdict term => exact .requirement place verdict term
  | junction _ hkind hparts =>
    apply IsFlat.junction place hkind
    intro u hu
    obtain ⟨part, hpart, place, rfl⟩ := exists_of_mem_siblingsAt hu
    rw [term?_placedAt]
    exact hparts part hpart

/-- A tree is flat if it would add nothing but requirements to a conjunction above it. -/
theorem isFlat_of_spliced {t : Tree} (h : ∀ u ∈ t.spliced .all, u.term?.isSome) :
  t.IsFlat
  := by
  obtain ⟨place, parts, rfl, -, hspliced⟩ | hspliced := spliced_cases .all t
  · rw [hspliced] at h
    exact .junction place (by simp) h
  · rw [hspliced] at h
    obtain ⟨place, verdict, term, rfl⟩ := exists_eq_requirement (h t (List.mem_singleton_self t))
    exact .requirement place verdict term

/-- A requirement counts as a conjunction of which it is the only part. -/
theorem all_singleton_ofVerdict (verdict : Option Bool) :
  Tally.all [.ofStatus (.ofVerdict verdict)] = .ofStatus (.ofVerdict verdict)
  := by
  rcases verdict with _ | _ | _ <;> decide

/-- A flat tree is counted as the conjunction of its leaves. -/
theorem IsFlat.tally_eq {t : Tree} (h : t.IsFlat) :
  t.tally = .all (t.leaves.map fun leaf => .ofStatus (.ofVerdict leaf.2))
  := by
  cases h with
  | requirement place verdict term =>
    rw [tally, leaves, List.map_singleton, all_singleton_ofVerdict]
  | @junction kind parts place hkind hparts =>
    rw [tally_all place hkind, leaves, leavesOf_eq_flatMap, List.map_flatMap, List.map_eq_flatMap]
    congr 1
    apply List.flatMap_congr
    intro t ht
    obtain ⟨place, verdict, term, rfl⟩ := exists_eq_requirement (hparts t ht)
    rfl

/-- A flat tree is blocked by its leaves that fail. -/
theorem IsFlat.blockers_eq {t : Tree} (h : t.IsFlat) :
  t.blockers = (t.leaves.filter (·.2 = some false)).map fun leaf => ⟨false, leaf.1⟩
  := by
  cases h with
  | requirement place verdict term =>
    rcases verdict with _ | _ | _ <;> rfl
  | @junction kind parts place hkind hparts =>
    have hnil : ∀ part ∈ parts, ¬ part.status.isBlocking → part.blockers = [] := by
      intro part hpart hpasses
      obtain ⟨place, verdict, term, rfl⟩ := exists_eq_requirement (hparts part hpart)
      rw [status_requirement, Status.isBlocking_ofVerdict_iff] at hpasses
      rw [blockers, if_neg hpasses]
    rw [blockers_all_of_eq_nil hkind hnil, leaves, leavesOf_eq_flatMap, List.filter_flatMap,
      List.map_flatMap]
    apply List.flatMap_congr
    intro t ht
    obtain ⟨place, verdict, term, rfl⟩ := exists_eq_requirement (hparts t ht)
    rcases verdict with _ | _ | _ <;> rfl

section Congruence

variable {t t' : Tree}

theorem IsFlat.tally_congr (h : t.IsFlat) (h' : t'.IsFlat) (hleaves : t.leaves = t'.leaves) :
  t.tally = t'.tally
  := by
  rw [h.tally_eq, h'.tally_eq, hleaves]

theorem IsFlat.outcome_congr (h : t.IsFlat) (h' : t'.IsFlat) (hleaves : t.leaves = t'.leaves)
    (s : Snapshot) :
  t.outcome s = t'.outcome s
  := by
  rw [outcome, outcome, shortfalls, shortfalls, h.blockers_eq, h'.blockers_eq, status, status,
    h.tally_congr h' hleaves, hleaves]

end Congruence

/-! ### The tree of a plain conjunction -/

theorem isFlat_groupOf (stats : Option Snapshot) (terms : List Term) :
  (groupOf stats terms).IsFlat
  := by
  apply IsFlat.junction _ (by simp)
  intro t ht
  obtain ⟨term, -, rfl⟩ := List.mem_map.mp ht
  rfl

/-- The tree of an expression whose connectives are conjunctions has nothing but requirements to add
to a conjunction above it. -/
theorem term?_of_mem_spliced {e : Postfix.Expression}
    (hand : ∀ connective ∈ e.connectives, connective = .and) (stats : Option Snapshot) :
  ∀ u ∈ (e.value (meaning stats)).consolidate.spliced .all, u.term?.isSome
  := by
  induction e with
  | operand term =>
    intro u hu
    obtain rfl := List.mem_singleton.mp hu
    rfl
  | not e _ => simpa using hand .not (by simp [Postfix.Expression.connectives])
  | or left right _ _ => simpa using hand .or (by simp [Postfix.Expression.connectives])
  | and left right hleft hright =>
    simp only [Postfix.Expression.connectives, List.mem_append] at hand
    have hleft := hleft fun connective hmem => hand connective (.inl (.inl hmem))
    have hright := hright fun connective hmem => hand connective (.inl (.inr hmem))
    have hspliced : ((left.and right).value (meaning stats)).consolidate.spliced .all
        = (left.value (meaning stats)).consolidate.spliced .all
          ++ (right.value (meaning stats)).consolidate.spliced .all := by
      simp [Postfix.Expression.value, meaning, Tree.all, consolidate, spliced]
    intro u hu
    rw [hspliced] at hu
    obtain hu | hu := List.mem_append.mp hu
    · exact hleft u hu
    · exact hright u hu

section Conjunctions

variable {terms : List Term}
  (hand : ∀ term ∈ terms, ∀ connective, term.connective? = some connective → connective = .and)
include hand

theorem isFlat_consolidate_of_spells
    {depth : Nat} {e : Postfix.Expression}
    (h : Postfix.Spells (Postfix.withoutSkipped depth terms) e) (stats : Option Snapshot) :
  (e.value (meaning stats)).consolidate.IsFlat
  := by
  apply isFlat_of_spliced
  apply term?_of_mem_spliced
  intro connective hmem
  obtain ⟨term, hterm, hconnective⟩ := Postfix.mem_connectives_of_spells h hmem
  exact hand term hterm connective hconnective

/-- Terms whose connectives are conjunctions denote a tree that is flat when it is consolidated. -/
theorem isFlat_consolidate_rough (stats : Option Snapshot) :
  (rough stats terms).consolidate.IsFlat
  := by
  obtain hgroup | ⟨e, hspells, hrough⟩ := rough_cases stats terms
  · rw [hgroup, consolidate_groupOf]
    apply isFlat_groupOf
  · rw [hrough]
    apply isFlat_consolidate_of_spells hand hspells

end Conjunctions

/-- Criteria whose connectives are conjunctions have a flat tree. -/
theorem isFlat_of_build?
    {names : Names} {stats : Option Snapshot} {criteria : List Criterion} {t : Tree}
    (hand : ∀ c ∈ criteria, ∀ connective, c.kind = .connective connective → connective = .and)
    (hbuilt : build? names stats criteria = some t) :
  t.IsFlat
  := by
  obtain ⟨-, rfl⟩ := build?_eq_some_iff.mp hbuilt
  apply IsFlat.placedAt
  apply isFlat_consolidate_rough
  intro term hterm connective hconnective
  obtain ⟨c, hc, rfl⟩ := List.mem_map.mp hterm
  exact hand c hc connective (Criterion.connective?_term_eq_some_iff.mp hconnective)

end Tree

/-! ### Erasing conjunctions -/

/-- The operands among some criteria are the same when the conjunctions are erased. -/
theorem filter_isOperand_terms_erased (names : Names) (criteria : List Criterion) :
  (terms names (criteria.filter (·.kind ≠ .connective .and))).filter Term.isOperand
    = (terms names criteria).filter Term.isOperand
  := by
  rw [terms, terms, List.filter_map, List.filter_map, List.filter_filter]
  congr 1
  apply List.filter_congr
  intro c _
  by_cases hand : c.kind = .connective .and
  · have hconnective : ¬ (c.term names).isOperand := fun hoperand =>
      Criterion.isOperand_term_iff.mp hoperand .and hand
    simp [hconnective]
  · simp [hand]

/-- Let the connectives among the criteria of an action be conjunctions, and let there be an
operand. When the conjunctions are erased, the tree of the criteria still has the same tally and the
same leaves, and the check of the action has the same outcome. -/
theorem check_eq_of_conjunctions_erased
    {names : Names} {criteria : List Criterion}
    (hoperand : ∃ c ∈ criteria, ∀ connective, c.kind ≠ .connective connective)
    (hand : ∀ c ∈ criteria, ∀ connective, c.kind = .connective connective → connective = .and) :
  (∀ stats, ∃ t t', Tree.build? names stats criteria = some t
    ∧ Tree.build? names stats (criteria.filter (·.kind ≠ .connective .and)) = some t'
    ∧ t.tally = t'.tally ∧ t.leaves = t'.leaves)
  ∧ ∀ s, check names criteria s = check names (criteria.filter (·.kind ≠ .connective .and)) s
  := by
  have hflat : ∀ stats, ∃ t t', Tree.build? names stats criteria = some t
      ∧ Tree.build? names stats (criteria.filter (·.kind ≠ .connective .and)) = some t'
      ∧ t.IsFlat ∧ t'.IsFlat ∧ t.leaves = t'.leaves := by
    intro stats
    obtain ⟨c, hc, hkind⟩ := hoperand
    have hc' : c ∈ criteria.filter (·.kind ≠ .connective .and) :=
      List.mem_filter.mpr ⟨hc, by simpa using hkind .and⟩
    obtain ⟨t, hbuilt⟩ := Tree.exists_build? names stats (List.ne_nil_of_mem hc)
    obtain ⟨t', hbuilt'⟩ := Tree.exists_build? names stats (List.ne_nil_of_mem hc')
    refine ⟨t, t', hbuilt, hbuilt', Tree.isFlat_of_build? hand hbuilt,
      Tree.isFlat_of_build? (fun c hc => hand c (List.mem_of_mem_filter hc)) hbuilt', ?_⟩
    rw [Tree.leaves_of_build? hbuilt, Tree.leaves_of_build? hbuilt', filter_isOperand_terms_erased]
  constructor
  · intro stats
    obtain ⟨t, t', hbuilt, hbuilt', hflat, hflat', hleaves⟩ := hflat stats
    exact ⟨t, t', hbuilt, hbuilt', hflat.tally_congr hflat' hleaves, hleaves⟩
  · intro s
    obtain ⟨t, t', hbuilt, hbuilt', hflat, hflat', hleaves⟩ := hflat (some s)
    rw [check, check, hbuilt, hbuilt']
    exact hflat.outcome_congr hflat' hleaves s

/-- A single operand is a requirement when conjunctions stand around it, and a group when it stands
alone. -/
theorem check_eq_of_single_operand :
  let criteria : List Criterion := [.sentinel 0 4, ⟨1, 1, 0, 1⟩, .sentinel 2 4]
  (∃ c ∈ criteria, ∀ connective, c.kind ≠ .connective connective)
    ∧ (∀ c ∈ criteria, ∀ connective, c.kind = .connective connective → connective = .and)
    ∧ criteria.filter (·.kind ≠ .connective .and) = [⟨1, 1, 0, 1⟩]
    ∧ isPlainConjunction (terms .none criteria) = false
    ∧ isPlainConjunction (terms .none [⟨1, 1, 0, 1⟩]) = true
    ∧ check .none criteria ∅ = check .none [⟨1, 1, 0, 1⟩] ∅
  := by
  intro criteria
  have hoperand : ∃ c ∈ criteria, ∀ connective, c.kind ≠ .connective connective := by
    have hkind : (⟨1, 1, 0, 1⟩ : Criterion).kind = .stat (some .equal) := by decide
    refine ⟨⟨1, 1, 0, 1⟩, by decide, ?_⟩
    simp [hkind]
  have hand : ∀ c ∈ criteria, ∀ connective,
      c.kind = .connective connective → connective = .and := by
    have hothers : ∀ c ∈ criteria, c.kind ≠ .connective .or ∧ c.kind ≠ .connective .not := by
      decide
    rintro c hc (_ | _ | _) hkind
    · rfl
    · exact absurd hkind (hothers c hc).1
    · exact absurd hkind (hothers c hc).2
  have herased : criteria.filter (·.kind ≠ .connective .and) = [⟨1, 1, 0, 1⟩] := by decide
  refine ⟨hoperand, hand, herased, by decide, by decide, ?_⟩
  rw [← herased]
  exact (check_eq_of_conjunctions_erased hoperand hand).2 ∅

end Prerequisite
