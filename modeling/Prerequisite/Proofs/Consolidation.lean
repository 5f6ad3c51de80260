import Prerequisite.Proofs.Blockers
import Prerequisite.Proofs.Tree.Positive

/-!
# What consolidation keeps

Consolidation takes conjunctions out of conjunctions and disjunctions out of disjunctions.  The
counts and the status of a tree do not show whether this was done, not even where the counts
exceed the largest count, so that the tree keeps its tally.  Without negations and with few leaves
it keeps its blockers, too: a conjunction that is taken out is blocking if one of its parts is, and
a disjunction that is taken out of a blocking disjunction is blocking itself.
-/

namespace Prerequisite

namespace Tally

/-! ### Junctions of junctions -/

section FlatMap

variable {α : Type} {parts : List α} {pieces : α → List Tally} {whole : α → Tally}

/-- Some counts may be replaced by their sums. -/
theorem sum_flatMap {counts : α → List Nat} {count : α → Nat}
    (h : ∀ a ∈ parts, counts a = [count a] ∨ sum (counts a) = count a) :
  sum (parts.flatMap counts) = sum (parts.map count)
  := by
  induction parts with
  | nil => rfl
  | cons a rest ih =>
    have hrest := ih fun b hb => h b (List.mem_cons_of_mem _ hb)
    rw [sum_eq_min, sum_eq_min] at hrest
    rw [sum_eq_min, sum_eq_min, List.flatMap_cons, List.map_cons, List.sum_append, List.sum_cons]
    obtain hone | hsum := h a List.mem_cons_self
    · rw [hone, List.sum_singleton]
      omega
    · rw [sum_eq_min] at hsum
      omega

/-- What counts in some conjunctions is what counts in their parts. -/
theorem sum_map_flatMap {f : Tally → Nat}
    (hf : ∀ tallies, f (all tallies) = sum (tallies.map f))
    (h : ∀ a ∈ parts, pieces a = [whole a] ∨ all (pieces a) = whole a) :
  sum ((parts.flatMap pieces).map f) = sum ((parts.map whole).map f)
  := by
  rw [List.map_flatMap, List.map_map]
  apply sum_flatMap
  intro a ha
  obtain hone | hall := h a ha
  · left
    rw [hone]
    rfl
  · right
    rw [← hf, hall]
    rfl

theorem any_flatMap_eq_any_map {p : Tally → Bool}
    (h : ∀ a ∈ parts, (pieces a).any p = p (whole a)) :
  (parts.flatMap pieces).any p = (parts.map whole).any p
  := by
  induction parts with
  | nil => rfl
  | cons a rest ih =>
    rw [List.flatMap_cons, List.any_append, List.map_cons, List.any_cons, h a List.mem_cons_self,
      ih fun b hb => h b (List.mem_cons_of_mem _ hb)]

theorem sum_met_le_flatMap {a : α} (ha : a ∈ parts) :
  ((pieces a).map Tally.met).sum ≤ ((parts.flatMap pieces).map Tally.met).sum
  := by
  rw [List.map_flatMap, List.flatMap_def, List.sum_flatten, List.map_map]
  apply List.le_sum_of_mem
  exact List.mem_map_of_mem ha

/-- Conjunctions with the same counts are alike if one has a blocking part exactly when the other
one has. -/
theorem all_congr {ts us : List Tally}
    (hmet : sum (ts.map Tally.met) = sum (us.map Tally.met))
    (htotal : sum (ts.map total) = sum (us.map total))
    (hblocking : (all ts).status ≠ .met →
      ts.any (·.status.isBlocking) = us.any (·.status.isBlocking)) :
  all ts = all us
  := by
  rw [ne_eq, status_all_eq_met_iff, hmet, htotal] at hblocking
  simp only [all, hmet, htotal]
  split_ifs <;> simp_all

/-- A conjunction of conjunctions counts as the conjunction of all their parts. -/
theorem all_flatMap
    (hconsistent : ∀ a ∈ parts, ∀ piece ∈ pieces a, piece.IsConsistent)
    (h : ∀ a ∈ parts, pieces a = [whole a] ∨ all (pieces a) = whole a) :
  all (parts.flatMap pieces) = all (parts.map whole)
  := by
  apply all_congr (sum_map_flatMap (fun _ => rfl) h) (sum_map_flatMap (fun _ => rfl) h)
  intro hmet
  apply any_flatMap_eq_any_map
  intro a ha
  obtain hone | hall := h a ha
  · rw [hone, List.any_cons, List.any_nil, Bool.or_false]
  · rw [← hall, Bool.eq_iff_iff, List.any_eq_true]
    constructor
    · rintro ⟨piece, hpiece, hblocking⟩
      obtain hwhole | hlimit := isBlocking_all_or_countLimit_le (hconsistent a ha) hpiece hblocking
      · exact hwhole
      · -- if the part counts up to the limit then the conjunction does so too, and it is met
        exfalso
        apply hmet
        apply status_all_eq_met_of_countLimit_le
        · intro piece hpiece
          obtain ⟨a, ha, hpiece⟩ := List.mem_flatMap.mp hpiece
          exact (hconsistent a ha piece hpiece).met_le_total
        · exact hlimit.trans (sum_met_le_flatMap ha)
    · apply exists_isBlocking_of_all

theorem satisfies_any (tallies : List Tally) :
  (any tallies).satisfies = tallies.any satisfies
  := by
  rw [Bool.eq_iff_iff, satisfies_iff, List.any_eq_true, status_any_eq_met_iff]
  apply or_iff_left
  rintro ⟨hpartly, -⟩
  revert hpartly
  rw [any]
  split_ifs <;> simp

theorem status_any_eq_unknown_iff {tallies : List Tally} (h : tallies.any satisfies = false) :
  (any tallies).status = .unknown ↔ ∃ tally ∈ tallies, tally.status = .unknown
  := by
  rw [any, h]
  split_ifs <;> simp_all

/-- Disjunctions are alike if one has a part that satisfies it exactly when the other one has, and
if one has an unknown part exactly when the other one has. -/
theorem any_congr {ts us : List Tally} (hsatisfied : ts.any satisfies = us.any satisfies)
    (hunknown : ts.any satisfies = false →
      ts.any (·.status = .unknown) = us.any (·.status = .unknown)) :
  any ts = any us
  := by
  rw [any, any, ← hsatisfied]
  by_cases h : ts.any satisfies
  · rw [if_pos h, if_pos h]
  · rw [if_neg h, if_neg h, hunknown (Bool.eq_false_of_not_eq_true h)]

/-- A disjunction of disjunctions counts as the disjunction of all their parts. -/
theorem any_flatMap (h : ∀ a ∈ parts, pieces a = [whole a] ∨ any (pieces a) = whole a) :
  any (parts.flatMap pieces) = any (parts.map whole)
  := by
  apply any_congr
  · apply any_flatMap_eq_any_map
    intro a ha
    obtain hone | hany := h a ha
    · rw [hone, List.any_cons, List.any_nil, Bool.or_false]
    · rw [← hany, satisfies_any]
  · intro hnone
    apply any_flatMap_eq_any_map
    intro a ha
    obtain hone | hany := h a ha
    · rw [hone, List.any_cons, List.any_nil, Bool.or_false]
    · rw [List.any_flatMap, List.any_eq_false] at hnone
      have hpieces := Bool.eq_false_of_not_eq_true (hnone a ha)
      rw [← hany, Bool.eq_iff_iff, List.any_eq_true, decide_eq_true_iff,
        status_any_eq_unknown_iff hpieces]
      simp only [decide_eq_true_iff]

end FlatMap

end Tally

namespace Tree

/-! ### The tally of a consolidated tree -/

/-- What replaces a part is the part alone, or it counts as the part when it is joined again. -/
theorem map_tally_spliced (kind : Junction) (t : Tree) :
  (t.spliced kind).map tally = [t.tally]
    ∨ (Tree.junction {} kind (t.spliced kind)).tally = t.tally
  := by
  obtain ⟨place, parts, rfl, -, hspliced⟩ | hspliced := spliced_cases kind t
  · right
    rw [hspliced]
    cases kind <;> simp only [tally]
  · left
    rw [hspliced, List.map_singleton]

/-- Consolidation keeps the counts and the status of a tree. -/
theorem tally_consolidate (t : Tree) :
  t.consolidate.tally = t.tally
  := by
  induction t using Tree.induction with
  | requirement _ verdict term => rfl
  | negation _ operand ih => rw [consolidate, Tree.not, tally_negation, tally_negation, ih]
  | junction place kind parts ih =>
    rw [consolidate, consolidateParts_eq_flatMap]
    by_cases hkind : kind = .any
    · rw [hkind, tally_any, tally_any, List.map_flatMap]
      apply Tally.any_flatMap
      intro part hpart
      rw [← ih part hpart, ← tally_any {}]
      apply map_tally_spliced
    · rw [tally_all {} hkind, tally_all place hkind, List.map_flatMap]
      apply Tally.all_flatMap
      · intro part _
        apply isConsistent_of_mem_map
      · intro part hpart
        rw [← ih part hpart, ← tally_all {} hkind]
        apply map_tally_spliced

/-! ### Leaves that are met and leaves that block -/

theorem exists_obstructs_iff {t : Tree} :
  (∃ negated, t.obstructs negated) ↔ 0 < t.tally.met + t.status.isBlocking.toNat
  := by
  rw [Bool.exists_bool]
  cases h : t.status.isBlocking <;> simp [obstructs, h]

section Junction

variable {place : Place} {kind : Junction} {parts : List Tree}

theorem met_add_isBlocking_any_le (hne : parts ≠ [])
    (h : ∀ part ∈ parts, part.tally.met + part.status.isBlocking.toNat ≤ part.leafCount) :
  (Tree.junction place .any parts).tally.met
      + (Tree.junction place .any parts).status.isBlocking.toNat
    ≤ (Tree.junction place .any parts).leafCount
  := by
  by_cases hobstructs : ∃ negated, (Tree.junction place .any parts).obstructs negated
  · -- a disjunction does not count more than once, and a part counts or blocks as well
    have hone : (Tree.junction place .any parts).tally.met
        + (Tree.junction place .any parts).status.isBlocking.toNat ≤ 1 := by
      rw [status, tally_any, Tally.any]
      split_ifs <;> simp [Status.isBlocking]
    apply hone.trans
    obtain ⟨negated, hobstructs⟩ := hobstructs
    obtain ⟨part, hpart, hobstructs⟩ := exists_obstructs hne hobstructs
    calc
      0 < part.tally.met + part.status.isBlocking.toNat :=
        exists_obstructs_iff.mp ⟨negated, hobstructs⟩
      _ ≤ part.leafCount := h part hpart
      _ ≤ (Tree.junction place .any parts).leafCount := leafCount_le_of_mem place .any hpart
  · rw [exists_obstructs_iff] at hobstructs
    omega

theorem met_add_isBlocking_all_le (hkind : kind ≠ .any)
    (h : ∀ part ∈ parts, part.tally.met + part.status.isBlocking.toNat ≤ part.leafCount) :
  (Tree.junction place kind parts).tally.met
      + (Tree.junction place kind parts).status.isBlocking.toNat
    ≤ (Tree.junction place kind parts).leafCount
  := by
  have hmet : (Tree.junction place kind parts).tally.met ≤ (parts.map (·.tally.met)).sum := by
    rw [tally_all place hkind, Tally.all, Tally.sum_eq_min, List.map_map]
    apply min_le_left
  by_cases hblocking : (Tree.junction place kind parts).status.isBlocking
  · obtain ⟨part, hpart, hpartBlocking⟩ := exists_isBlocking_of_all hkind hblocking
    rw [hblocking, leafCount_junction]
    exact hmet.trans_lt (sum_met_lt h hpart hpartBlocking)
  · rw [Bool.eq_false_of_not_eq_true hblocking]
    apply hmet.trans
    rw [leafCount_junction]
    apply List.sum_le_sum
    intro part hpart
    exact Nat.le_of_add_right_le (h part hpart)

end Junction

/-- The leaves of a tree without negations that count as met are not those that block. -/
theorem IsPositive.met_add_isBlocking_le {t : Tree} (hpositive : t.IsPositive)
    (h : t.HasOperands) :
  t.tally.met + t.status.isBlocking.toNat ≤ t.leafCount
  := by
  induction hpositive with
  | requirement place verdict term =>
    rw [status_requirement, tally, leafCount, leaves]
    rcases verdict with _ | _ | _ <;> simp [Tally.ofStatus, Status.ofVerdict, Status.isBlocking]
  | @junction parts place kind _ ih =>
    have hparts := fun part hpart => ih part hpart (Shaped.of_mem h hpart)
    by_cases hkind : kind = .any
    · subst hkind
      apply met_add_isBlocking_any_le _ hparts
      cases h with
      | junction _ hoperands _ => exact List.ne_nil_of_length_pos (hoperands (by simp))
    · exact met_add_isBlocking_all_le hkind hparts

theorem IsPositive.countsLeaves {root : Tree} (hpositive : root.IsPositive)
    (h : root.HasOperands) :
  root.CountsLeaves
  := by
  intro depth t ht
  exact (hpositive.of_occursIn ht).met_add_isBlocking_le (Shaped.of_occursIn h ht)

/-! ### The blockers of a consolidated tree -/

/-- What replaces a part of a conjunction or group with few leaves has the blockers of the part. -/
theorem CountsLeaves.blockers_spliced {t : Tree} (h : t.CountsLeaves)
    (hsmall : t.leafCount < 2 ^ 32) {kind : Junction} (hkind : kind ≠ .any) :
  (t.spliced kind).flatMap blockers = t.blockers
  := by
  obtain ⟨place, parts, rfl, -, hspliced⟩ | hspliced := spliced_cases kind t
  · rw [hspliced, h.blockers_all hkind hsmall]
  · rw [hspliced, List.flatMap_singleton]

/-- What replaces a blocking part of a disjunction has the blockers of the part. -/
theorem blockers_spliced_any {t : Tree} (h : t.status.isBlocking) :
  (t.spliced .any).flatMap blockers = t.blockers
  := by
  obtain ⟨place, parts, rfl, -, hspliced⟩ | hspliced := spliced_cases .any t
  · rw [hspliced, blockers_any, if_pos (isBlocking_of_any h).1]
  · rw [hspliced, List.flatMap_singleton]

theorem status_consolidate (t : Tree) :
  t.consolidate.status = t.status
  := congrArg Tally.status t.tally_consolidate

theorem leafCount_consolidate (t : Tree) :
  t.consolidate.leafCount = t.leafCount
  := by
  rw [leafCount, leaves_consolidate, leafCount]

section Junction

variable {place : Place} {kind : Junction} {parts : List Tree}

/-- Consolidation keeps the blockers of a disjunction if it keeps those of the parts. -/
theorem blockers_consolidate_any (h : ∀ part ∈ parts, part.consolidate.blockers = part.blockers) :
  (Tree.junction place .any parts).consolidate.blockers = (Tree.junction place .any parts).blockers
  := by
  have hstatus := status_consolidate (.junction place .any parts)
  rw [consolidate] at hstatus ⊢
  rw [blockers_any, blockers_any, hstatus]
  by_cases hunmet : (Tree.junction place .any parts).status = .unmet
  · rw [if_pos hunmet, if_pos hunmet, consolidateParts_eq_flatMap, List.flatMap_assoc]
    apply List.flatMap_congr
    intro part hpart
    have hblocking : part.consolidate.status.isBlocking := by
      rw [status_consolidate]
      exact (isBlocking_of_any ((Status.isBlocking_iff _).mpr (.inl hunmet))).2 part hpart
    rw [blockers_spliced_any hblocking, h part hpart]
  · rw [if_neg hunmet, if_neg hunmet]

/-- Consolidation keeps the blockers of a conjunction or group with few leaves if it keeps those of
the parts. -/
theorem blockers_consolidate_all (hkind : kind ≠ .any)
    (hcounts : (Tree.junction place kind parts).CountsLeaves)
    (hconsolidated : (Tree.junction place kind parts).consolidate.CountsLeaves)
    (hparts : ∀ part ∈ parts, part.consolidate.CountsLeaves)
    (hsmall : (Tree.junction place kind parts).leafCount < 2 ^ 32)
    (h : ∀ part ∈ parts, part.consolidate.blockers = part.blockers) :
  (Tree.junction place kind parts).consolidate.blockers
    = (Tree.junction place kind parts).blockers
  := by
  have hafter := hsmall
  rw [← leafCount_consolidate] at hafter
  rw [consolidate] at hconsolidated hafter ⊢
  rw [hconsolidated.blockers_all hkind hafter, hcounts.blockers_all hkind hsmall,
    consolidateParts_eq_flatMap, List.flatMap_assoc]
  apply List.flatMap_congr
  intro part hpart
  rw [← h part hpart]
  apply (hparts part hpart).blockers_spliced _ hkind
  rw [leafCount_consolidate]
  exact (leafCount_le_of_mem place kind hpart).trans_lt hsmall

end Junction

/-- Consolidation keeps the blockers of a tree without negations and with few leaves. -/
theorem IsPositive.blockers_consolidate {t : Tree} (hpositive : t.IsPositive)
    (h : t.HasOperands) (hsmall : t.leafCount < 2 ^ 32) :
  t.consolidate.blockers = t.blockers
  := by
  induction hpositive with
  | requirement place verdict term => rfl
  | @junction parts place kind hparts ih =>
    have hpositive : (Tree.junction place kind parts).IsPositive := .junction place kind hparts
    have hoperands : ∀ part ∈ parts, part.HasOperands := fun _ => Shaped.of_mem h
    have hblockers : ∀ part ∈ parts, part.consolidate.blockers = part.blockers := by
      intro part hpart
      apply ih part hpart (hoperands part hpart)
      exact (leafCount_le_of_mem place kind hpart).trans_lt hsmall
    by_cases hkind : kind = .any
    · subst hkind
      apply blockers_consolidate_any hblockers
    · apply blockers_consolidate_all hkind (hpositive.countsLeaves h) _ _ hsmall hblockers
      · exact (IsPositive.consolidate hpositive).countsLeaves (HasOperands.consolidate h)
      · intro part hpart
        exact (hparts part hpart).consolidate.countsLeaves (hoperands part hpart).consolidate

/-- A consolidated tree has the counts and the status of the tree. If no negation occurs in it and
it has few leaves, then the same is missing, whatever the snapshot. -/
theorem IsConstructed.tally_shortfalls_consolidate {t : Tree} (h : t.IsConstructed) :
  t.consolidate.tally = t.tally
    ∧ (t.IsPositive → t.leafCount < 2 ^ 32 →
      ∀ s : Snapshot, t.consolidate.shortfalls s = t.shortfalls s)
  := by
  use t.tally_consolidate
  intro hpositive hsmall s
  rw [shortfalls, shortfalls, hpositive.blockers_consolidate h.hasOperands hsmall]

/-- A conjunction with an empty group among its parts is taken out of another one, and so is a
disjunction, but the same counts as met and the same is missing. -/
theorem shortfalls_consolidate_of_nested :
  let leaf (verdict : Bool) (stat : Int64) :=
    Tree.requirement {} (some verdict) (Criterion.term .none ⟨0, stat, 0, 1⟩)
  let t := Tree.all
    [.all [leaf true 1, group []], .any [leaf false 2, .any [leaf false 3, leaf false 4]]]
  t.consolidate.tally = ⟨1, 2, .partly⟩ ∧ (t.consolidate.shortfalls ∅).map (·.stat) = [2, 3, 4]
  := by
  intro leaf t
  have hconstructed : t.IsConstructed := by
    apply IsConstructed.and
    · exact .and (.requirement _ _) (.group (by simp))
    · exact .or (.requirement _ _) (.or (.requirement _ _) (.requirement _ _))
  have hpositive : t.IsPositive := by
    simp [t, leaf, Tree.all, Tree.any, group, isPositive_junction_iff, IsPositive.requirement]
  obtain ⟨htally, hshortfalls⟩ := hconstructed.tally_shortfalls_consolidate
  constructor
  · rw [htally]
    decide
  · rw [hshortfalls hpositive (by decide) ∅]
    decide

end Tree

end Prerequisite
