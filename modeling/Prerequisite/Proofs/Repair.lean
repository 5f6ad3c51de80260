import Prerequisite.Proofs.Blockers
import Prerequisite.Proofs.Reevaluation

/-!
# Repairing what is reported

The report on a blocking tree is sufficient.  A snapshot repairs a leaf if the leaf fails although
it is reported to hold below a negation, or holds although it is reported to fail, or is not
reported at all and keeps its verdict.  If a snapshot repairs all leaves of a blocking tree then
the tree is not blocking any more.
-/

namespace Prerequisite

/-- A leaf of a tree with its verdict. If the leaf is reported, the mark tells whether it is
reported below a negation. -/
structure MarkedLeaf where
  term : Term
  verdict : Option Bool
  mark : Option Bool

namespace MarkedLeaf

/-- The leaf without its mark. -/
def leaf (m : MarkedLeaf) : Term × Option Bool := (m.term, m.verdict)

/-- The report of the leaf. -/
def blocker? (m : MarkedLeaf) : Option Blocker := m.mark.map fun negated => ⟨negated, m.term⟩

/-- With a snapshot, a reported leaf has the verdict that is missing, and any other one keeps its
verdict. -/
def IsRepaired (s : Snapshot) (m : MarkedLeaf) : Prop :=
  m.term.verdict (some s)
    = match m.mark with
      | some negated => some !negated
      | none => m.verdict

end MarkedLeaf

namespace Tree

/-! ### Marks -/

/-- The leaves of a tree of which none is reported. -/
def unmarked (t : Tree) : List MarkedLeaf := t.leaves.map fun leaf => ⟨leaf.1, leaf.2, none⟩

mutual

/-- The leaves of a tree that obstructs, with a mark on those that are reported. -/
def marked (negated : Bool) : Tree → List MarkedLeaf
  | .requirement _ verdict term =>
    [⟨term, verdict, if verdict = some negated then some negated else none⟩]
  | .negation _ operand => operand.marked (!negated)
  | .junction _ _ parts => markedOf negated parts

/-- The leaves of some trees, with a mark on those that are reported for the trees that
obstruct. -/
def markedOf (negated : Bool) : List Tree → List MarkedLeaf
  | [] => []
  | t :: rest =>
    (if t.obstructs negated then t.marked negated else t.unmarked) ++ markedOf negated rest

end

theorem markedOf_eq_flatMap (negated : Bool) (parts : List Tree) :
  markedOf negated parts
    = parts.flatMap fun t => if t.obstructs negated then t.marked negated else t.unmarked
  := by
  induction parts with
  | nil => rfl
  | cons t rest ih => rw [markedOf, ih, List.flatMap_cons]

theorem map_leaf_unmarked (t : Tree) :
  t.unmarked.map MarkedLeaf.leaf = t.leaves
  := by
  rw [unmarked, List.map_map]
  apply List.map_id

theorem filterMap_blocker?_unmarked (t : Tree) :
  t.unmarked.filterMap MarkedLeaf.blocker? = []
  := by
  rw [unmarked, List.filterMap_map]
  apply List.filterMap_eq_nil_iff.mpr
  intro leaf _
  rfl

/-- The marked leaves are the leaves of the tree. -/
theorem map_leaf_marked (negated : Bool) (t : Tree) :
  (t.marked negated).map MarkedLeaf.leaf = t.leaves
  := by
  induction t using Tree.induction generalizing negated with
  | requirement place verdict term => rfl
  | negation place operand ih => rw [marked, leaves, ih]
  | junction place kind parts ih =>
    rw [marked, leaves, markedOf_eq_flatMap, leavesOf_eq_flatMap, List.map_flatMap]
    apply List.flatMap_congr
    intro t ht
    split
    · apply ih t ht
    · apply map_leaf_unmarked

/-- What is reported for some trees is what is reported for those that obstruct. -/
theorem filterMap_blocker?_markedOf {negated : Bool} {parts : List Tree}
    (h : ∀ t ∈ parts, t.obstructs negated →
      (t.marked negated).filterMap MarkedLeaf.blocker? = t.obstacles negated) :
  (markedOf negated parts).filterMap MarkedLeaf.blocker?
    = (parts.filter (obstructs negated)).flatMap (obstacles negated)
  := by
  induction parts with
  | nil => rfl
  | cons t rest ih =>
    have hrest := ih fun u hu => h u (List.mem_cons_of_mem _ hu)
    rw [markedOf, List.filterMap_append, hrest]
    by_cases hobstructs : t.obstructs negated
    · rw [if_pos hobstructs, h t List.mem_cons_self hobstructs,
        List.filter_cons_of_pos hobstructs, List.flatMap_cons]
    · rw [if_neg hobstructs, filterMap_blocker?_unmarked, List.filter_cons_of_neg hobstructs,
        List.nil_append]

/-- The marked leaves of a tree that obstructs are those that are reported for it. -/
theorem IsFull.filterMap_blocker?_marked {t : Tree} (hfull : t.IsFull) (negated : Bool)
    (h : t.obstructs negated) :
  (t.marked negated).filterMap MarkedLeaf.blocker? = t.obstacles negated
  := by
  induction hfull generalizing negated with
  | requirement place verdict term =>
    have hverdict := obstructs_requirement_iff.mp h
    rw [obstacles_requirement, marked, if_pos hverdict, if_pos hverdict]
    rfl
  | negation place hoperand ih =>
    rw [marked, obstacles_negation h]
    apply ih _ (obstructs_operand h)
  | junction place hpos hparts ih =>
    rw [marked, obstacles_junction h]
    apply filterMap_blocker?_markedOf
    intro t ht hobstructs
    apply ih t ht negated hobstructs

/-! ### Repaired trees -/

/-- A tree whose leaves keep their verdicts keeps its tally. -/
theorem tally_decided_of_leaves {stats : Option Snapshot} {t : Tree}
    (h : ∀ leaf ∈ t.leaves, leaf.1.verdict stats = leaf.2) :
  (t.decided stats).tally = t.tally
  := by
  induction t using Tree.induction with
  | requirement place verdict term =>
    have hverdict : term.verdict stats = verdict := h (term, verdict) (List.mem_singleton_self _)
    rw [decided, ofTerm, tally, tally, hverdict]
  | negation place operand ih =>
    rw [decided, Tree.not, tally, tally, ih h]
  | junction place kind parts ih =>
    have hparts : (parts.map (decided stats)).map tally = parts.map tally := by
      rw [List.map_map]
      apply List.map_congr_left
      intro t ht
      apply ih t ht
      intro leaf hleaf
      apply h leaf
      rw [leaves, leavesOf_eq_flatMap]
      exact List.mem_flatMap.mpr ⟨t, ht, hleaf⟩
    rw [decided, eachDecided_eq_map]
    by_cases hkind : kind = .any
    · rw [hkind, tally_any, tally_any, hparts]
    · rw [tally_all _ hkind, tally_all _ hkind, hparts]

/-- A tree of which nothing is reported and that keeps its verdicts obstructs if it did before. -/
theorem obstructs_decided_of_unmarked {s : Snapshot} {t : Tree}
    (h : ∀ m ∈ t.unmarked, m.IsRepaired s) (negated : Bool) :
  (t.decided (some s)).obstructs negated = t.obstructs negated
  := by
  have htally : (t.decided (some s)).tally = t.tally := by
    apply tally_decided_of_leaves
    intro leaf hleaf
    exact h ⟨leaf.1, leaf.2, none⟩ (List.mem_map_of_mem hleaf)
  rw [obstructs, obstructs, status, status, htally]

/-- A tree that obstructs does so no longer once its leaves are repaired. -/
theorem IsFull.not_obstructs_decided {s : Snapshot} {t : Tree} (hfull : t.IsFull) (negated : Bool)
    (h : t.obstructs negated) (hrepaired : ∀ m ∈ t.marked negated, m.IsRepaired s) :
  ¬ (t.decided (some s)).obstructs negated
  := by
  induction hfull generalizing negated with
  | requirement place verdict term =>
    have hverdict := obstructs_requirement_iff.mp h
    have hterm : term.verdict (some s) = some !negated := by
      have hleaf := hrepaired _ (List.mem_singleton_self _)
      simpa [MarkedLeaf.IsRepaired, hverdict] using hleaf
    rw [decided, ofTerm, obstructs_requirement_iff, hterm]
    simp
  | negation place hoperand ih =>
    intro hdecided
    apply ih (!negated) (obstructs_operand h) hrepaired
    apply obstructs_operand hdecided
  | @junction kind parts place hpos hparts ih =>
    -- a part that obstructs afterwards did so before, and then it was repaired
    intro hdecided
    have hne : parts.map (decided (some s)) ≠ [] := by simpa using List.ne_nil_of_length_pos hpos
    rw [decided, eachDecided_eq_map] at hdecided
    obtain ⟨u, hu, hpart⟩ := exists_obstructs hne hdecided
    obtain ⟨part, hmem, rfl⟩ := List.mem_map.mp hu
    rw [marked, markedOf_eq_flatMap] at hrepaired
    have hrepaired := fun m hm => hrepaired m (List.mem_flatMap.mpr ⟨part, hmem, hm⟩)
    by_cases hobstructs : part.obstructs negated
    · rw [if_pos hobstructs] at hrepaired
      exact ih part hmem negated hobstructs hrepaired hpart
    · rw [if_neg hobstructs] at hrepaired
      rw [obstructs_decided_of_unmarked hrepaired] at hpart
      exact hobstructs hpart

end Tree

/-! ### Reported leaves -/

/-- Two ways to mark the same leaves that lead to the same reports leave the same leaves
unmarked, up to their order. -/
theorem perm_of_map_term_eq {marked marked' : List MarkedLeaf}
    (hleaves : marked.map MarkedLeaf.term = marked'.map MarkedLeaf.term)
    (hreported : marked.filterMap MarkedLeaf.blocker? = marked'.filterMap MarkedLeaf.blocker?) :
  ((marked.filter fun m => !m.mark.isSome).map MarkedLeaf.term).Perm
    ((marked'.filter fun m => !m.mark.isSome).map MarkedLeaf.term)
  := by
  have hterms : ∀ ms : List MarkedLeaf, (ms.filterMap MarkedLeaf.blocker?).map Blocker.term
      = (ms.filter (·.mark.isSome)).map MarkedLeaf.term := by
    intro ms
    induction ms with
    | nil => rfl
    | cons m rest ih =>
      rcases hmark : m.mark with _ | negated <;> simp [MarkedLeaf.blocker?, hmark, ih]
  have hsplit : ∀ ms : List MarkedLeaf,
      ((ms.filterMap MarkedLeaf.blocker?).map Blocker.term
        ++ (ms.filter fun m => !m.mark.isSome).map MarkedLeaf.term).Perm
          (ms.map MarkedLeaf.term) := by
    intro ms
    rw [hterms, ← List.map_append]
    apply List.Perm.map
    apply List.filter_append_perm
  have h := hsplit marked
  rw [hleaves, hreported] at h
  exact (List.perm_append_left_iff _).mp (h.trans (hsplit marked').symm)

theorem mem_filterMap_blocker?_iff {marked : List MarkedLeaf} {b : Blocker} :
  b ∈ marked.filterMap MarkedLeaf.blocker? ↔ ∃ m ∈ marked, m.term = b.term ∧ m.mark = some b.negated
  := by
  simp only [List.mem_filterMap, MarkedLeaf.blocker?, Option.map_eq_some_iff]
  constructor
  · rintro ⟨m, hm, negated, hmark, rfl⟩
    use m, hm, rfl, hmark
  · rintro ⟨m, hm, hterm, hmark⟩
    use m, hm, b.negated, hmark
    rw [hterm]

/-- If a snapshot repairs the leaves of a tree with some marks, then it repairs them with any other
marks that lead to the same reports. -/
theorem isRepaired_of_reported_eq
    {leaves : List (Term × Option Bool)} {stats : Option Snapshot} {s : Snapshot}
    {marked marked' : List MarkedLeaf}
    (hverdict : ∀ leaf ∈ leaves, leaf.2 = leaf.1.verdict stats)
    (hleaves : marked.map MarkedLeaf.leaf = leaves)
    (hleaves' : marked'.map MarkedLeaf.leaf = leaves)
    (hreported : marked.filterMap MarkedLeaf.blocker? = marked'.filterMap MarkedLeaf.blocker?)
    (h : ∀ m ∈ marked, m.IsRepaired s) :
  ∀ m ∈ marked', m.IsRepaired s
  := by
  intro m' hm'
  rcases hmark' : m'.mark with _ | negated
  · have hmem : m'.term ∈ (marked'.filter fun m => !m.mark.isSome).map MarkedLeaf.term := by
      apply List.mem_map_of_mem
      exact List.mem_filter.mpr ⟨hm', by simp [hmark']⟩
    have hterms := congrArg (List.map Prod.fst) (hleaves.trans hleaves'.symm)
    rw [List.map_map, List.map_map] at hterms
    rw [← (perm_of_map_term_eq hterms hreported).mem_iff] at hmem
    obtain ⟨m, hfilter, hterm⟩ := List.mem_map.mp hmem
    obtain ⟨hm, hunmarked⟩ := List.mem_filter.mp hfilter
    have hmark : m.mark = none := by simpa using hunmarked
    have hverdict_m := hverdict m.leaf (by rw [← hleaves]; exact List.mem_map_of_mem hm)
    have hverdict_m' := hverdict m'.leaf (by rw [← hleaves']; exact List.mem_map_of_mem hm')
    have hrepaired := h m hm
    simp only [MarkedLeaf.IsRepaired, MarkedLeaf.leaf, hmark, hmark', hterm] at *
    rw [hrepaired, hverdict_m, hverdict_m']
  · have hmem : ⟨negated, m'.term⟩ ∈ marked'.filterMap MarkedLeaf.blocker? :=
      mem_filterMap_blocker?_iff.mpr ⟨m', hm', rfl, hmark'⟩
    rw [← hreported] at hmem
    obtain ⟨m, hm, hterm, hmark⟩ := mem_filterMap_blocker?_iff.mp hmem
    have hrepaired := h m hm
    simp only [MarkedLeaf.IsRepaired, hmark, hmark', hterm] at *
    exact hrepaired

/-! ### The check of an action -/

/-- Let the tree of some criteria be blocking, and let each leaf of which a failure is reported
hold with another snapshot, each leaf that is reported below a negation fail, and each leaf that is
not reported keep its verdict. Then the evaluated tree is met or unknown, and the action may be
performed. It does not matter to which leaves the reports are attributed. -/
theorem canPerform_of_repaired
    {names : Names} {criteria : List Criterion} {s s' : Snapshot} {t : Tree}
    {marked : List MarkedLeaf}
    (hbuilt : Tree.build? names (some s) criteria = some t)
    (hblocking : t.status.isBlocking)
    (hleaves : marked.map MarkedLeaf.leaf = t.leaves)
    (hreported : marked.filterMap MarkedLeaf.blocker? = t.blockers)
    (hfails : ∀ m ∈ marked, m.mark = some false → m.term.verdict (some s') = some true)
    (hholds : ∀ m ∈ marked, m.mark = some true → m.term.verdict (some s') = some false)
    (hother : ∀ m ∈ marked, m.mark = none →
      m.term.verdict (some s') = m.term.verdict (some s)) :
  ((t.evaluate (some s')).status = .met ∨ (t.evaluate (some s')).status = .unknown)
  ∧ (check names criteria s').canPerform
  := by
  obtain hfull | ⟨place, rfl⟩ := Tree.isFull_or_emptyGroup_of_build? hbuilt
  · have hverdict : ∀ leaf ∈ t.leaves, leaf.2 = leaf.1.verdict (some s) :=
      fun _ hleaf => Tree.verdict_of_mem_leaves hbuilt hleaf
    have hrepaired : ∀ m ∈ marked, m.IsRepaired s' := by
      intro m hm
      rcases hmark : m.mark with _ | _ | _
      · have hmverdict := hverdict m.leaf (by rw [← hleaves]; exact List.mem_map_of_mem hm)
        rw [MarkedLeaf.IsRepaired, hmark, hother m hm hmark]
        exact hmverdict.symm
      · rw [MarkedLeaf.IsRepaired, hmark]
        exact hfails m hm hmark
      · rw [MarkedLeaf.IsRepaired, hmark]
        exact hholds m hm hmark
    have hmarked : ∀ m ∈ t.marked false, m.IsRepaired s' := by
      apply isRepaired_of_reported_eq hverdict hleaves (t.map_leaf_marked false) _ hrepaired
      rw [hreported]
      exact (hfull.filterMap_blocker?_marked false hblocking).symm
    have hpasses : ¬ (t.evaluate (some s')).status.isBlocking := by
      rw [Tree.evaluate, Tree.status, Tree.tally_finalize]
      exact hfull.not_obstructs_decided false hblocking hmarked
    constructor
    · exact (Status.not_isBlocking_iff _).mp hpasses
    · rw [check_eq_outcome_evaluate hbuilt]
      simp only [Tree.outcome, Bool.not_eq_true']
      exact Bool.eq_false_of_not_eq_true hpasses
  · simp [(Tree.emptyGroup_passes place).1] at hblocking

/-- The report on a negation above a conjunction that is met in part names the part that holds, and
it suffices that this part fails. -/
theorem canPerform_of_repaired_under_negation :
  ∃ t, Tree.build? .none (some ((∅ : Snapshot).insert 1 1))
      [⟨0, 1, 0, 1⟩, ⟨1, 2, 0, 2⟩, .sentinel 2 4, ⟨3, 3, 0, 3⟩, .sentinel 4 3, .sentinel 5 42]
      = some t
    ∧ t.status = .unmet
    ∧ (check .none
      [⟨0, 1, 0, 1⟩, ⟨1, 2, 0, 2⟩, .sentinel 2 4, ⟨3, 3, 0, 3⟩, .sentinel 4 3, .sentinel 5 42]
      ∅).canPerform
  := by
  have hbuilt : Tree.build? .none (some ((∅ : Snapshot).insert 1 1))
      [⟨0, 1, 0, 1⟩, ⟨1, 2, 0, 2⟩, .sentinel 2 4, ⟨3, 3, 0, 3⟩, .sentinel 4 3, .sentinel 5 42]
      = some _ := rfl
  refine ⟨_, hbuilt, rfl, ?_⟩
  apply (canPerform_of_repaired hbuilt _ (Tree.map_leaf_marked false _) rfl _ _ _).2
  all_goals decide

end Prerequisite
