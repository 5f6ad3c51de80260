import Mathlib.Tactic.Use
import Prerequisite.Check

/-!
# Verdicts and operator codes

The code of an operator asks how the amount of a stat compares with the value of the criterion as
it is written.  A snapshot decides by the displayed bound, which is inclusive.  The two agree for
all amounts and all values, but at the ends of the range: there is no bound below the least integer
and none above the greatest one, so that an inclusive comparison with the value itself takes the
place of the strict one, and holds if the amount is the value.
-/

namespace Prerequisite

/-! ### Bits -/

/-- The integer, written in two's complement, has a one at the position. -/
def hasBit (n : Int64) (position : Nat) : Prop := n.toBitVec.getLsbD position

theorem hasBit_and_iff {m n : Int64} {position : Nat} :
  hasBit (m &&& n) position ↔ hasBit m position ∧ hasBit n position
  := by
  rw [hasBit, Int64.toBitVec_and, BitVec.getLsbD_and, Bool.and_eq_true]
  rfl

theorem eq_iff_forall_hasBit {m n : Int64} :
  m = n ↔ ∀ position, hasBit m position ↔ hasBit n position
  := by
  constructor
  · rintro rfl position
    rfl
  · intro h
    apply Int64.toBitVec_inj.mp
    apply BitVec.eq_of_getLsbD_eq
    intro position _
    exact Bool.eq_iff_iff.mpr (h position)

theorem not_hasBit_zero (position : Nat) :
  ¬ hasBit 0 position
  := by
  rw [hasBit, Int64.toBitVec_zero, BitVec.getLsbD_zero]
  simp

/-- All flags are among the current ones. -/
theorem and_eq_right_iff {current flags : Int64} :
  current &&& flags = flags ↔ ∀ position, hasBit flags position → hasBit current position
  := by
  simp only [eq_iff_forall_hasBit, hasBit_and_iff, and_iff_right_iff_imp]

/-- No flag is among the current ones. -/
theorem and_eq_zero_iff {current flags : Int64} :
  current &&& flags = 0 ↔ ∀ position, hasBit flags position → ¬ hasBit current position
  := by
  simp only [eq_iff_forall_hasBit, hasBit_and_iff, not_hasBit_zero, iff_false, not_and']

/-! ### Decided terms -/

namespace Term

variable {t : Term} {s : Snapshot}

theorem comparison?_eq_some_iff {comparison : Comparison} :
  t.comparison? = some comparison ↔ t.kind = .stat (some comparison)
  := by
  rw [comparison?]
  cases t.kind <;> simp

/-- A snapshot decides a term by the comparison for which it asks. -/
theorem verdict_eq_some_iff {holds : Bool} :
  t.verdict (some s) = some holds
    ↔ ∃ comparison, t.kind = .stat (some comparison)
      ∧ comparison.holds (s.reading t.criterion.stat) t.displayValue = holds
  := by
  simp only [← comparison?_eq_some_iff]
  rcases h : t.comparison? with _ | comparison <;> simp [verdict, h]

end Term

/-! ### Operator codes -/

namespace Comparison

theorem code_of_ofCode? {operator : Int64} {comparison : Comparison}
    (h : ofCode? operator = some comparison) :
  comparison.code = operator
  := by
  simpa using List.find?_some h

theorem stateGateText?_code (comparison : Comparison) :
  stateGateText? comparison.code = none
  := by
  cases comparison <;> rfl

theorem probe_ofCode?_code (comparison : Comparison) :
  Probe.ofCode? comparison.code = none
  := by
  cases comparison <;> rfl

/-- What the operator code of the comparison asks of the current amount of a stat and the value of
a criterion. -/
def Asks (comparison : Comparison) (current value : Int64) : Prop :=
  match comparison with
  | equal => current = value
  | atMost => current < value
  | atLeast => value < current
  | notEqual => current ≠ value
  | has => ∀ position, hasBit value position → hasBit current position
  | lacks => ∀ position, hasBit value position → ¬ hasBit current position

/-- The code asks for a strict comparison with an integer beyond which there is none. -/
def IsAtEnd (comparison : Comparison) (value : Int64) : Prop :=
  comparison = atMost ∧ value = Int64.minValue ∨ comparison = atLeast ∧ value = Int64.maxValue

end Comparison

namespace Criterion

/-! ### Displayed bounds -/

theorem toInt_before {value : Int64} (h : value ≠ Int64.minValue) :
  (before value).toInt = value.toInt - 1
  := by
  have hne : value.toInt ≠ Int64.minValue.toInt := mt Int64.toInt_inj.mp h
  have hlower := value.minValue_le_toInt
  have hupper := Int64.toInt_lt value
  rw [Int64.toInt_minValue] at hne hlower
  rw [before, if_neg h, Int64.toInt_sub, Int64.toInt_one]
  apply Int.bmod_eq_of_le <;> omega

theorem toInt_after {value : Int64} (h : value ≠ Int64.maxValue) :
  (after value).toInt = value.toInt + 1
  := by
  have hne : value.toInt ≠ Int64.maxValue.toInt := mt Int64.toInt_inj.mp h
  have hlower := Int64.le_toInt value
  have hupper := Int64.toInt_lt value
  rw [Int64.toInt_maxValue] at hne
  rw [after, if_neg h, Int64.toInt_add, Int64.toInt_one]
  apply Int.bmod_eq_of_le <;> omega

/-- Being at most the integer before a value is being less than the value, and the least integer
comes before itself. -/
theorem le_before_iff {current value : Int64} :
  current ≤ before value ↔ current < value ∨ current = value ∧ value = Int64.minValue
  := by
  by_cases hleast : value = Int64.minValue
  · subst hleast
    simp [before]
  · rw [Int64.le_iff_toInt_le, toInt_before hleast, Int.le_sub_one_iff, Int64.lt_iff_toInt_lt]
    simp [hleast]

/-- Being at least the integer after a value is being greater than the value, and the greatest
integer comes after itself. -/
theorem after_le_iff {current value : Int64} :
  after value ≤ current ↔ value < current ∨ current = value ∧ value = Int64.maxValue
  := by
  by_cases hgreatest : value = Int64.maxValue
  · subst hgreatest
    simp [after]
  · rw [Int64.le_iff_toInt_le, toInt_after hgreatest, Int.add_one_le_iff, Int64.lt_iff_toInt_lt]
    simp [hgreatest]

variable {names : Names} {c : Criterion} {comparison : Comparison}

theorem kind_of_isSentinel (h : c.isSentinel) (comparison : Option Comparison) :
  c.kind ≠ .stat comparison
  := by
  rw [kind, if_pos h]
  cases Connective.ofCode? c.operator <;> simp

/-- A criterion is a comparison exactly when its operator code stands for the comparison, unless the
criterion is a sentinel. -/
theorem kind_eq_stat_some_iff :
  c.kind = .stat (some comparison)
    ↔ ¬ c.isSentinel ∧ Comparison.ofCode? c.operator = some comparison
  := by
  by_cases hsentinel : c.isSentinel
  · simp [hsentinel, kind_of_isSentinel hsentinel]
  · rw [kind, if_neg hsentinel, and_iff_right hsentinel]
    constructor
    · intro h
      split at h
      · cases h
      · split at h
        · cases h
        · exact Kind.stat.inj h
    · intro h
      have hcode := Comparison.code_of_ofCode? h
      rw [h, ← hcode, comparison.stateGateText?_code, comparison.probe_ofCode?_code]
      simp

/-- A comparison with the displayed bound is the comparison that the operator code asks for, unless
the value is at an end of the range. -/
theorem holds_displayValue_iff (h : c.kind = .stat (some comparison)) (current : Int64) :
  comparison.holds current c.displayValue
    ↔ comparison.Asks current c.value ∨ current = c.value ∧ comparison.IsAtEnd c.value
  := by
  rw [displayValue, h]
  cases comparison with
  | equal => simp [Comparison.holds, Comparison.Asks, Comparison.IsAtEnd]
  | atMost => simp [Comparison.holds, Comparison.Asks, Comparison.IsAtEnd, le_before_iff]
  | atLeast => simp [Comparison.holds, Comparison.Asks, Comparison.IsAtEnd, after_le_iff]
  | notEqual => simp [Comparison.holds, Comparison.Asks, Comparison.IsAtEnd]
  | has => simp [Comparison.holds, Comparison.Asks, Comparison.IsAtEnd, and_eq_right_iff]
  | lacks => simp [Comparison.holds, Comparison.Asks, Comparison.IsAtEnd, and_eq_zero_iff]

/-! ### Verdicts -/

/-- A snapshot does not decide sentinels, state gates and probes, and what has an operator code that
stands for no comparison. It decides everything else, whatever the amount of the stat and the value
of the criterion: the criterion holds exactly when the amount compares with the value as the
operator code asks, or when both are the same end of the range beyond which the code asks. -/
theorem verdict_term_iff (names : Names) (c : Criterion) (s : Snapshot) :
  ((c.term names).verdict (some s) = none
    ↔ c.stat = 0 ∧ c.value = 0 ∨ (stateGateText? c.operator).isSome
      ∨ (Probe.ofCode? c.operator).isSome ∨ Comparison.ofCode? c.operator = none)
  ∧ ∀ comparison, Comparison.ofCode? c.operator = some comparison →
      (c.term names).verdict (some s) ≠ none →
      ((c.term names).verdict (some s) = some true
        ↔ comparison.Asks (s.reading c.stat) c.value
          ∨ s.reading c.stat = c.value ∧ comparison.IsAtEnd c.value)
  := by
  have hsentinel : c.isSentinel ↔ c.stat = 0 ∧ c.value = 0 := by simp [isSentinel]
  constructor
  · rw [Term.verdict_eq_none_iff, Option.eq_none_iff_forall_ne_some, ← hsentinel]
    simp only [ne_eq, Term.comparison?_eq_some_iff, term, kind_eq_stat_some_iff, not_and]
    rcases hcode : Comparison.ofCode? c.operator with _ | comparison
    · simp
    · rw [← Comparison.code_of_ofCode? hcode, comparison.stateGateText?_code,
        comparison.probe_ofCode?_code]
      simp
  · intro comparison hcode hdecided
    obtain ⟨holds, hholds⟩ := Option.ne_none_iff_exists'.mp hdecided
    obtain ⟨other, hkind, rfl⟩ := Term.verdict_eq_some_iff.mp hholds
    obtain rfl : comparison = other := by
      have hother := (kind_eq_stat_some_iff.mp hkind).2
      exact Option.some.inj (hcode.symm.trans hother)
    rw [hholds, Option.some_inj]
    apply holds_displayValue_iff hkind

end Criterion

/-- No amount is less than the least integer, but the least integer is let through. -/
theorem canPerform_of_least_bound :
  let c : Criterion := ⟨0, 1, Comparison.code .atMost, Int64.minValue⟩
  let s : Snapshot := (∅ : Snapshot).insert 1 Int64.minValue
  ¬ Comparison.Asks .atMost (s.reading c.stat) c.value
    ∧ (c.term .none).verdict (some s) = some true ∧ (check .none [c] s).canPerform
  := by
  intro c s
  refine ⟨?_, ?_, ?_⟩
  · exact Int64.not_lt.mpr (Int64.minValue_le _)
  · apply ((Criterion.verdict_term_iff .none c s).2 .atMost rfl (by decide)).mpr
    exact .inr ⟨by decide, .inl ⟨rfl, rfl⟩⟩
  · decide

end Prerequisite
