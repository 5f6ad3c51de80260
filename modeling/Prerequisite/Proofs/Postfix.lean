import Mathlib.Data.List.Forall2
import Mathlib.Tactic.Use
import Prerequisite.Postfix

/-!
# Values of postfix expressions

The stack is handled alike for every meaning of the operands and connectives.  So a relation
between two types of values that the two meanings respect relates the values of a list of
terms, and one value is defined exactly when the other one is.  A property that the operands
have and that the connectives keep is a property of the value.  What the values list from left
to right is what the operands list.
-/

namespace Prerequisite.Postfix

variable {α β : Type}

/-- A relation between values that two meanings of some terms respect: their operands are
related, and their connectives take related values to related ones. -/
structure Respects (r : α → β → Prop) (m : Meaning α) (m' : Meaning β) (terms : List Term) :
    Prop where
  operand : ∀ term ∈ terms, term.isOperand → r (m.operand term) (m'.operand term)
  not : ∀ {a b}, r a b → r (m.not a) (m'.not b)
  and : ∀ {a a' b b'}, r a b → r a' b' → r (m.and a a') (m'.and b b')
  or : ∀ {a a' b b'}, r a b → r a' b' → r (m.or a a') (m'.or b b')

/-- One term takes related stacks to related stacks, or fails on both. -/
theorem step_related
    {r : α → β → Prop} {m : Meaning α} {m' : Meaning β} {terms : List Term}
    (h : Respects r m m' terms) {term : Term} (hterm : term ∈ terms)
    {stack : List α} {stack' : List β} (hstack : List.Forall₂ r stack stack') :
  Option.Rel (List.Forall₂ r) (step m stack term) (step m' stack' term)
  := by
  unfold step
  rcases hconnective : term.connective? with _ | _ | _ | _
  case none =>
    apply Option.Rel.some
    apply List.Forall₂.cons _ hstack
    apply h.operand term hterm
    simp [Term.isOperand, hconnective]
  case some.and =>
    rcases hstack with _ | ⟨hright, _ | ⟨hleft, hrest⟩⟩
    · exact Option.Rel.some .nil
    · exact Option.Rel.some (.cons hright .nil)
    · exact Option.Rel.some (.cons (h.and hleft hright) hrest)
  case some.or =>
    rcases hstack with _ | ⟨hright, _ | ⟨hleft, hrest⟩⟩
    · exact Option.Rel.none
    · exact Option.Rel.none
    · exact Option.Rel.some (.cons (h.or hleft hright) hrest)
  case some.not =>
    rcases hstack with _ | ⟨hvalue, hrest⟩
    · exact Option.Rel.none
    · exact Option.Rel.some (.cons (h.not hvalue) hrest)

/-- A list of terms takes related stacks to related stacks, or fails on both. -/
theorem foldlM_step_related
    {r : α → β → Prop} {m : Meaning α} {m' : Meaning β} {terms : List Term}
    (h : Respects r m m' terms) :
    ∀ {rest : List Term}, rest ⊆ terms → ∀ {stack : List α} {stack' : List β},
      List.Forall₂ r stack stack' →
      Option.Rel (List.Forall₂ r) (rest.foldlM (step m) stack) (rest.foldlM (step m') stack')
  | [], _, _, _, hstack => Option.Rel.some hstack
  | term :: rest, hsubset, stack, stack', hstack => by
      have hterm : term ∈ terms := hsubset List.mem_cons_self
      have hrest : rest ⊆ terms := fun _ hmem => hsubset (List.mem_cons_of_mem _ hmem)
      rw [List.foldlM_cons, List.foldlM_cons]
      generalize hnext : step m stack term = next
      generalize hnext' : step m' stack' term = next'
      have hrel := step_related h hterm hstack
      rw [hnext, hnext'] at hrel
      rcases hrel with hstacks | _
      · apply foldlM_step_related h hrest hstacks
      · exact Option.Rel.none

/-- The values of a list of terms are related, or neither is defined. -/
theorem value?_related
    {r : α → β → Prop} {m : Meaning α} {m' : Meaning β} {terms : List Term}
    (h : Respects r m m' terms) :
  Option.Rel r (value? m terms) (value? m' terms)
  := by
  have hrel := foldlM_step_related h (List.Subset.refl terms) (.nil : List.Forall₂ r [] [])
  unfold value?
  revert hrel
  generalize terms.foldlM (step m) [] = final
  generalize terms.foldlM (step m') [] = final'
  rintro (hstacks | _)
  · rcases hstacks with _ | ⟨hvalue, _ | ⟨_, _⟩⟩
    · exact Option.Rel.none
    · exact Option.Rel.some hvalue
    · exact Option.Rel.none
  · exact Option.Rel.none

/-- A map between values that commutes with the meanings takes one value to the other. -/
theorem value?_map
    {f : α → β} {m : Meaning α} {m' : Meaning β} {terms : List Term}
    (h : Respects (fun a b => f a = b) m m' terms) :
  (value? m terms).map f = value? m' terms
  := by
  have hrel := value?_related h
  revert hrel
  generalize value? m terms = value
  generalize value? m' terms = value'
  rintro (hvalue | _)
  · exact congrArg some hvalue
  · rfl

/-- A property of the operands that the connectives keep is a property of the value. -/
theorem value?_induction
    {P : α → Prop} {m : Meaning α} {terms : List Term}
    (h : Respects (fun a _ => P a) m m terms) {value : α} (hvalue : value? m terms = some value) :
  P value
  := by
  have hrel := value?_related h
  rw [hvalue] at hrel
  rcases hrel with hP | _
  exact hP

/-- A way to list the content of a value for which the connectives put the contents of their
operands one after the other, as they stand in the expression. -/
structure Lists (f : α → List β) (m : Meaning α) : Prop where
  not : ∀ a, f (m.not a) = f a
  and : ∀ a b, f (m.and a b) = f a ++ f b
  or : ∀ a b, f (m.or a b) = f a ++ f b

/-- One term adds to the content of the stack what its operand lists. -/
theorem flatMap_step
    {f : α → List β} {m : Meaning α} (h : Lists f m) {term : Term} {stack stack' : List α}
    (hstep : step m stack term = some stack') :
  stack'.reverse.flatMap f
    = stack.reverse.flatMap f ++ ([term].filter Term.isOperand).flatMap fun t => f (m.operand t)
  := by
  unfold step at hstep
  rcases hconnective : term.connective? with _ | connective
  · have hoperand : term.isOperand := by simp [Term.isOperand, hconnective]
    rw [List.filter_cons_of_pos hoperand, List.filter_nil, List.flatMap_singleton]
    simp only [hconnective] at hstep
    obtain rfl := Option.some.inj hstep
    rw [List.reverse_cons, List.flatMap_append, List.flatMap_singleton]
  · have hoperand : ¬ term.isOperand := by simp [Term.isOperand, hconnective]
    rw [List.filter_cons_of_neg hoperand, List.filter_nil, List.flatMap_nil, List.append_nil]
    simp only [hconnective] at hstep
    cases connective with
    | and =>
      rcases stack with _ | ⟨right, _ | ⟨left, rest⟩⟩
      · obtain rfl := Option.some.inj hstep
        rfl
      · obtain rfl := Option.some.inj hstep
        rfl
      · obtain rfl := Option.some.inj hstep
        simp [h.and]
    | or =>
      rcases stack with _ | ⟨right, _ | ⟨left, rest⟩⟩
      · cases hstep
      · cases hstep
      · obtain rfl := Option.some.inj hstep
        simp [h.or]
    | not =>
      rcases stack with _ | ⟨value, rest⟩
      · cases hstep
      · obtain rfl := Option.some.inj hstep
        simp [h.not]

/-- A list of terms adds to the content of the stack what its operands list. -/
theorem flatMap_foldlM_step
    {f : α → List β} {m : Meaning α} (h : Lists f m) :
    ∀ {terms : List Term} {stack stack' : List α}, terms.foldlM (step m) stack = some stack' →
      stack'.reverse.flatMap f
        = stack.reverse.flatMap f ++ (terms.filter Term.isOperand).flatMap fun t => f (m.operand t)
  | [], stack, stack', hrun => by
      obtain rfl : stack = stack' := Option.some.inj hrun
      simp
  | term :: rest, stack, stack', hrun => by
      rw [List.foldlM_cons] at hrun
      obtain ⟨next, hstep, hrest⟩ := Option.bind_eq_some_iff.mp hrun
      rw [flatMap_foldlM_step h hrest, flatMap_step h hstep, List.append_assoc,
        ← List.flatMap_append, ← List.filter_append, List.singleton_append]

/-- The value of a list of terms lists what its operands list, in their order. -/
theorem flatMap_value?
    {f : α → List β} {m : Meaning α} (h : Lists f m) {terms : List Term} {value : α}
    (hvalue : value? m terms = some value) :
  f value = (terms.filter Term.isOperand).flatMap fun t => f (m.operand t)
  := by
  unfold value? at hvalue
  rcases hrun : terms.foldlM (step m) [] with _ | _ | ⟨top, _ | ⟨_, _⟩⟩ <;>
    simp [hrun] at hvalue
  subst hvalue
  simpa using flatMap_foldlM_step h hrun

end Prerequisite.Postfix
