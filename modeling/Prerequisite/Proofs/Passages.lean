import Mathlib.Data.List.Forall2
import Mathlib.Tactic.Use

/-!
# Passages that may fail

A passage goes from step to step and stops at the first that fails.  It succeeds when all steps do,
and this is a condition on each of them.
-/

namespace Prerequisite

/-! ### Steps -/

theorem mapError_eq_ok_iff {α ε δ : Type} {f : ε → δ} {result : Except ε α} {a : α} :
  result.mapError f = .ok a ↔ result = .ok a
  := by
  cases result <;> simp [Except.mapError]

theorem mapError_eq_error_iff {α ε δ : Type} {f : ε → δ} {result : Except ε α} {d : δ} :
  result.mapError f = .error d ↔ ∃ e, result = .error e ∧ d = f e
  := by
  cases result <;> simp [Except.mapError, eq_comm]

/-- Two steps succeed when the first does and the second does from where the first leads. -/
theorem bind_eq_ok_iff {α β ε : Type} {result : Except ε α} {f : α → Except ε β} {b : β} :
  (result >>= f) = .ok b ↔ ∃ a, result = .ok a ∧ f a = .ok b
  := by
  cases result <;> simp [bind, Except.bind]

/-- Two steps fail when the first does, or when the second does from where the first leads. -/
theorem bind_eq_error_iff {α β ε : Type} {result : Except ε α} {f : α → Except ε β} {e : ε} :
  (result >>= f) = .error e ↔ result = .error e ∨ ∃ a, result = .ok a ∧ f a = .error e
  := by
  cases result <;> simp [bind, Except.bind]

/-! ### Passages through a list -/

/-- A passage through a list that may fail succeeds when every step of it does. -/
theorem mapM_eq_ok_iff {α β ε : Type} {f : α → Except ε β} {xs : List α} {ys : List β} :
  xs.mapM f = .ok ys ↔ List.Forall₂ (fun x y => f x = .ok y) xs ys
  := by
  induction xs generalizing ys with
  | nil => cases ys <;> simp [pure, Except.pure]
  | cons x xs ih =>
    rw [List.mapM_cons]
    cases hhead : f x with
    | error fault => cases ys <;> simp [bind, Except.bind, hhead]
    | ok y =>
      cases htail : xs.mapM f <;>
        cases ys <;> simp [bind, Except.bind, pure, Except.pure, ← ih, htail, hhead]

section Monad

variable {m : Type → Type} [Monad m] [LawfulMonad m]

/-- A passage through a list goes on from where its first step leads. -/
theorem foldlM_cons_of_step {α σ : Type} {step : σ → α → m σ} {x : α} {s s' : σ}
    (h : step s x = pure s') (xs : List α) :
  (x :: xs).foldlM step s = xs.foldlM step s'
  := by
  rw [List.foldlM_cons, h, pure_bind]

/-- A passage through two lists goes on from where the first leads. -/
theorem foldlM_append_of_foldlM {α σ : Type} {step : σ → α → m σ} {xs : List α} {s s' : σ}
    (h : xs.foldlM step s = pure s') (ys : List α) :
  (xs ++ ys).foldlM step s = ys.foldlM step s'
  := by
  rw [List.foldlM_append, h, pure_bind]

/-- A passage through lists, one after the other, is a passage through all that is in them. -/
theorem foldlM_flatMap {α β σ : Type} {step : σ → β → m σ} {f : α → List β}
    (xs : List α) (s : σ) :
  (xs.flatMap f).foldlM step s = xs.foldlM (fun s x => (f x).foldlM step s) s
  := by
  induction xs generalizing s with
  | nil => rfl
  | cons x xs ih => simp only [List.flatMap_cons, List.foldlM_append, List.foldlM_cons, ih]

end Monad

/-! ### Members of a list -/

/-- The first member of a list that does not have a property is the only first one. -/
theorem eq_of_first {α : Type} {P : α → Prop} {before before' after after' : List α} {x x' : α}
    (hbefore : ∀ y ∈ before, P y) (hbefore' : ∀ y ∈ before', P y) (hx : ¬ P x) (hx' : ¬ P x')
    (h : before ++ x :: after = before' ++ x' :: after') :
  before = before' ∧ x = x'
  := by
  induction before generalizing before' with
  | nil =>
    cases before' with
    | nil => exact ⟨rfl, (List.cons.inj h).1⟩
    | cons y' rest' =>
      obtain ⟨rfl, -⟩ := List.cons.inj h
      exact absurd (hbefore' x List.mem_cons_self) hx
  | cons y rest ih =>
    cases before' with
    | nil =>
      obtain ⟨rfl, -⟩ := List.cons.inj h
      exact absurd (hbefore y List.mem_cons_self) hx'
    | cons y' rest' =>
      obtain ⟨rfl, hrest⟩ := List.cons.inj h
      rw [List.forall_mem_cons] at hbefore hbefore'
      obtain ⟨rfl, rfl⟩ := ih hbefore.2 hbefore'.2 hrest
      use rfl

/-- What stands in the one list is related to something in the other. -/
theorem exists_of_mem_of_forall₂ {α β : Type} {r : α → β → Prop} {xs : List α} {ys : List β}
    (h : List.Forall₂ r xs ys) {x : α} (hmem : x ∈ xs) :
  ∃ y, r x y
  := by
  induction h with
  | nil => cases hmem
  | @cons x' y xs ys hhead _ ih =>
    obtain rfl | hmem := List.mem_cons.mp hmem
    · use y
    · apply ih hmem

/-- In an ordered list, what does not come before a member is the member or comes after it. -/
theorem mem_or_rel_of_mem {α : Type} {r : α → α → Prop} {before after : List α} {x y : α}
    (h : (before ++ x :: after).Pairwise r) (hmem : y ∈ before ++ x :: after) :
  y ∈ before ∨ y = x ∨ r x y
  := by
  obtain ⟨-, hafter, -⟩ := List.pairwise_append.mp h
  rw [List.pairwise_cons] at hafter
  rw [List.mem_append, List.mem_cons] at hmem
  apply hmem.imp_right
  apply Or.imp_right
  apply hafter.1

end Prerequisite
