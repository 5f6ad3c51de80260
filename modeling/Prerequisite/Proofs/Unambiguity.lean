import Prerequisite.Proofs.Decimal
import Prerequisite.Proofs.Formula
import Prerequisite.Tree.Equality

/-!
# Formulas without names are unambiguous

The skeleton of a tree keeps how the parts of each node are joined and how each requirement is
worded, and forgets the rest.  Without names, the formula of the tree of some criteria determines
the skeleton of the tree, except that a group of a single requirement is written as the requirement
is.

Generic wordings contain no brackets, and they lack the letters `A` and `R`, so that neither the
keyword of a conjunction nor that of a disjunction occurs in them.  So a wording ends where the
first separator or closing bracket begins.  The first letter of a formula tells a wording from a
negation and from a bracketed junction.  It follows that no formula can be read in two ways, even
when it is followed by more text.
-/

namespace Prerequisite

/-! ### Skeletons -/

/-- The wordings of the requirements of a tree and the way in which they are joined. -/
inductive Skeleton where
  | wording (text : String)
  | negation (operand : Skeleton)
  | junction (kind : Junction) (parts : List Skeleton)

/-- The skeleton, where a group of a single part is taken as this part alone. -/
def Skeleton.alone : Skeleton → Skeleton
  | .junction .group [part] => part
  | skeleton => skeleton

namespace Tree

mutual

/-- The skeleton of a tree. -/
def skeleton : Tree → Skeleton
  | .requirement _ _ term => .wording term.description
  | .negation _ operand => .negation operand.skeleton
  | .junction _ kind parts => .junction kind (skeletons parts)

/-- The skeletons of some trees. -/
def skeletons : List Tree → List Skeleton
  | [] => []
  | t :: rest => t.skeleton :: skeletons rest

end

@[simp]
theorem skeletons_eq_map (parts : List Tree) :
  skeletons parts = parts.map skeleton
  := by
  induction parts with
  | nil => rfl
  | cons t rest ih => simp [skeletons, ih]

end Tree

/-! ### Generic wordings -/

/-- The character is neither a bracket nor one of the letters `A` and `R`, of which each keyword
between parts has one. -/
def isPlain (c : Char) : Bool := c ≠ '(' ∧ c ≠ ')' ∧ c ≠ 'A' ∧ c ≠ 'R'

/-- The text consists of plain characters, and it begins with one that does not begin a negation. -/
structure IsWording (text : List Char) : Prop where
  plain : ∀ c ∈ text, isPlain c
  ne_nil : text ≠ []
  head?_ne : text.head? ≠ some 'N'

theorem isPlain_of_all {text : List Char} (h : text.all isPlain) :
  ∀ c ∈ text, isPlain c
  := List.all_eq_true.mp h

instance (text : List Char) : Decidable (IsWording text) :=
  decidable_of_iff (text.all isPlain ∧ text ≠ [] ∧ text.head? ≠ some 'N')
    ⟨fun ⟨hplain, hne, hhead⟩ => ⟨isPlain_of_all hplain, hne, hhead⟩,
      fun h => ⟨List.all_eq_true.mpr h.plain, h.ne_nil, h.head?_ne⟩⟩

theorem isPlain_of_mem_append {left right : String} (hleft : ∀ c ∈ left.toList, isPlain c)
    (hright : ∀ c ∈ right.toList, isPlain c) :
  ∀ c ∈ (left ++ right).toList, isPlain c
  := by
  intro c hc
  rw [String.toList_append, List.mem_append] at hc
  obtain hc | hc := hc
  · apply hleft c hc
  · apply hright c hc

theorem isPlain_of_mem_numeral (n : Int64) :
  ∀ c ∈ (Decimal.numeral n).toList, isPlain c
  := by
  intro c hc
  rw [Decimal.numeral, String.toList_ofList] at hc
  obtain rfl | hdigit := Decimal.eq_minus_or_isDigit_of_mem_digits hc
  · decide
  · have hne (other : Char) (hother : other.isDigit = false) : c ≠ other := by
      rintro rfl
      rw [hdigit] at hother
      contradiction
    simp [isPlain, hne]

/-- A wording may be continued by plain characters. -/
theorem IsWording.append {left right : String} (hleft : IsWording left.toList)
    (hright : ∀ c ∈ right.toList, isPlain c) :
  IsWording (left ++ right).toList
  := by
  obtain ⟨first, rest, hlist⟩ := List.exists_cons_of_ne_nil hleft.ne_nil
  have hfirst := hleft.head?_ne
  constructor
  · apply isPlain_of_mem_append hleft.plain hright
  · simp [hlist]
  · simpa [hlist] using hfirst

theorem isSome_stateGateText? {c : Criterion} (h : c.kind = .stateGate) :
  (stateGateText? c.operator).isSome
  := by
  unfold Criterion.kind at h
  split at h
  · split at h <;> cases h
  · split at h
    · assumption
    · split at h <;> cases h

theorem isWording_of_stateGateText? {operator : Int64} {text : String}
    (h : stateGateText? operator = some text) :
  IsWording text.toList
  := by
  unfold stateGateText? at h
  split_ifs at h
  all_goals
    obtain rfl := Option.some.inj h
    decide

theorem isWording_stat (code : Int64) :
  IsWording (Names.none.stat code).toList
  := by
  apply IsWording.append
  · decide
  · apply isPlain_of_mem_numeral

theorem isPlain_of_mem_flag (stat bit : Int64) :
  ∀ c ∈ (Names.none.flag stat bit).toList, isPlain c
  := by
  apply isPlain_of_mem_append
  · apply isPlain_of_all rfl
  · apply isPlain_of_mem_numeral

theorem isPlain_of_mem_operatorLabel (c : Criterion) :
  ∀ character ∈ c.operatorLabel.toList, isPlain character
  := by
  apply isPlain_of_mem_append
  · apply isPlain_of_all rfl
  · apply isPlain_of_mem_numeral

theorem isWording_probeText (probe : Probe) (reference : Int64) :
  IsWording (Criterion.probeText probe reference).toList
  := by
  have hplain := isPlain_of_mem_numeral reference
  cases probe with
  | wornItem =>
    apply IsWording.append _ hplain
    decide
  | runningEffect | noRunningEffect =>
    apply IsWording.append
    · apply IsWording.append _ hplain
      decide
    · apply isPlain_of_all rfl

/-- Without names, only the level has a wording of its own. -/
theorem isWording_of_equationText? {stat value : Int64} {text : String}
    (h : Criterion.equationText? .none stat value = some text) :
  IsWording text.toList
  := by
  unfold Criterion.equationText? at h
  split at h
  · obtain rfl := Option.some.inj h
    apply IsWording.append
    · decide
    · apply isPlain_of_mem_numeral
  · cases hcategory : Category.ofStat? stat <;> simp [hcategory, Names.none] at h

theorem isWording_comparisonText (stat : Int64) (comparison : Comparison) (bound : Int64) :
  IsWording (Criterion.comparisonText .none stat comparison bound).toList
  := by
  have hsymbol : ∀ c ∈ comparison.symbol.toList, isPlain c := by
    apply isPlain_of_all
    cases comparison <;> rfl
  have hformula (right : String) (hright : ∀ c ∈ right.toList, isPlain c) :
      IsWording (Names.none.stat stat ++ " " ++ comparison.symbol ++ " " ++ right).toList := by
    apply IsWording.append _ hright
    apply IsWording.append _ (isPlain_of_all rfl)
    apply IsWording.append _ hsymbol
    apply IsWording.append (isWording_stat stat) (isPlain_of_all rfl)
  have hnumeral := hformula _ (isPlain_of_mem_numeral bound)
  cases comparison with
  | has | lacks => apply hformula _ (isPlain_of_mem_flag stat bound)
  | atMost | atLeast | notEqual => apply hnumeral
  | equal =>
    rcases hequation : Criterion.equationText? .none stat bound with _ | text
    · simpa [Criterion.comparisonText, hequation] using hnumeral
    · simpa [Criterion.comparisonText, hequation] using isWording_of_equationText? hequation

/-- The generic description of an operand is a wording. -/
theorem isWording_description {c : Criterion} (h : (c.term .none).isOperand) :
  IsWording (c.term .none).description.toList
  := by
  rw [Criterion.isOperand_term_iff] at h
  rw [Criterion.term, Criterion.description]
  rcases hkind : c.kind with connective | _ | _ | probe | (_ | comparison)
  · exact absurd hkind (h connective)
  · apply IsWording.append _ (isPlain_of_mem_operatorLabel c)
    decide
  · obtain ⟨text, htext⟩ := Option.isSome_iff_exists.mp (isSome_stateGateText? hkind)
    have hwording := isWording_of_stateGateText? htext
    simpa only [htext, Option.getD_some] using hwording
  · apply isWording_probeText
  · apply IsWording.append _ (isPlain_of_mem_numeral c.value)
    apply IsWording.append _ (isPlain_of_all rfl)
    apply IsWording.append _ (isPlain_of_mem_operatorLabel c)
    apply IsWording.append (isWording_stat c.stat) (isPlain_of_all rfl)
  · apply isWording_comparisonText

/-! ### What follows a formula -/

/-- The text that stands between the parts of a junction. -/
def separator (kind : Junction) : List Char := (" " ++ kind.connective.keyword ++ " ").toList

/-- The text that may follow a formula: nothing, a closing bracket, or a separator. -/
inductive Follows : List Char → Prop where
  | nil : Follows []
  | bracket (rest : List Char) : Follows (')' :: rest)
  | separator (kind : Junction) (rest : List Char) : Follows (separator kind ++ rest)

/-- The plain characters with which a text begins that may follow a formula, given the first
character of the text that is not plain. -/
def leading : Option Char → List Char
  | some 'A' => [' ']
  | some 'R' => [' ', 'O']
  | _ => []

theorem Follows.takeWhile_eq {rest : List Char} (h : Follows rest) :
  rest.takeWhile isPlain = leading (rest.dropWhile isPlain).head?
  := by
  cases h with
  | nil => rfl
  | bracket rest => rfl
  | separator kind rest => cases kind <;> rfl

/-- A wording ends where the text begins that follows it. -/
theorem append_inj_of_follows {text text' rest rest' : List Char}
    (htext : ∀ c ∈ text, isPlain c) (htext' : ∀ c ∈ text', isPlain c)
    (hrest : Follows rest) (hrest' : Follows rest') (h : text ++ rest = text' ++ rest') :
  text = text' ∧ rest = rest'
  := by
  have hdropWhile : rest.dropWhile isPlain = rest'.dropWhile isPlain := by
    rw [← List.dropWhile_append_of_pos htext, h, List.dropWhile_append_of_pos htext']
  have htakeWhile : rest.takeWhile isPlain = rest'.takeWhile isPlain := by
    rw [hrest.takeWhile_eq, hdropWhile, ← hrest'.takeWhile_eq]
  obtain rfl : rest = rest' := by
    rw [← List.takeWhile_append_dropWhile (p := isPlain) (l := rest), htakeWhile, hdropWhile,
      List.takeWhile_append_dropWhile]
  use List.append_cancel_right h

namespace Tree

/-! ### The text of a formula -/

/-- What is written after the first part of a junction. -/
def further (kind : Junction) (parts : List Tree) : List Char :=
  parts.flatMap fun t => separator kind ++ t.formula.toList

/-- The separator tells a conjunction from a disjunction. -/
theorem kind_eq_of_further
    {kind kind' : Junction} (hkind : kind ≠ .group) (hkind' : kind' ≠ .group) {t t' : Tree}
    {parts parts' : List Tree} {rest rest' : List Char}
    (h : further kind (t :: parts) ++ rest = further kind' (t' :: parts') ++ rest') :
  kind = kind'
  := by
  have hletter := congrArg (fun text : List Char => text[1]?) h
  cases kind <;> cases kind' <;> simp_all [further, separator, Junction.connective,
    Connective.keyword]

theorem further_cons (kind : Junction) (t : Tree) (parts : List Tree) :
  further kind (t :: parts) = separator kind ++ (t.formula.toList ++ further kind parts)
  := by
  simp [further]

theorem follows_further {rest : List Char} (h : Follows rest) (kind : Junction)
    (parts : List Tree) :
  Follows (further kind parts ++ rest)
  := by
  cases parts with
  | nil => exact h
  | cons t parts =>
    rw [further_cons, List.append_assoc]
    apply Follows.separator

theorem toList_joinedText_cons (kind : Junction) (t : Tree) (parts : List Tree) :
  (joinedText kind.connective ((t :: parts).map formula)).toList
    = t.formula.toList ++ further kind parts
  := by
  induction parts generalizing t with
  | nil => simp [joinedText, further]
  | cons u parts ih =>
    rw [List.map_cons, List.map_cons, joinedText, String.intercalate_cons_cons, ← List.map_cons,
      ← joinedText, String.toList_append, String.toList_append, ih, further_cons, separator,
      List.append_assoc]

theorem toList_formula_negation (place : Place) (operand : Tree) :
  (Tree.negation place operand).formula.toList
    = 'N' :: 'O' :: 'T' :: ' ' :: '(' :: (operand.formula.toList ++ [')'])
  := by
  simp [formula, negatedText, Connective.keyword]

theorem toList_formula_junction
    {kind : Junction} (hkind : kind ≠ .group) (place : Place) (t : Tree) (parts : List Tree) :
  (Tree.junction place kind (t :: parts)).formula.toList
    = '(' :: (t.formula.toList ++ (further kind parts ++ [')']))
  := by
  have hformula : (Tree.junction place kind (t :: parts)).formula
      = bracketedText kind.connective ((t :: parts).map formula) := by
    rw [← formulas_eq_map]
    cases kind <;> trivial
  rw [hformula, bracketedText, String.toList_append, String.toList_append, toList_joinedText_cons]
  simp

/-! ### Reading a formula -/

/-- The requirements of the tree are described by wordings. -/
def IsWorded (t : Tree) : Prop := ∀ leaf ∈ t.leaves, IsWording leaf.1.description.toList

/-- The formula of the tree, with what follows it, can be told from the formula of any other
expression, with what follows that. -/
def IsLegible (t : Tree) : Prop :=
  ∀ t' : Tree, t'.IsExpression → t'.IsWorded → ∀ rest rest' : List Char, Follows rest →
    Follows rest' → t.formula.toList ++ rest = t'.formula.toList ++ rest' →
    t.skeleton = t'.skeleton ∧ rest = rest'

theorem IsWorded.of_mem {place : Place} {kind : Junction} {parts : List Tree}
    (h : (Tree.junction place kind parts).IsWorded) {t : Tree} (ht : t ∈ parts) :
  t.IsWorded
  := by
  intro leaf hleaf
  apply h leaf
  apply mem_leaves_junction_iff.mpr
  use t

/-- The parts after the first are read one by one, up to the text that follows the last. -/
theorem further_inj
    {kind : Junction} {parts parts' : List Tree} (hparts : ∀ t ∈ parts, t.IsLegible)
    (hparts' : ∀ t ∈ parts', t.IsExpression ∧ t.IsWorded) {rest rest' : List Char}
    (hrest : Follows rest) (hrest' : Follows rest') (hhead : rest.head? ≠ some ' ')
    (hhead' : rest'.head? ≠ some ' ')
    (h : further kind parts ++ rest = further kind parts' ++ rest') :
  parts.map skeleton = parts'.map skeleton ∧ rest = rest'
  := by
  have hblank (t : Tree) (parts : List Tree) (rest : List Char) :
      (further kind (t :: parts) ++ rest).head? = some ' ' := by
    rw [further_cons]
    cases kind <;> rfl
  induction parts generalizing parts' with
  | nil =>
    cases parts' with
    | nil => exact ⟨rfl, h⟩
    | cons t' parts' =>
      exfalso
      apply hhead
      rw [← hblank t' parts' rest', ← h]
      rfl
  | cons t parts ih =>
    cases parts' with
    | nil =>
      exfalso
      apply hhead'
      rw [← hblank t parts rest, h]
      rfl
    | cons t' parts' =>
      obtain ⟨ht, hparts⟩ := List.forall_mem_cons.mp hparts
      obtain ⟨⟨hexpression, hworded⟩, hparts'⟩ := List.forall_mem_cons.mp hparts'
      rw [further_cons, further_cons, List.append_assoc, List.append_assoc, List.append_assoc,
        List.append_assoc] at h
      obtain ⟨hskeleton, hfurther⟩ :=
        ht t' hexpression hworded _ _ (follows_further hrest kind parts)
          (follows_further hrest' kind parts') (List.append_cancel_left h)
      obtain ⟨hskeletons, hsame⟩ := ih hparts hparts' hfurther
      rw [List.map_cons, List.map_cons, hskeleton, hskeletons]
      exact ⟨rfl, hsame⟩

/-- The letter with which the formula of a tree begins, unless it is a wording. -/
def initial : Tree → Option Char
  | .requirement _ _ _ => none
  | .negation _ _ => some 'N'
  | .junction _ _ _ => some '('

/-- The first letter of a formula tells whether it is a wording, a negation or a junction. -/
theorem IsExpression.initial_eq {t : Tree} (h : t.IsExpression) (hworded : t.IsWorded)
    (rest : List Char) :
  (t.formula.toList ++ rest).head?.filter (fun c => c = 'N' ∨ c = '(') = t.initial
  := by
  cases h with
  | requirement place verdict term =>
    have hwording : IsWording term.description.toList :=
      hworded (term, verdict) (List.mem_singleton_self _)
    obtain ⟨first, others, hlist⟩ := List.exists_cons_of_ne_nil hwording.ne_nil
    have hplain := hwording.plain first (hlist ▸ List.mem_cons_self)
    have hhead := hwording.head?_ne
    simp_all [formula, initial, isPlain]
  | negation place _ =>
    rw [toList_formula_negation]
    rfl
  | junction place hallowed _ =>
    obtain ⟨hkind, harity⟩ := hallowed
    obtain ⟨first, others, rfl⟩ :=
      List.exists_cons_of_length_pos (Nat.lt_of_lt_of_le Nat.zero_lt_two harity)
    rw [toList_formula_junction hkind]
    rfl

theorem initial_eq_of_append
    {t t' : Tree} (h : t.IsExpression) (h' : t'.IsExpression) (hworded : t.IsWorded)
    (hworded' : t'.IsWorded) {rest rest' : List Char}
    (heq : t.formula.toList ++ rest = t'.formula.toList ++ rest') :
  t.initial = t'.initial
  := by
  rw [← h.initial_eq hworded rest, heq, h'.initial_eq hworded' rest']

theorem isLegible_requirement
    {place : Place} {verdict : Option Bool} {term : Term}
    (hworded : (Tree.requirement place verdict term).IsWorded) :
  (Tree.requirement place verdict term).IsLegible
  := by
  intro t' h' hworded' rest rest' hrest hrest' heq
  have hinitial := initial_eq_of_append (.requirement place verdict term) h' hworded hworded' heq
  cases h' with
  | negation place' _ => cases hinitial
  | junction place' _ _ => cases hinitial
  | requirement place' verdict' term' =>
    have hwording : IsWording term.description.toList :=
      hworded (term, verdict) (List.mem_singleton_self _)
    have hwording' : IsWording term'.description.toList :=
      hworded' (term', verdict') (List.mem_singleton_self _)
    obtain ⟨htext, hsame⟩ := append_inj_of_follows hwording.plain hwording'.plain hrest hrest' heq
    use congrArg Skeleton.wording (String.toList_inj.mp htext)

theorem IsLegible.negation
    {operand : Tree} (hlegible : operand.IsLegible) {place : Place}
    (h : (Tree.negation place operand).IsExpression)
    (hworded : (Tree.negation place operand).IsWorded) :
  (Tree.negation place operand).IsLegible
  := by
  intro t' h' hworded' rest rest' hrest hrest' heq
  have hinitial := initial_eq_of_append h h' hworded hworded' heq
  cases h' with
  | requirement place' verdict' term' => cases hinitial
  | junction place' _ _ => cases hinitial
  | @negation operand' place' hoperand' =>
    rw [toList_formula_negation, toList_formula_negation] at heq
    simp only [List.cons_append, List.cons.injEq, true_and, List.append_assoc] at heq
    obtain ⟨hskeleton, hclosing⟩ :=
      hlegible operand' hoperand' hworded' _ _ (.bracket rest) (.bracket rest') heq
    use congrArg Skeleton.negation hskeleton, (List.cons.inj hclosing).2

theorem exists_cons_cons {parts : List Tree} (h : 2 ≤ parts.length) :
  ∃ first second others, parts = first :: second :: others
  := by
  match parts, h with
  | first :: second :: others, _ => use first, second, others

theorem isLegible_junction
    {kind : Junction} {parts : List Tree} (hlegible : ∀ t ∈ parts, t.IsLegible) {place : Place}
    (h : (Tree.junction place kind parts).IsExpression)
    (hworded : (Tree.junction place kind parts).IsWorded) :
  (Tree.junction place kind parts).IsLegible
  := by
  intro t' h' hworded' rest rest' hrest hrest' heq
  have hinitial := initial_eq_of_append h h' hworded hworded' heq
  cases h' with
  | requirement place' verdict' term' => cases hinitial
  | negation place' _ => cases hinitial
  | @junction kind' parts' place' hallowed' hparts' =>
    obtain ⟨hkind', harity'⟩ := hallowed'
    obtain ⟨first', second', others', rfl⟩ := exists_cons_cons harity'
    obtain ⟨hkind, harity⟩ : kind ≠ .group ∧ 2 ≤ parts.length := by
      cases h with
      | junction _ hallowed _ => exact hallowed
    obtain ⟨first, second, others, rfl⟩ := exists_cons_cons harity
    rw [toList_formula_junction hkind, toList_formula_junction hkind'] at heq
    simp only [List.cons_append, List.cons.injEq, true_and, List.append_assoc] at heq
    -- the first parts are read up to the first separators, which tell how the parts are joined
    obtain ⟨hlegible, hlegibles⟩ := List.forall_mem_cons.mp hlegible
    obtain ⟨hfirst', hothers'⟩ := List.forall_mem_cons.mp hparts'
    obtain ⟨hfirst, hfurther⟩ := hlegible first' hfirst' (hworded'.of_mem List.mem_cons_self) _ _
      (follows_further (.bracket rest) kind _) (follows_further (.bracket rest') kind' _) heq
    obtain rfl := kind_eq_of_further hkind hkind' hfurther
    have hworded' : ∀ t ∈ second' :: others', t.IsExpression ∧ t.IsWorded := fun t ht =>
      ⟨hothers' t ht, hworded'.of_mem (List.mem_cons_of_mem _ ht)⟩
    obtain ⟨hskeletons, hclosing⟩ := further_inj hlegibles hworded' (.bracket rest) (.bracket rest')
      (by simp) (by simp) hfurther
    constructor
    · rw [skeleton, skeleton, skeletons_eq_map, skeletons_eq_map, List.map_cons, hfirst, hskeletons,
        ← List.map_cons]
    · apply (List.cons.inj hclosing).2

/-- A worded expression is read off its formula, whatever text follows. -/
theorem IsExpression.isLegible {t : Tree} (h : t.IsExpression) (hworded : t.IsWorded) :
  t.IsLegible
  := by
  induction h with
  | requirement place verdict term => apply isLegible_requirement hworded
  | negation place hoperand ih => apply (ih hworded).negation (.negation place hoperand) hworded
  | junction place hallowed hparts ih =>
    apply isLegible_junction _ (.junction place hallowed hparts) hworded
    intro t ht
    apply ih t ht (hworded.of_mem ht)

theorem IsExpression.formula_ne_nil {t : Tree} (h : t.IsExpression) (hworded : t.IsWorded) :
  t.formula.toList ≠ []
  := by
  cases h with
  | requirement place verdict term =>
    exact (hworded (term, verdict) (List.mem_singleton_self _)).ne_nil
  | negation place _ =>
    rw [toList_formula_negation]
    apply List.cons_ne_nil
  | junction place hallowed _ =>
    obtain ⟨hkind, harity⟩ := hallowed
    obtain ⟨first, second, others, rfl⟩ := exists_cons_cons harity
    rw [toList_formula_junction hkind]
    apply List.cons_ne_nil

/-- The skeletons of some worded expressions are read off the text in which their formulas are
joined. -/
theorem map_skeleton_eq_of_joinedText_eq
    {parts parts' : List Tree} (hparts : ∀ t ∈ parts, t.IsExpression ∧ t.IsWorded)
    (hparts' : ∀ t ∈ parts', t.IsExpression ∧ t.IsWorded)
    (h : joinedText Junction.group.connective (parts.map formula)
      = joinedText Junction.group.connective (parts'.map formula)) :
  parts.map skeleton = parts'.map skeleton
  := by
  have hempty {t : Tree} (ht : t.IsExpression ∧ t.IsWorded) (others : List Tree) :
      joinedText Junction.group.connective ((t :: others).map formula)
        ≠ joinedText Junction.group.connective ([].map formula) := by
    intro hjoined
    have htoList := congrArg String.toList hjoined
    rw [toList_joinedText_cons] at htoList
    apply ht.1.formula_ne_nil ht.2 (List.append_eq_nil_iff.mp htoList).1
  rcases parts with _ | ⟨first, others⟩ <;> rcases parts' with _ | ⟨first', others'⟩
  · rfl
  · exact absurd h.symm (hempty (hparts' first' List.mem_cons_self) others')
  · exact absurd h (hempty (hparts first List.mem_cons_self) others)
  · obtain ⟨⟨hfirst, hworded⟩, hothers⟩ := List.forall_mem_cons.mp hparts
    obtain ⟨⟨hfirst', hworded'⟩, hothers'⟩ := List.forall_mem_cons.mp hparts'
    have htoList := congrArg String.toList h
    rw [toList_joinedText_cons, toList_joinedText_cons, ← List.append_nil (further _ others),
      ← List.append_nil (further _ others')] at htoList
    obtain ⟨hskeleton, hfurther⟩ := hfirst.isLegible hworded first' hfirst' hworded' _ _
      (follows_further .nil .group others) (follows_further .nil .group others') htoList
    have hlegible : ∀ t ∈ others, t.IsLegible := fun t ht =>
      (hothers t ht).1.isLegible (hothers t ht).2
    obtain ⟨hskeletons, -⟩ :=
      further_inj hlegible hothers' .nil .nil (by simp) (by simp) hfurther
    rw [List.map_cons, List.map_cons, hskeleton, hskeletons]

/-! ### Skeletons and formulas -/

/-- What the skeleton of a tree determines, the skeletons of the parts determine. -/
theorem map_eq_of_map_skeleton_eq
    {α : Type} {f : Tree → α} {parts parts' : List Tree}
    (hf : ∀ t ∈ parts, ∀ t', t.skeleton = t'.skeleton → f t = f t')
    (h : parts.map skeleton = parts'.map skeleton) :
  parts.map f = parts'.map f
  := by
  induction parts generalizing parts' with
  | nil =>
    obtain rfl := List.map_eq_nil_iff.mp h.symm
    rfl
  | cons t rest ih =>
    obtain ⟨t', rest', rfl, hskeleton, hrest⟩ := List.map_eq_cons_iff.mp h.symm
    obtain ⟨ht, hothers⟩ := List.forall_mem_cons.mp hf
    rw [List.map_cons, List.map_cons, ht t' hskeleton.symm, ih hothers hrest.symm]

/-- Trees with the same skeleton have the same formula. -/
theorem formula_eq_of_skeleton_eq {t t' : Tree} (h : t.skeleton = t'.skeleton) :
  t.formula = t'.formula
  := by
  induction t using Tree.induction generalizing t' with
  | requirement place verdict term =>
    cases t' with
    | requirement place' verdict' term' => apply Skeleton.wording.inj h
    | negation place' operand' => cases h
    | junction place' kind' parts' => cases h
  | negation place operand ih =>
    cases t' with
    | requirement place' verdict' term' => cases h
    | negation place' operand' => rw [formula, formula, ih (Skeleton.negation.inj h)]
    | junction place' kind' parts' => cases h
  | junction place kind parts ih =>
    cases t' with
    | requirement place' verdict' term' => cases h
    | negation place' operand' => cases h
    | junction place' kind' parts' =>
      obtain ⟨rfl, hskeletons⟩ := Skeleton.junction.inj h
      rw [skeletons_eq_map, skeletons_eq_map] at hskeletons
      apply formula_junction_congr
      apply map_eq_of_map_skeleton_eq _ hskeletons
      intro t ht t'
      apply ih t ht

/-- The formula does not show whether a single part is a group. -/
theorem exists_skeleton_eq_alone (t : Tree) :
  ∃ u : Tree, u.skeleton = t.skeleton.alone ∧ u.formula = t.formula
  := by
  rcases t with _ | _ | ⟨place, _ | _ | _, parts⟩
  case junction.group =>
    rcases parts with _ | ⟨part, _ | ⟨second, others⟩⟩
    · exact ⟨_, rfl, rfl⟩
    · use part, rfl
      simp [formula, joinedText]
    · exact ⟨_, rfl, rfl⟩
  all_goals exact ⟨_, rfl, rfl⟩

/-! ### The tree of some criteria -/

section Build

variable {stats : Option Snapshot} {criteria : List Criterion} {t : Tree}

theorem IsExpression.alone_eq (h : t.IsExpression) :
  Skeleton.alone (.junction .group [t.skeleton]) = t.skeleton.alone
  := by
  cases h with
  | requirement | negation => rfl
  | @junction kind _ _ hallowed _ =>
    cases kind with
    | all | any => rfl
    | group => exact absurd rfl hallowed.1

theorem isWorded_of_build? (h : build? .none stats criteria = some t) :
  t.IsWorded
  := by
  intro leaf hleaf
  rw [leaves_of_build? h] at hleaf
  obtain ⟨term, hterm, rfl⟩ := List.mem_map.mp hleaf
  obtain ⟨hmem, hoperand⟩ := List.mem_filter.mp hterm
  obtain ⟨c, -, rfl⟩ := List.mem_map.mp hmem
  apply isWording_description hoperand

/-- The tree of some criteria is read part by part: it is an expression or a group of them. -/
theorem exists_parts_of_build? (h : build? .none stats criteria = some t) :
  ∃ parts : List Tree, (∀ part ∈ parts, part.IsExpression ∧ part.IsWorded)
    ∧ t.formula = joinedText Junction.group.connective (parts.map formula)
    ∧ t.skeleton.alone = Skeleton.alone (.junction .group (parts.map skeleton))
  := by
  have hworded := isWorded_of_build? h
  obtain hexpression | ⟨place, parts, rfl, hparts⟩ := isExpression_or_group_of_build? h
  · use [t]
    refine ⟨?_, ?_, ?_⟩
    · simpa using ⟨hexpression, hworded⟩
    · simp [joinedText]
    · apply hexpression.alone_eq.symm
  · use parts
    refine ⟨?_, ?_, ?_⟩
    · intro part hpart
      use hparts part hpart, hworded.of_mem hpart
    · rw [formula, formulas_eq_map]
      rfl
    · rw [skeleton, skeletons_eq_map]

end Build

/-- Without names, the formulas of the trees of two lists of criteria are the same exactly when the
trees have the same skeleton, where a group of a single requirement has the skeleton of that
requirement. -/
theorem formula_eq_iff_skeleton_eq
    {criteria criteria' : List Criterion} (hne : criteria ≠ []) (hne' : criteria' ≠ []) :
  ∃ t t', build? .none none criteria = some t ∧ build? .none none criteria' = some t'
    ∧ (t.formula = t'.formula ↔ t.skeleton.alone = t'.skeleton.alone)
  := by
  obtain ⟨t, hbuilt⟩ := exists_build? .none none hne
  obtain ⟨t', hbuilt'⟩ := exists_build? .none none hne'
  use t, t', hbuilt, hbuilt'
  constructor
  · intro heq
    obtain ⟨parts, hparts, hformula, hskeleton⟩ := exists_parts_of_build? hbuilt
    obtain ⟨parts', hparts', hformula', hskeleton'⟩ := exists_parts_of_build? hbuilt'
    rw [hformula, hformula'] at heq
    rw [hskeleton, hskeleton', map_skeleton_eq_of_joinedText_eq hparts hparts' heq]
  · intro heq
    obtain ⟨u, hu, hformula⟩ := t.exists_skeleton_eq_alone
    obtain ⟨u', hu', hformula'⟩ := t'.exists_skeleton_eq_alone
    rw [← hformula, ← hformula']
    apply formula_eq_of_skeleton_eq
    rw [hu, hu', heq]

/-- Criteria that are worded alike are read alike, and so is a group of one. -/
theorem skeleton_eq_of_worded_alike :
  let criteria : List Criterion :=
    [⟨0, 1, 1, Int64.minValue⟩, ⟨1, 2, 0, 2⟩, .sentinel 2 3, .sentinel 3 42, ⟨4, 7, 88, 1⟩,
      .sentinel 5 4]
  let criteria' : List Criterion :=
    [.sentinel 0 4, ⟨1, 1, 1, Int64.minValue + 1⟩, ⟨2, 2, 0, 2⟩, .sentinel 3 3, .sentinel 4 42,
      ⟨5, 0, 88, 1⟩, .sentinel 6 4]
  (criteria ≠ [] ∧ criteria' ≠ []
    ∧ (build? .none none criteria).map formula
      = some "(NOT ((Stat 1 ≤ -9223372036854775808 OR Stat 2 = 2)) AND Must be flying)"
    ∧ ∃ t t', build? .none none criteria = some t ∧ build? .none none criteria' = some t'
      ∧ t ≠ t' ∧ t.skeleton.alone = t'.skeleton.alone)
  ∧ ∃ t t', build? .none none [⟨0, 1, 0, 1⟩] = some t
    ∧ build? .none none [⟨0, 1, 0, 1⟩, .sentinel 1 4] = some t'
    ∧ t ≠ t' ∧ t.skeleton.alone = t'.skeleton.alone
  := by
  intro criteria criteria'
  have hread {criteria criteria' : List Criterion} (hne : criteria ≠ []) (hne' : criteria' ≠ [])
      (hformula : (build? .none none criteria).map formula
        = (build? .none none criteria').map formula)
      (hdistinct : build? .none none criteria ≠ build? .none none criteria') :
      ∃ t t', build? .none none criteria = some t ∧ build? .none none criteria' = some t'
        ∧ t ≠ t' ∧ t.skeleton.alone = t'.skeleton.alone := by
    obtain ⟨t, t', hbuilt, hbuilt', hiff⟩ := formula_eq_iff_skeleton_eq hne hne'
    rw [hbuilt, hbuilt'] at hformula hdistinct
    use t, t', hbuilt, hbuilt', fun h => hdistinct (congrArg some h)
    apply hiff.mp (Option.some.inj hformula)
  have hne : criteria ≠ [] := List.cons_ne_nil _ _
  have hne' : criteria' ≠ [] := List.cons_ne_nil _ _
  refine ⟨⟨hne, hne', by decide, ?_⟩, ?_⟩
  · apply hread hne hne' <;> decide
  · apply hread <;> decide

end Tree

end Prerequisite
