import Mathlib.Data.Nat.PSub
import Prerequisite.Proofs.Tree.Shape
import Prerequisite.Tree.Drawing

/-!
# The lines of a drawing

The drawing of a tree is described node by node.  The line of the root is its caption.  The line of
any other node shows for each node between the root and the node whether more siblings follow, then
the branch to the node, and then its caption.  The pen draws rows and does not see the tree, but
what it remembers begins with what is said of the nodes above the current row, because the rows
below a node come right after the row of the node.
-/

namespace Prerequisite

namespace Tree

/-! ### The lines of a tree -/

/-- What stands for a node: the wording of a requirement, or the word that joins the nodes below. -/
def heading : Tree → String
  | .requirement _ _ term => term.description
  | .negation _ _ => "NOT"
  | .junction _ .all _ => "AND"
  | .junction _ .any _ => "OR"
  | .junction _ .group _ => "ALL OF"

theorem label_eq_heading (t : Tree) :
  t.label = t.heading
  := by
  rcases t with _ | _ | ⟨_, _ | _ | _, _⟩ <;> rfl

/-- The heading of a node, its status and its counts. -/
def caption (t : Tree) : String :=
  t.heading ++ " [" ++ t.status.name ++ " " ++ Decimal.natural t.tally.met ++ "/" ++
    Decimal.natural t.tally.total ++ "]"

/-- The line of a node below the root, when the nodes between the root and the node are last among
their siblings as given, the outermost first. -/
def line (above : List Bool) (isLast : Bool) (t : Tree) : String :=
  String.join (above.map fun last => if last then "   " else "│  ") ++
    (if isLast then "└─ " else "├─ ") ++ t.caption

mutual

/-- The lines of the nodes below a node, each node before those below it. -/
def linesBelow (above : List Bool) : Tree → List String
  | .requirement _ _ _ => []
  | .negation _ operand => operand.line above true :: operand.linesBelow (above ++ [true])
  | .junction _ _ parts => siblingLines above parts

/-- The lines of some siblings, each with the lines of the nodes below it. -/
def siblingLines (above : List Bool) : List Tree → List String
  | [] => []
  | t :: rest =>
    t.line above rest.isEmpty ::
      (t.linesBelow (above ++ [rest.isEmpty]) ++ siblingLines above rest)

end

/-- The lines of a tree, the root first. -/
def outline (t : Tree) : List String := t.caption :: t.linesBelow []

theorem linesBelow_eq (above : List Bool) (t : Tree) :
  t.linesBelow above = siblingLines above t.children
  := by
  cases t with
  | requirement place verdict term => rfl
  | negation place operand => simp [linesBelow, children, siblingLines]
  | junction place kind parts => rfl

/-! ### The rows of a tree that is placed -/

theorem children_placedAt (place : Place) (t : Tree) :
  (t.placedAt place).children = siblingsAt (place.level + 1) t.children
  := by
  cases t <;> rfl

theorem row_placedAt (place : Place) (t : Tree) :
  (t.placedAt place).row = ⟨place, t.label, t.tally⟩
  := by
  rw [row, tally_placedAt]
  rcases t with _ | _ | ⟨_, _ | _ | _, _⟩ <;> rfl

/-- The row of the root comes first, and then come the rows of its children at the next level. -/
theorem rows_placedAt (place : Place) (t : Tree) :
  (t.placedAt place).rows
    = ⟨place, t.label, t.tally⟩ :: (siblingsAt (place.level + 1) t.children).flatMap rows
  := by
  rw [rows_eq_cons, row_placedAt, children_placedAt]

/-! ### The pen -/

/-- The pen draws the line of a node if what it remembers begins with what is said of the nodes
above, and then it remembers this and the node. -/
theorem drawRows_cons
    {above stack : List Bool} (h : above <+: stack) (isLast : Bool) (t : Tree) (more : List Row) :
  drawRows stack (⟨⟨above.length + 1, isLast⟩, t.label, t.tally⟩ :: more)
    = t.line above isLast :: drawRows (above ++ [isLast]) more
  := by
  rw [drawRows, if_neg (Nat.succ_ne_zero _), Nat.add_sub_cancel, ← List.prefix_iff_eq_take.mp h,
    label_eq_heading]
  rfl

/-- Wherever the tree stands among the rows, its lines are drawn. Afterwards, what the pen remembers
begins with what is said of the nodes above the tree, as it did before. -/
def IsDrawn (t : Tree) : Prop :=
  ∀ (above stack : List Bool) (isLast : Bool) (more : List Row), above <+: stack →
    ∃ stack', above <+: stack'
      ∧ drawRows stack ((t.placedAt ⟨above.length + 1, isLast⟩).rows ++ more)
        = t.line above isLast :: (t.linesBelow (above ++ [isLast]) ++ drawRows stack' more)

/-- Siblings are drawn one after the other. -/
theorem drawRows_siblingsAt
    {parts : List Tree} (hparts : ∀ t ∈ parts, t.IsDrawn) {above stack : List Bool}
    (h : above <+: stack) (more : List Row) :
  ∃ stack', above <+: stack'
    ∧ drawRows stack ((siblingsAt (above.length + 1) parts).flatMap rows ++ more)
      = siblingLines above parts ++ drawRows stack' more
  := by
  induction parts generalizing stack with
  | nil => exact ⟨stack, h, rfl⟩
  | cons t rest ih =>
    obtain ⟨stack', h', hfirst⟩ := hparts t List.mem_cons_self above stack rest.isEmpty
      ((siblingsAt (above.length + 1) rest).flatMap rows ++ more) h
    obtain ⟨stack'', h'', hrest⟩ := ih (fun u hu => hparts u (List.mem_cons_of_mem _ hu)) h'
    use stack'', h''
    rw [siblingsAt, List.flatMap_cons, List.append_assoc, hfirst, hrest, siblingLines,
      List.cons_append, List.append_assoc]

/-- A tree is drawn if its children are. -/
theorem isDrawn_of_children {t : Tree} (h : ∀ child ∈ t.children, child.IsDrawn) :
  t.IsDrawn
  := by
  intro above stack isLast more hprefix
  obtain ⟨stack', hprefix', hbelow⟩ :=
    drawRows_siblingsAt h (List.prefix_refl (above ++ [isLast])) more
  rw [List.length_append, List.length_singleton] at hbelow
  use stack', (List.prefix_append _ _).trans hprefix'
  rw [rows_placedAt, List.cons_append, drawRows_cons hprefix, hbelow, linesBelow_eq]

theorem isDrawn (t : Tree) :
  t.IsDrawn
  := by
  induction t using Tree.induction with
  | requirement place verdict term => exact isDrawn_of_children (by simp [children])
  | negation place operand ih => exact isDrawn_of_children (by simpa [children] using ih)
  | junction place kind parts ih => exact isDrawn_of_children ih

/-- The rows of a tree that is laid out from its root are drawn as the lines of the tree. -/
theorem drawRows_finalize (t : Tree) :
  drawRows [] t.finalize.rows = t.outline
  := by
  have hchildren : ∀ child ∈ t.children, child.IsDrawn := fun child _ => child.isDrawn
  obtain ⟨stack, -, hbelow⟩ := drawRows_siblingsAt hchildren (List.prefix_refl []) []
  rw [List.append_nil, drawRows, List.append_nil] at hbelow
  rw [finalize, rows_placedAt, drawRows, if_pos rfl, outline, linesBelow_eq, label_eq_heading]
  exact congrArg (t.caption :: ·) hbelow

end Tree

/-! ### Levels -/

/-- The lines that draw some rows, if the level above a row at level zero is never asked for. -/
def drawRows? (above : List Bool) : List Row → Option (List String)
  | [] => some []
  | r :: rest =>
    if r.place.level = 0 then
      (drawRows? above rest).map (r.text :: ·)
    else do
      let level ← r.place.level.ppred
      let above := above.take level
      let lines ← drawRows? (above ++ [r.place.isLast]) rest
      return (String.join (above.map marginText) ++ branchText r.place.isLast ++ r.text) :: lines

/-- The pen never asks for the level above a row at level zero. -/
theorem drawRows?_eq (above : List Bool) (rows : List Row) :
  drawRows? above rows = some (drawRows above rows)
  := by
  induction rows generalizing above with
  | nil => rfl
  | cons r rest ih =>
    rw [drawRows?, drawRows]
    split
    case isTrue => rw [ih, Option.map_some]
    case isFalse hlevel =>
      obtain ⟨level, hlevel⟩ := Nat.exists_eq_succ_of_ne_zero hlevel
      simp [hlevel, ih]

/-- The drawing of a tree that is laid out from its root shows its lines one below the other, and
the level above a row at level zero is never asked for. -/
theorem Tree.draw_finalize (t : Tree) :
  t.finalize.draw = "\n".intercalate t.outline
  ∧ drawRows? [] t.finalize.rows = some t.outline
  := by
  constructor
  · rw [draw, drawRows_finalize]
  · rw [drawRows?_eq, drawRows_finalize]

example :
    let leaf (verdict : Bool) (stat : Int64) :=
      Tree.requirement {} (some verdict) (Criterion.term .none ⟨0, stat, 0, 1⟩)
    (Tree.all [leaf true 1, .any [leaf false 2, .not (leaf true 3)], leaf true 4]).outline =
      ["AND [partial 2/3]",
        "├─ Stat 1 = 1 [met 1/1]",
        "├─ OR [unmet 0/1]",
        "│  ├─ Stat 2 = 1 [unmet 0/1]",
        "│  └─ NOT [unmet 0/1]",
        "│     └─ Stat 3 = 1 [met 1/1]",
        "└─ Stat 4 = 1 [met 1/1]"] := by
  decide

end Prerequisite
