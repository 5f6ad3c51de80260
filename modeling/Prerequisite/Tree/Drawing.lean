import Prerequisite.Decimal
import Prerequisite.Tree.Layout

/-!
# The drawing of a tree

A tree is drawn row by row.  While it draws, the pen remembers for the nodes above the
current row whether each was the last of its siblings: below such a node the margin is
empty, and below any other it shows an open branch.
-/

namespace Prerequisite

/-- The label of a row and its tally. -/
def Row.text (r : Row) : String :=
  r.label ++ " [" ++ r.tally.status.name ++ " " ++ Decimal.natural r.tally.met ++ "/" ++
    Decimal.natural r.tally.total ++ "]"

/-- The part of the margin below a node. -/
def marginText (isLast : Bool) : String := if isLast then "   " else "│  "

/-- The branch that leads to a node. -/
def branchText (isLast : Bool) : String := if isLast then "└─ " else "├─ "

/-- The lines that draw some rows, when the nodes above the first of them are last among
their siblings as given, the outermost first. A row at level zero starts at the margin. -/
def drawRows (above : List Bool) : List Row → List String
  | [] => []
  | r :: rest =>
    if r.place.level = 0 then
      r.text :: drawRows above rest
    else
      let above := above.take (r.place.level - 1)
      (String.join (above.map marginText) ++ branchText r.place.isLast ++ r.text) ::
        drawRows (above ++ [r.place.isLast]) rest

/-- The drawing of a tree. -/
def Tree.draw (t : Tree) : String := "\n".intercalate (drawRows [] t.rows)

end Prerequisite
