import Mathlib.Data.List.Chain
import Prerequisite.Proofs.Drawing
import Prerequisite.Proofs.Tree.Paths

/-!
# Levels

The rows of a tree that is laid out are one for each node, in the order of the paths, and the level
of a row is the length of its path.  The row of a node is followed by the rows of the nodes below
it, which are further from the root.  So the first later row that is not further from the root tells
whether the node is the last of its siblings: it is that of the next sibling, or it is closer to the
root.  For the same reason the levels alone tell where the rows below a node end, and with it which
paths lead to nodes.
-/

namespace Prerequisite

namespace Tree

/-! ### The rows of siblings -/

/-- The rows of some trees that are laid out as siblings. -/
def siblingRows (level : Nat) (parts : List Tree) : List Row :=
  (siblingsAt level parts).flatMap rows

theorem siblingRows_cons (level : Nat) (t : Tree) (rest : List Tree) :
  siblingRows level (t :: rest)
    = ⟨⟨level, rest.isEmpty⟩, t.label, t.tally⟩
      :: (siblingRows (level + 1) t.children ++ siblingRows level rest)
  := by
  rw [siblingRows, siblingsAt, List.flatMap_cons, rows_placedAt, List.cons_append]
  rfl

theorem rows_finalize (t : Tree) :
  t.finalize.rows = ⟨⟨0, true⟩, t.label, t.tally⟩ :: siblingRows 1 t.children
  := rows_placedAt _ t

/-- Each node has its row, and the level of the row is the length of the path. -/
theorem map_siblingRows_eq (level first : Nat) (parts : List Tree) :
  ((siblingRows (level + 1) parts).map fun r => (r.place.level, r.label, r.tally))
    = (nodesFrom first parts).map fun (path, u) => (level + path.length, u.label, u.tally)
  := by
  induction parts using siblings_induction generalizing level first with
  | nil => rfl
  | cons t rest hchildren hrest =>
    rw [siblingRows_cons, List.map_cons, List.map_append, hchildren (level + 1) 0,
      hrest level (first + 1), nodesFrom, nodes_eq_cons]
    simp [Function.comp_def, Nat.add_assoc, Nat.add_comm 1]

theorem le_level_of_mem_siblingRows
    {level : Nat} {parts : List Tree} {r : Row} (h : r ∈ siblingRows level parts) :
  level ≤ r.place.level
  := by
  induction parts using siblings_induction generalizing level with
  | nil => cases h
  | cons t rest hchildren hrest =>
    rw [siblingRows_cons, List.mem_cons, List.mem_append] at h
    obtain rfl | h | h := h
    · apply Nat.le_refl
    · apply Nat.le_of_succ_le (hchildren h)
    · apply hrest h

theorem level_of_mem_head?_siblingRows
    {level : Nat} {parts : List Tree} {r : Row} (h : r ∈ (siblingRows level parts).head?) :
  r.place.level = level
  := by
  rcases parts with _ | ⟨t, rest⟩
  · cases h
  · rw [siblingRows_cons, List.head?_cons] at h
    obtain rfl := Option.some.inj h
    rfl

/-- From one row to the next, the level rises by one at most, and it does not fall to zero. -/
theorem isChain_siblingRows (level : Nat) (parts : List Tree) :
  (siblingRows (level + 1) parts).IsChain fun r next =>
    1 ≤ next.place.level ∧ next.place.level ≤ r.place.level + 1
  := by
  induction parts using siblings_induction generalizing level with
  | nil => apply List.IsChain.nil
  | cons t rest hchildren hrest =>
    rw [siblingRows_cons, ← List.cons_append]
    apply List.IsChain.append ((hchildren (level + 1)).cons ?below) (hrest level) ?beside
    case below =>
      intro next hnext
      rw [level_of_mem_head?_siblingRows hnext]
      use Nat.le_add_left 1 (level + 1)
    case beside =>
      intro r hr next hnext
      have hlevel : level + 1 ≤ r.place.level := by
        obtain rfl | hbelow := List.mem_cons.mp (List.mem_of_mem_getLast? hr)
        · apply Nat.le_refl
        · apply Nat.le_of_succ_le (le_level_of_mem_siblingRows hbelow)
      rw [level_of_mem_head?_siblingRows hnext]
      omega

/-- Some rows begin closer to the root than a level, if there are any. -/
def BeginAbove (level : Nat) (rows : List Row) : Prop :=
  ∀ r ∈ rows.head?, r.place.level < level

theorem beginAbove_nil (level : Nat) :
  BeginAbove level []
  := by
  simp [BeginAbove]

/-- Rows that begin above some siblings begin above the children of a sibling, also when the rows of
further siblings come before them. -/
theorem BeginAbove.siblingRows_append
    {level : Nat} {more : List Row} (h : BeginAbove level more) (parts : List Tree) :
  BeginAbove (level + 1) (siblingRows level parts ++ more)
  := by
  intro r hr
  rcases parts with _ | ⟨t, rest⟩
  · apply Nat.lt_succ_of_lt (h r hr)
  · rw [siblingRows_cons] at hr
    obtain rfl := Option.some.inj hr
    apply Nat.lt_succ_self

end Tree

/-! ### The last of some siblings -/

/-- The first of the later rows that is not further from the root is closer to the root, if there is
such a row. -/
def Row.EndsSiblings (r : Row) (later : List Row) : Prop :=
  ∀ next ∈ later.find? (fun next => next.place.level ≤ r.place.level),
    next.place.level < r.place.level

/-- Each row says of being the last of its siblings what the rows after it say. -/
def ShowsLast (rows : List Row) : Prop :=
  ∀ r later, r :: later <:+ rows → (r.place.isLast = true ↔ r.EndsSiblings later)

theorem Row.endsSiblings_append
    {r : Row} {below : List Row} (h : ∀ next ∈ below, r.place.level < next.place.level)
    (later : List Row) :
  r.EndsSiblings (below ++ later) ↔ r.EndsSiblings later
  := by
  have hbelow : below.find? (fun next => next.place.level ≤ r.place.level) = none := by
    apply List.find?_eq_none.mpr
    intro next hnext
    simpa using h next hnext
  rw [EndsSiblings, List.find?_append, hbelow, Option.none_or, EndsSiblings]

theorem Row.endsSiblings_cons
    {r next : Row} (h : next.place.level ≤ r.place.level) (later : List Row) :
  r.EndsSiblings (next :: later) ↔ next.place.level < r.place.level
  := by
  rw [EndsSiblings, List.find?_cons_of_pos (by simpa using h)]
  simp

theorem showsLast_cons {r : Row} {later : List Row} :
  ShowsLast (r :: later) ↔ (r.place.isLast = true ↔ r.EndsSiblings later) ∧ ShowsLast later
  := by
  constructor
  · intro h
    constructor
    · apply h
      apply List.suffix_rfl
    · intro r' later' hsuffix
      apply h
      apply hsuffix.trans (List.suffix_cons r later)
  · rintro ⟨hfirst, hlater⟩ r' later' hsuffix
    obtain heq | hsuffix := List.suffix_cons_iff.mp hsuffix
    · obtain ⟨rfl, rfl⟩ := List.cons.inj heq
      apply hfirst
    · apply hlater r' later' hsuffix

namespace Tree

/-- No sibling follows if and only if the first later row that is not further from the root is
closer to the root: if siblings follow, then this row is that of the next sibling. -/
theorem isEmpty_iff_endsSiblings
    {level : Nat} {more : List Row} (hmore : BeginAbove level more) (t : Tree)
    (rest : List Tree) :
  rest.isEmpty = true
    ↔ Row.EndsSiblings ⟨⟨level, rest.isEmpty⟩, t.label, t.tally⟩ (siblingRows level rest ++ more)
  := by
  rcases rest with _ | ⟨u, others⟩
  · apply iff_of_true rfl
    rcases more with _ | ⟨next, later⟩
    · simp [Row.EndsSiblings, siblingRows, siblingsAt]
    · have hnext : next.place.level < level := hmore next rfl
      apply (Row.endsSiblings_cons (Nat.le_of_lt hnext) later).mpr hnext
  · apply iff_of_false Bool.false_ne_true
    intro h
    rw [siblingRows_cons, List.cons_append] at h
    apply Nat.lt_irrefl level
    apply (Row.endsSiblings_cons (Nat.le_refl level) _).mp h

/-- The rows of some siblings show which nodes are last, whatever comes after them, if this begins
above the siblings and shows it too. -/
theorem showsLast_siblingRows_append
    {level : Nat} {parts : List Tree} {more : List Row} (hmore : BeginAbove level more)
    (h : ShowsLast more) :
  ShowsLast (siblingRows level parts ++ more)
  := by
  induction parts using siblings_induction generalizing level more with
  | nil => apply h
  | cons t rest hchildren hrest =>
    rw [siblingRows_cons, List.cons_append, List.append_assoc, showsLast_cons]
    constructor
    · -- the rows below a node are further from the root, so the search passes them
      rw [Row.endsSiblings_append fun next hnext => le_level_of_mem_siblingRows hnext]
      apply isEmpty_iff_endsSiblings hmore
    · apply hchildren (hmore.siblingRows_append rest) (hrest hmore h)

theorem showsLast_finalize (t : Tree) :
  ShowsLast t.finalize.rows
  := by
  have hrows : t.finalize.rows = siblingRows 0 [t] ++ [] := by
    rw [siblingRows_cons, rows_finalize]
    simp [siblingRows, siblingsAt]
  rw [hrows]
  apply showsLast_siblingRows_append (beginAbove_nil 0)
  simp [ShowsLast]

/-! ### The shape of a tree -/

/-- The levels of some rows. -/
def levels (rows : List Row) : List Nat := rows.map fun r => r.place.level

theorem levels_siblingRows_ne
    {level : Nat} {more' : List Row} (hmore' : BeginAbove level more') (t : Tree)
    (rest : List Tree) (more : List Row) :
  levels (siblingRows level (t :: rest) ++ more) ≠ levels more'
  := by
  intro h
  rw [siblingRows_cons] at h
  rcases more' with _ | ⟨next, later⟩
  · cases h
  · have hnext : next.place.level < level := hmore' next rfl
    have hlevel : level = next.place.level := (List.cons.inj h).1
    omega

/-- Whatever comes after the rows of some siblings, if it begins above the siblings, the levels tell
which paths lead to nodes of the siblings, and where their rows end. -/
theorem pathsFrom_eq_of_levels_eq
    {level : Nat} {parts parts' : List Tree} {more more' : List Row}
    (hmore : BeginAbove level more) (hmore' : BeginAbove level more')
    (h : levels (siblingRows level parts ++ more) = levels (siblingRows level parts' ++ more'))
    (first : Nat) :
  pathsFrom first parts = pathsFrom first parts' ∧ levels more = levels more'
  := by
  induction parts using siblings_induction generalizing level parts' more more' first with
  | nil =>
    rcases parts' with _ | ⟨t', rest'⟩
    · use rfl, h
    · cases levels_siblingRows_ne hmore t' rest' more' h.symm
  | cons t rest hchildren hrest =>
    rcases parts' with _ | ⟨t', rest'⟩
    · cases levels_siblingRows_ne hmore' t rest more h
    · rw [siblingRows_cons, siblingRows_cons, List.cons_append, List.cons_append,
        List.append_assoc, List.append_assoc] at h
      -- the rows of the other siblings come after those of the children, and begin above them
      obtain ⟨hbelow, hothers⟩ := hchildren (hmore.siblingRows_append rest)
        (hmore'.siblingRows_append rest') (List.cons.inj h).2 0
      obtain ⟨hbeside, hlater⟩ := hrest hmore hmore' hothers (first + 1)
      constructor
      · rw [pathsFrom_cons, pathsFrom_cons, paths_eq_cons, paths_eq_cons, hbelow, hbeside]
      · apply hlater

theorem levels_finalize (t : Tree) :
  levels t.finalize.rows = t.paths.map List.length
  := by
  have hbelow := congrArg (List.map Prod.fst) (map_siblingRows_eq 0 0 t.children)
  rw [rows_finalize, paths_eq_cons, pathsFrom]
  simpa [levels, Function.comp_def] using hbelow

/-- The levels alone tell the shape of a tree. -/
theorem levels_finalize_eq_iff {t u : Tree} :
  levels t.finalize.rows = levels u.finalize.rows ↔ t.SameShape u
  := by
  rw [sameShape_iff]
  constructor
  · intro h
    rw [rows_finalize, rows_finalize, ← List.append_nil (siblingRows 1 t.children),
      ← List.append_nil (siblingRows 1 u.children)] at h
    obtain ⟨hbelow, -⟩ := pathsFrom_eq_of_levels_eq (beginAbove_nil 1) (beginAbove_nil 1)
      (List.cons.inj h).2 0
    rw [paths_eq_cons, paths_eq_cons, hbelow]
  · intro h
    rw [levels_finalize, levels_finalize, h]

/-- The rows of a tree that is laid out are one for each node, in the order of the paths, with the
label and the tally of the node, and with the length of the path as the level.  The first row is
that of a last node at level zero.  From one row to the next, the level rises by one at most, and it
does not fall to zero.  A row is that of a last sibling exactly if the first later row that is not
further from the root, if there is one, is closer to the root.  The levels alone tell the shape of
the tree. -/
theorem rows_finalize_show_layout (t : Tree) :
  let rows := t.finalize.rows
  (∃ visited : List (List Nat × Tree),
      (visited.map Prod.fst).Pairwise (· < ·)
      ∧ (∀ path u, (path, u) ∈ visited ↔ t.node? path = some u)
      ∧ (rows.map fun r => (r.place.level, r.label, r.tally))
        = visited.map fun (path, u) => (path.length, u.label, u.tally))
    ∧ rows.head?.map Row.place = some ⟨0, true⟩
    ∧ rows.IsChain (fun r next => 1 ≤ next.place.level ∧ next.place.level ≤ r.place.level + 1)
    ∧ (∀ i : Fin rows.length,
        rows[i].place.isLast = true ↔ rows[i].EndsSiblings (rows.drop (i + 1)))
    ∧ ∀ u : Tree, levels rows = levels u.finalize.rows ↔ t.SameShape u
  := by
  intro rows
  have hrows : rows = ⟨⟨0, true⟩, t.label, t.tally⟩ :: siblingRows 1 t.children := rows_finalize t
  refine ⟨⟨t.nodes, t.pairwise_paths, mem_nodes_iff, ?nodes⟩, ?first, ?next, ?last, ?shape⟩
  case nodes =>
    have hbelow := map_siblingRows_eq 0 0 t.children
    simpa [hrows, nodes_eq_cons] using hbelow
  case first =>
    rw [hrows]
    rfl
  case next =>
    rw [hrows]
    apply (isChain_siblingRows 0 t.children).cons
    intro next hnext
    rw [level_of_mem_head?_siblingRows hnext]
    use Nat.le_refl 1
  case last =>
    intro i
    apply t.showsLast_finalize
    have hdrop : rows[i] :: rows.drop (i + 1) = rows.drop i :=
      (List.drop_eq_getElem_cons i.isLt).symm
    rw [hdrop]
    apply List.drop_suffix
  case shape =>
    intro u
    apply levels_finalize_eq_iff

example :
    let leaf (stat : Int64) := Tree.requirement {} none (Criterion.term .none ⟨0, stat, 0, 1⟩)
    let t := Tree.all [leaf 1, .any [leaf 2, .not (leaf 3)], leaf 4]
    levels t.finalize.rows = [0, 1, 1, 2, 2, 3, 1] := by
  decide

end Tree

end Prerequisite
