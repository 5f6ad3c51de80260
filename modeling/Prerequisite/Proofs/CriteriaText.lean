import Mathlib.Data.List.TakeWhile
import Prerequisite.Criterion.Text
import Prerequisite.Proofs.Decimal
import Prerequisite.Proofs.Passages

/-!
# Criteria written and read back

A text that was written lists the same criteria, numbered by their positions.  A line of such
a text consists of minus signs, digits and colons.  None of them is blank, so that trimming
leaves the line and its fields alone; none of them is a number sign, so that the line is no
comment; and none of them ends a line, so that the lines are found again where they were
written.

Reading goes from line to line and the identifiers are the positions of the lines that are
kept.  That a text is read is therefore a condition on each of these lines, and criteria that
were read are numbered by their positions already.
-/

namespace Prerequisite

/-- A text without blank characters has none to trim. -/
theorem Text.trim_eq_self {text : List Char} (h : ∀ c ∈ text, ¬ isBlank c) :
  trim text = text
  := by
  have hdropWhile (text : List Char) (h : ∀ c ∈ text, ¬ isBlank c) :
      text.dropWhile isBlank = text := by
    apply List.dropWhile_eq_self_iff.mpr
    intro hnonempty
    apply h _ (List.getElem_mem hnonempty)
  have hreversed : ∀ c ∈ text.reverse, ¬ isBlank c := fun c hmem => h c (List.mem_reverse.mp hmem)
  rw [trim, hdropWhile text h, hdropWhile text.reverse hreversed, List.reverse_reverse]

namespace CriteriaText

/-! ### The characters of a line -/

/-- The line of a criterion, without the line feed. -/
def line (c : Criterion) : List Char :=
  [':'].intercalate [Decimal.digits c.stat, Decimal.digits c.operator, Decimal.digits c.value]

/-- The characters that lines consist of. -/
def isWritten (c : Char) : Bool := c = '-' ∨ c = ':' ∨ c.isDigit

theorem not_isBlank_of_isWritten {c : Char} (h : isWritten c) :
  ¬ Text.isBlank c
  := by
  simp only [isWritten, decide_eq_true_eq] at h
  obtain rfl | rfl | hdigit := h
  · decide
  · decide
  · obtain ⟨hlower, hupper⟩ : 48 ≤ c.toNat ∧ c.toNat ≤ 57 := Char.isDigit_iff_toNat.mp hdigit
    simp only [Text.isBlank, decide_eq_true_eq, List.mem_cons, List.not_mem_nil, or_false]
    omega

theorem trim_eq_self_of_isWritten {text : List Char} (h : ∀ c ∈ text, isWritten c) :
  Text.trim text = text
  := by
  apply Text.trim_eq_self
  intro c hmem
  apply not_isBlank_of_isWritten (h c hmem)

theorem isWritten_of_mem_digits {n : Int64} {c : Char} (h : c ∈ Decimal.digits n) :
  isWritten c
  := by
  obtain rfl | hdigit := Decimal.eq_minus_or_isDigit_of_mem_digits h
  · decide
  · simp [isWritten, hdigit]

theorem isWritten_of_mem_line {criterion : Criterion} {c : Char} (h : c ∈ line criterion) :
  isWritten c
  := by
  simp only [line, List.intercalate_cons_cons, List.intercalate_singleton, List.mem_append,
    List.mem_singleton, or_assoc] at h
  obtain hmem | rfl | hmem | rfl | hmem := h
  · apply isWritten_of_mem_digits hmem
  · decide
  · apply isWritten_of_mem_digits hmem
  · decide
  · apply isWritten_of_mem_digits hmem

theorem colon_notMem_digits (n : Int64) :
  ':' ∉ Decimal.digits n
  := by
  intro hmem
  obtain hequal | hdigit := Decimal.eq_minus_or_isDigit_of_mem_digits hmem <;> contradiction

/-! ### The fields of a line -/

theorem trim_digits (n : Int64) :
  Text.trim (Decimal.digits n) = Decimal.digits n
  := by
  apply trim_eq_self_of_isWritten
  intro c hmem
  apply isWritten_of_mem_digits hmem

/-- The fields of a line are the numerals that were written. -/
theorem fields_line (c : Criterion) :
  ((line c).splitOn ':').map Text.trim
    = [Decimal.digits c.stat, Decimal.digits c.operator, Decimal.digits c.value]
  := by
  have hsplitOn : (line c).splitOn ':'
      = [Decimal.digits c.stat, Decimal.digits c.operator, Decimal.digits c.value] := by
    apply List.splitOn_intercalate
    · simp [colon_notMem_digits]
    · apply List.cons_ne_nil
  simp only [hsplitOn, List.map_cons, List.map_nil, trim_digits]

theorem readField_digits (field : Field) (n : Int64) :
  readField field (Decimal.digits n) = .ok n
  := by
  rw [readField, Decimal.read_digits]
  rfl

/-- The line of a criterion is read as that criterion, with the identifier that is due. -/
theorem readLine_line {id : Nat} (h : id < UInt32.size) (c : Criterion) :
  readLine id (line c) = .ok { c with id := .ofNat id }
  := by
  rw [readLine, if_pos h, fields_line]
  simp only [readField_digits]
  rfl

/-! ### The lines of a text that was written -/

theorem trim_line (c : Criterion) :
  Text.trim (line c) = line c
  := by
  apply trim_eq_self_of_isWritten
  intro character hmem
  apply isWritten_of_mem_line hmem

/-- A line that was written is neither blank nor a comment. -/
theorem isEntry_line (c : Criterion) :
  isEntry (line c)
  := by
  obtain ⟨first, rest, hline⟩ : ∃ first rest, line c = first :: rest := by
    apply List.exists_cons_of_ne_nil
    simp [line]
  have hwritten : isWritten first :=
    isWritten_of_mem_line (by rw [hline]; apply List.mem_cons_self)
  have hsign : first ≠ '#' := by rintro rfl; contradiction
  simp [isEntry, hline, hsign]

/-- Texts that end with a separator each are texts with the separator between them, the last
of which is empty. -/
theorem flatMap_append_singleton (separator : Char) (texts : List (List Char)) :
  texts.flatMap (· ++ [separator]) = [separator].intercalate (texts ++ [[]])
  := by
  induction texts with
  | nil => rfl
  | cons text rest ih =>
    have hne : rest ++ [[]] ≠ [] := by simp
    obtain ⟨next, others, hrest⟩ := List.exists_cons_of_ne_nil hne
    rw [List.flatMap_cons, ih, List.cons_append, hrest, List.intercalate_cons_cons,
      List.append_assoc]

/-- The lines of a text that was written. The last line feed is followed by an empty line. -/
theorem splitOn_write (criteria : List Criterion) :
  (write criteria).toList.splitOn '\n' = criteria.map line ++ [[]]
  := by
  have htoList : (write criteria).toList
      = (criteria.map line).flatMap (· ++ ['\n']) := by
    rw [write, String.toList_join, List.flatMap_map, List.flatMap_map]
    simp [Decimal.numeral, line]
  rw [htoList, flatMap_append_singleton]
  apply List.splitOn_intercalate
  · intro text hmem hlinefeed
    rw [List.mem_append, List.mem_map, List.mem_singleton] at hmem
    obtain ⟨c, -, rfl⟩ | rfl := hmem
    · have hwritten := isWritten_of_mem_line hlinefeed
      contradiction
    · apply List.not_mem_nil hlinefeed
  · simp

/-- The lines of a text that was written hold its criteria, in their order. -/
theorem entries_write (criteria : List Criterion) :
  entries (write criteria).toList = (criteria.map line).zipIdx 1
  := by
  have htrimmed : (criteria.map line).map Text.trim = criteria.map line := by
    simp [trim_line]
  rw [entries, splitOn_write, List.map_append, htrimmed, List.zipIdx_append, List.filter_append,
    List.filter_eq_self.mpr]
  · apply List.append_nil
  · rintro ⟨text, number⟩ hmem
    obtain ⟨c, -, rfl⟩ := List.mem_map.mp (List.fst_mem_of_mem_zipIdx hmem)
    apply isEntry_line

/-! ### Criteria that were read -/

/-- The criteria that a text is read as are those on its lines, and the position of a line
among those that are kept is the identifier that is due. -/
theorem read_eq_ok_iff {text : List Char} {criteria : List Criterion} :
  read text = .ok criteria
    ↔ (entries text).length = criteria.length
      ∧ ∀ i (_ : i < (entries text).length) (_ : i < criteria.length),
        readLine i (entries text)[i].1 = .ok criteria[i]
  := by
  rw [read, mapM_eq_ok_iff, List.forall₂_iff_get]
  simp [mapError_eq_ok_iff]

/-- The identifier of a criterion that was read is the one that was due. -/
theorem id_of_readLine {id : Nat} {text : List Char} {c : Criterion}
    (h : readLine id text = .ok c) :
  id < UInt32.size ∧ c.id = .ofNat id
  := by
  unfold readLine at h
  split at h
  case isFalse => contradiction
  case isTrue hwithin =>
    split at h
    case h_1 stat operator value fields =>
      use hwithin
      cases first : readField .stat stat <;> rw [first] at h
      · contradiction
      cases second : readField .operator operator <;> rw [second] at h
      · contradiction
      cases third : readField .value value <;> rw [third] at h
      · contradiction
      cases h
      rfl
    case h_2 => contradiction

/-- The criteria, numbered by their positions. -/
def numbered (criteria : List Criterion) : List Criterion :=
  criteria.mapIdx fun i c => { c with id := .ofNat i }

/-- Criteria that were read are numbered by their positions. -/
theorem numbered_of_read {text : List Char} {criteria : List Criterion}
    (h : read text = .ok criteria) :
  numbered criteria = criteria
  := by
  obtain ⟨hlength, hlines⟩ := read_eq_ok_iff.mp h
  apply List.ext_getElem
  · apply List.length_mapIdx
  · intro i _ hwithin
    obtain ⟨-, hid⟩ := id_of_readLine (hlines i (hlength ▸ hwithin) hwithin)
    simp only [numbered, List.getElem_mapIdx, ← hid]

/-- There are no more criteria in a text that is read than there are identifiers. -/
theorem length_le_of_read {text : List Char} {criteria : List Criterion}
    (h : read text = .ok criteria) :
  criteria.length ≤ UInt32.size
  := by
  obtain ⟨hlength, hlines⟩ := read_eq_ok_iff.mp h
  by_contra hexcess
  have hwithin : UInt32.size < criteria.length := not_le.mp hexcess
  obtain ⟨hlt, -⟩ := id_of_readLine (hlines _ (hlength ▸ hwithin) hwithin)
  apply lt_irrefl _ hlt

/-- A text that was written is read as the criteria in it, numbered by their positions. -/
theorem read_write_eq_numbered {criteria : List Criterion}
    (h : criteria.length ≤ UInt32.size) :
  read (write criteria).toList = .ok (numbered criteria)
  := by
  apply read_eq_ok_iff.mpr
  constructor
  · simp only [entries_write, numbered, List.length_zipIdx, List.length_map, List.length_mapIdx]
  · intro i _ hwithin
    have hdue : i < UInt32.size := (List.length_mapIdx ▸ hwithin).trans_le h
    simp only [entries_write, numbered, List.getElem_zipIdx, List.getElem_map,
      List.getElem_mapIdx]
    apply readLine_line hdue

/-- Reading undoes writing. As many criteria as there are identifiers are read back from their
text with the same fields, and their positions for identifiers; and criteria that come from a
text are read back as they are. -/
theorem read_write :
  (∀ criteria : List Criterion, criteria.length ≤ 2 ^ 32 →
      read (write criteria).toList
        = .ok (criteria.mapIdx fun i c => { c with id := .ofNat i }))
    ∧ ∀ (text : List Char) (criteria : List Criterion), read text = .ok criteria →
      read (write criteria).toList = .ok criteria
  := by
  constructor
  · intro criteria h
    apply read_write_eq_numbered h
  · intro text criteria h
    rw [read_write_eq_numbered (length_le_of_read h), numbered_of_read h]

/-- The smallest and the largest integer survive, and so do criteria between a comment, an
empty line and blanks. -/
theorem read_write_of_extremes :
  read (write [⟨7, Int64.minValue, Int64.maxValue, -1⟩, ⟨7, 0, 3, 0⟩]).toList
      = .ok [⟨0, Int64.minValue, Int64.maxValue, -1⟩, ⟨1, 0, 3, 0⟩]
    ∧ read (write [⟨0, 16, 2, 400⟩, ⟨1, 0, 3, 0⟩]).toList = .ok [⟨0, 16, 2, 400⟩, ⟨1, 0, 3, 0⟩]
  := by
  constructor
  · apply read_write.1
    decide
  · apply read_write.2 "# a comment\n\n16:2:400\r\n  0 : 3 :+0  ".toList
    rfl

end CriteriaText

end Prerequisite
