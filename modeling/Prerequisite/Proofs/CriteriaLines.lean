import Prerequisite.Proofs.CriteriaText

/-!
# Texts that list criteria, and the first line at fault

A text is read line by line, and two counters are kept: the number of the line, which every line
advances, and the identifier that is due, which only the lines with criteria advance.  A line with a
criterion consists of three numerals with colons between them, and blanks may stand around each of
them.  If every line is blank, a comment or of this form, then the criteria are those on the lines.
Otherwise the first line that is not so is reported, by its number and by its first fault.
-/

namespace Prerequisite

/-- Blanks at the end of a text are trimmed away. -/
theorem Text.trim_append_singleton {c : Char} (h : isBlank c) (text : List Char) :
  trim (text ++ [c]) = trim text
  := by
  rw [trim, trim, List.dropWhile_append]
  split
  · next hempty => simp [List.isEmpty_iff.mp hempty, h]
  · simp [h]

namespace CriteriaText

/-! ### Lines -/

/-- The lines of a text. A line ends at a line feed, or at a carriage return and a line feed, or at
the end of the text, where no empty line follows. -/
def lines : List Char → List (List Char)
  | [] => []
  | '\n' :: rest => [] :: lines rest
  | '\r' :: '\n' :: rest => [] :: lines rest
  | c :: rest =>
    match lines rest with
    | [] => [[c]]
    | line :: others => (c :: line) :: others

/-- The fields of a line, between colons. -/
def fields (line : List Char) : List (List Char) :=
  ((Text.trim line).splitOn ':').map Text.trim

/-- The line holds a criterion: it is neither blank nor a comment. -/
def IsEntry (line : List Char) : Prop :=
  Text.trim line ≠ [] ∧ (Text.trim line).head? ≠ some '#'

instance : DecidablePred IsEntry := fun _ => inferInstanceAs (Decidable (_ ∧ _))

/-- The lines of a text that hold criteria. -/
def entryLines (text : List Char) : List (List Char) := (lines text).filter (IsEntry ·)

theorem isEntry_trim_iff {line : List Char} :
  isEntry (Text.trim line) ↔ IsEntry line
  := by
  simp [isEntry, IsEntry]

/-- Splitting at line feeds finds the lines, with the carriage returns at their ends, and maybe an
empty text after the last line feed. -/
theorem exists_splitOn_eq (text : List Char) :
  ∃ found blanks, text.splitOn '\n' = found ++ blanks ∧ (∀ line ∈ blanks, line = [])
    ∧ List.Forall₂ (fun f line => f = line ∨ f = line ++ ['\r']) found (lines text)
  := by
  have hsplitOn (c : Char) (hc : c ≠ '\n') (rest : List Char) :
      (c :: rest).splitOn '\n' = (rest.splitOn '\n').modifyHead (c :: ·) := by
    simp [List.splitOn_cons_eq_if_modifyHead, hc]
  fun_induction lines text with
  | case1 => exact ⟨[], [[]], rfl, by simp, .nil⟩
  | case2 rest ih =>
    obtain ⟨found, blanks, hrest, hblanks, hfound⟩ := ih
    use [] :: found, blanks
    refine ⟨?_, hblanks, .cons (.inl rfl) hfound⟩
    simp [List.splitOn_cons_eq_if_modifyHead, hrest]
  | case3 rest ih =>
    obtain ⟨found, blanks, hrest, hblanks, hfound⟩ := ih
    use ['\r'] :: found, blanks
    refine ⟨?_, hblanks, .cons (.inr rfl) hfound⟩
    simp [List.splitOn_cons_eq_if_modifyHead, hrest]
  | case4 c rest hlinefeed _ hlines ih =>
    -- nothing follows the last character of a text but the empty text after it
    obtain ⟨found, blanks, hrest, hblanks, hfound⟩ := ih
    rw [hlines, List.forall₂_nil_right_iff] at hfound
    rw [hfound, List.nil_append] at hrest
    have hne : blanks ≠ [] := hrest ▸ List.splitOn_ne_nil '\n' rest
    obtain ⟨blank, others, rfl⟩ := List.exists_cons_of_ne_nil hne
    obtain ⟨rfl, hothers⟩ := List.forall_mem_cons.mp hblanks
    use [[c]], others
    refine ⟨?_, hothers, .cons (.inl rfl) .nil⟩
    rw [hsplitOn c hlinefeed, hrest]
    rfl
  | case5 c rest hlinefeed _ line others hlines ih =>
    obtain ⟨found, blanks, hrest, hblanks, hfound⟩ := ih
    rw [hlines, List.forall₂_cons_right_iff] at hfound
    obtain ⟨f, found, hline, hfound, rfl⟩ := hfound
    use (c :: f) :: found, blanks
    refine ⟨?_, hblanks, .cons (by simpa using hline) hfound⟩
    rw [hsplitOn c hlinefeed, hrest]
    rfl

/-- The lines that hold criteria are found with their numbers. -/
theorem entries_eq (text : List Char) :
  entries text
    = (((lines text).zipIdx 1).filter fun entry => IsEntry entry.1).map (Prod.map Text.trim id)
  := by
  obtain ⟨found, blanks, hsplitOn, hblanks, hfound⟩ := exists_splitOn_eq text
  have htrim : found.map Text.trim = (lines text).map Text.trim := by
    have hsame (f line : List Char) (h : f = line ∨ f = line ++ ['\r']) :
        Text.trim f = Text.trim line := by
      obtain rfl | rfl := h
      · rfl
      · apply Text.trim_append_singleton
        decide
    rw [← List.forall₂_eq_eq_eq, List.forall₂_map_left_iff, List.forall₂_map_right_iff]
    apply hfound.imp hsame
  have hskipped : ∀ entry ∈ (blanks.map Text.trim).zipIdx (1 + (lines text).length),
      ¬ isEntry entry.1 := by
    rintro ⟨line, number⟩ hmem
    obtain ⟨blank, hblank, rfl⟩ := List.mem_map.mp (List.fst_mem_of_mem_zipIdx hmem)
    rw [hblanks blank hblank]
    exact Bool.false_ne_true
  rw [entries, hsplitOn, List.map_append, htrim, List.zipIdx_append, List.length_map,
    List.filter_append, List.filter_eq_nil_iff.mpr hskipped, List.append_nil, List.zipIdx_map,
    List.filter_map]
  congr 2
  funext entry
  rw [Function.comp_apply, Bool.eq_iff_iff, decide_eq_true_iff]
  apply isEntry_trim_iff

/-! ### Reading line by line -/

/-- The criteria on some lines, when the number of the first line and the identifier that is due are
given. -/
def readLines (number id : Nat) : List (List Char) → Except Error (List Criterion)
  | [] => .ok []
  | line :: rest =>
    if IsEntry line then do
      let c ← (readLine id (Text.trim line)).mapError (.invalidLine number)
      let others ← readLines (number + 1) (id + 1) rest
      return c :: others
    else
      readLines (number + 1) id rest

/-- The entries may be found first and then be read, each with the identifier that is due. -/
theorem mapM_zipIdx_eq_readLines (found : List (List Char)) (number due : Nat) :
  ((((found.zipIdx number).filter fun entry => IsEntry entry.1).map
      (Prod.map Text.trim id)).zipIdx due).mapM (fun ((line, number), id) =>
        (readLine id line).mapError (.invalidLine number))
    = readLines number due found
  := by
  induction found generalizing number due with
  | nil => rfl
  | cons line rest ih =>
    rw [readLines, List.zipIdx_cons, List.filter_cons]
    by_cases h : IsEntry line
    · simp only [h, decide_true, if_true, List.map_cons, List.zipIdx_cons, List.mapM_cons, ih,
        Prod.map_apply, id_eq]
    · simp only [h, decide_false, if_false, Bool.false_eq_true, ih]

/-- A text is read line by line, from the first line and the first identifier. -/
theorem read_eq_readLines (text : List Char) :
  read text = readLines 1 0 (lines text)
  := by
  rw [read, entries_eq, mapM_zipIdx_eq_readLines]

/-! ### A line that holds a criterion -/

/-- The line lists the criterion: its fields are numerals of the stat, of the operator and of the
value. -/
def Lists (line : List Char) (c : Criterion) : Prop :=
  List.Forall₂ Decimal.Denotes (fields line) [c.stat, c.operator, c.value]

/-- What is wrong with a line: it has not three fields, or the first field that is no numeral is the
one that is named. -/
inductive Offends (line : List Char) : LineFault → Prop where
  | fieldCount : (fields line).length ≠ 3 → Offends line (.fieldCount (fields line).length)
  | badNumber (before : List (List Char)) {after : List (List Char)} {text : List Char}
      {field : Field} {fault : Decimal.Fault} :
      (fields line).length = 3 → fields line = before ++ text :: after →
      (∀ earlier ∈ before, ∃ n, Decimal.Denotes earlier n) → (¬ ∃ n, Decimal.Denotes text n) →
      [Field.stat, .operator, .value][before.length]? = some field →
      Decimal.read text = .error fault → Offends line (.badNumber field (String.ofList text) fault)

theorem readField_eq_ok_iff {field : Field} {text : List Char} {n : Int64} :
  readField field text = .ok n ↔ Decimal.Denotes text n
  := by
  rw [readField, mapError_eq_ok_iff, Decimal.read_eq_ok_iff]

theorem readField_eq_error_iff {field : Field} {text : List Char} {fault : LineFault} :
  readField field text = .error fault
    ↔ ∃ reason, Decimal.read text = .error reason
      ∧ fault = .badNumber field (String.ofList text) reason
  := by
  rw [readField, mapError_eq_error_iff]

/-- A text that is not read as an integer is no numeral of one. -/
theorem not_denotes_of_read {text : List Char} {reason : Decimal.Fault}
    (h : Decimal.read text = .error reason) :
  ¬ ∃ n, Decimal.Denotes text n
  := by
  rintro ⟨n, hn⟩
  rw [Decimal.read_eq_ok_iff.mpr hn] at h
  cases h

section

variable {id : Nat} (hid : id < UInt32.size) {line : List Char}

include hid

theorem readLine_of_length_ne (h : (fields line).length ≠ 3) :
  readLine id (Text.trim line) = .error (.fieldCount (fields line).length)
  := by
  rw [readLine, if_pos hid]
  split
  · next hfields => exact absurd (congrArg List.length hfields) h
  · rfl

theorem readLine_of_fields_eq {stat operator value : List Char}
    (h : fields line = [stat, operator, value]) :
  readLine id (Text.trim line) = do
    let stat ← readField .stat stat
    let operator ← readField .operator operator
    let value ← readField .value value
    return ⟨.ofNat id, stat, operator, value⟩
  := by
  rw [readLine, if_pos hid]
  unfold fields at h
  rw [h]

/-- A line is read as a criterion when its fields are, and the criterion has the identifier that is
due. -/
theorem readLine_eq_ok_iff {c : Criterion} :
  readLine id (Text.trim line) = .ok c ↔ Lists line c ∧ c.id = .ofNat id
  := by
  obtain ⟨number, stat, operator, value⟩ := c
  by_cases hlength : (fields line).length = 3
  · obtain ⟨first, second, third, hfields⟩ := List.length_eq_three.mp hlength
    rw [readLine_of_fields_eq hid hfields, Lists, hfields]
    simp only [bind_eq_ok_iff, readField_eq_ok_iff, List.forall₂_cons, List.Forall₂.nil, and_true,
      pure, Except.pure, Except.ok.injEq, Criterion.mk.injEq]
    constructor
    · rintro ⟨stat, hstat, operator, hoperator, value, hvalue, rfl, rfl, rfl, rfl⟩
      use ⟨hstat, hoperator, hvalue⟩
    · rintro ⟨⟨hstat, hoperator, hvalue⟩, rfl⟩
      use stat, hstat, operator, hoperator, value, hvalue
  · rw [readLine_of_length_ne hid hlength]
    constructor
    · rintro ⟨⟩
    · rintro ⟨hlists, -⟩
      exact absurd (List.Forall₂.length_eq hlists) hlength

/-- The fault that is reported on a line is its first. -/
theorem offends_of_readLine {fault : LineFault}
    (h : readLine id (Text.trim line) = .error fault) :
  Offends line fault
  := by
  by_cases hlength : (fields line).length = 3
  · obtain ⟨first, second, third, hfields⟩ := List.length_eq_three.mp hlength
    rw [readLine_of_fields_eq hid hfields] at h
    simp only [bind_eq_error_iff, readField_eq_ok_iff, readField_eq_error_iff, pure, Except.pure,
      reduceCtorEq, and_false, exists_false, or_false] at h
    obtain ⟨reason, hread, rfl⟩ | ⟨stat, hstat, ⟨reason, hread, rfl⟩ | ⟨operator, hoperator,
      reason, hread, rfl⟩⟩ := h
    · apply Offends.badNumber [] hlength hfields _ (not_denotes_of_read hread) rfl hread
      simp
    · apply Offends.badNumber [first] hlength hfields _ (not_denotes_of_read hread) rfl hread
      simpa using ⟨stat, hstat⟩
    · apply Offends.badNumber [first, second] hlength hfields _ (not_denotes_of_read hread) rfl
        hread
      simpa using ⟨⟨stat, hstat⟩, operator, hoperator⟩
  · rw [readLine_of_length_ne hid hlength] at h
    cases h
    apply Offends.fieldCount hlength

end

/-- A line at fault lists no criterion. -/
theorem not_lists_of_offends {line : List Char} {fault : LineFault} (h : Offends line fault)
    (c : Criterion) :
  ¬ Lists line c
  := by
  intro hlists
  cases h with
  | fieldCount hlength => exact absurd hlists.length_eq hlength
  | badNumber _ _ hfields _ hnot =>
    apply hnot
    apply exists_of_mem_of_forall₂ hlists
    simp [hfields]

/-- A line has one first fault. -/
theorem Offends.unique {line : List Char} {fault fault' : LineFault} (h : Offends line fault)
    (h' : Offends line fault') :
  fault = fault'
  := by
  cases h with
  | fieldCount hlength =>
    cases h' with
    | fieldCount _ => rfl
    | badNumber _ hlength' => exact absurd hlength' hlength
  | badNumber before hlength hfields hbefore hnot hfield hread =>
    cases h' with
    | fieldCount hlength' => exact absurd hlength hlength'
    | badNumber before' _ hfields' hbefore' hnot' hfield' hread' =>
      obtain ⟨rfl, rfl⟩ := eq_of_first hbefore hbefore' hnot hnot' (hfields.symm.trans hfields')
      obtain rfl := Option.some.inj (hfield.symm.trans hfield')
      obtain rfl := Except.error.inj (hread.symm.trans hread')
      rfl

/-! ### All lines -/

/-- The first line at fault is the one at the given position, and this is its first fault. -/
def FirstOffends (found : List (List Char)) (position : Nat) (fault : LineFault) : Prop :=
  ∃ before line after, found = before ++ line :: after ∧ before.length = position
    ∧ (∀ earlier ∈ before, IsEntry earlier → ∃ c, Lists earlier c)
    ∧ IsEntry line ∧ Offends line fault

theorem FirstOffends.cons {line : List Char} (h : IsEntry line → ∃ c, Lists line c)
    {rest : List (List Char)} {position : Nat} {fault : LineFault}
    (hrest : FirstOffends rest position fault) :
  FirstOffends (line :: rest) (position + 1) fault
  := by
  obtain ⟨before, offender, after, rfl, rfl, hbefore, hoffender⟩ := hrest
  use line :: before, offender, after, rfl, List.length_cons, List.forall_mem_cons.mpr ⟨h, hbefore⟩

/-- There is one first line at fault. -/
theorem FirstOffends.unique {found : List (List Char)} {position position' : Nat}
    {fault fault' : LineFault} (h : FirstOffends found position fault)
    (h' : FirstOffends found position' fault') :
  position = position' ∧ fault = fault'
  := by
  obtain ⟨before, line, after, hfound, rfl, hbefore, hentry, hoffends⟩ := h
  obtain ⟨before', line', after', hfound', rfl, hbefore', hentry', hoffends'⟩ := h'
  have hnot {line : List Char} {fault : LineFault} (hentry : IsEntry line)
      (hoffends : Offends line fault) : ¬ (IsEntry line → ∃ c, Lists line c) := by
    intro hlists
    obtain ⟨c, hc⟩ := hlists hentry
    apply not_lists_of_offends hoffends c hc
  obtain ⟨rfl, rfl⟩ := eq_of_first hbefore hbefore' (hnot hentry hoffends)
    (hnot hentry' hoffends') (hfound.symm.trans hfound')
  use rfl, hoffends.unique hoffends'

/-- The criteria that lines are read as are those that they list, and each has the identifier that
is due. -/
theorem readLines_eq_ok_iff {found : List (List Char)} {number id : Nat}
    (hid : id + (found.filter (IsEntry ·)).length ≤ UInt32.size) {criteria : List Criterion} :
  readLines number id found = .ok criteria
    ↔ List.Forall₂ Lists (found.filter (IsEntry ·)) criteria
      ∧ criteria.map (·.id) = (List.range' id criteria.length).map UInt32.ofNat
  := by
  induction found generalizing number id criteria with
  | nil => cases criteria <;> simp [readLines]
  | cons line rest ih =>
    rw [readLines]
    by_cases hentry : IsEntry line
    · simp only [List.filter_cons, hentry, decide_true, if_true, List.length_cons] at hid ⊢
      simp only [bind_eq_ok_iff, mapError_eq_ok_iff, readLine_eq_ok_iff (show id < _ by omega),
        ih (show id + 1 + _ ≤ _ by omega), pure, Except.pure, Except.ok.injEq]
      cases criteria with
      | nil => simp
      | cons c others =>
        simp only [List.cons.injEq, List.forall₂_cons, List.map_cons, List.length_cons,
          List.range'_succ]
        constructor
        · rintro ⟨_, ⟨hlists, hnumber⟩, _, ⟨hothers, hnumbers⟩, rfl, rfl⟩
          use ⟨hlists, hothers⟩, hnumber
        · rintro ⟨⟨hlists, hothers⟩, hnumber, hnumbers⟩
          use c, ⟨hlists, hnumber⟩, others, ⟨hothers, hnumbers⟩
    · simp only [List.filter_cons, hentry, decide_false, Bool.false_eq_true, if_false] at hid ⊢
      apply ih hid

/-- What is reported is the first line at fault, and its first fault. -/
theorem firstOffends_of_readLines {found : List (List Char)} {number id : Nat}
    (hid : id + (found.filter (IsEntry ·)).length ≤ UInt32.size) {e : Error}
    (h : readLines number id found = .error e) :
  ∃ position fault, FirstOffends found position fault ∧ e = .invalidLine (number + position) fault
  := by
  induction found generalizing number id with
  | nil => cases h
  | cons line rest ih =>
    rw [readLines] at h
    by_cases hentry : IsEntry line
    · simp only [List.filter_cons, hentry, decide_true, if_true, List.length_cons] at hid h
      rw [bind_eq_error_iff] at h
      obtain hline | ⟨c, hline, h⟩ := h
      · obtain ⟨fault, hfault, rfl⟩ := mapError_eq_error_iff.mp hline
        have hoffends := offends_of_readLine (by omega) hfault
        use 0, fault
        refine ⟨⟨[], line, rest, rfl, rfl, ?_, hentry, hoffends⟩, rfl⟩
        simp
      · rw [mapError_eq_ok_iff, readLine_eq_ok_iff (by omega)] at hline
        have hothers : readLines (number + 1) (id + 1) rest = .error e := by
          simpa [bind_eq_error_iff, pure, Except.pure] using h
        obtain ⟨position, fault, hrest, rfl⟩ := ih (by omega) hothers
        use position + 1, fault, hrest.cons fun _ => ⟨c, hline.1⟩
        rw [Nat.add_right_comm, Nat.add_assoc]
    · simp only [List.filter_cons, hentry, decide_false, Bool.false_eq_true, if_false] at hid h
      obtain ⟨position, fault, hrest, rfl⟩ := ih hid h
      use position + 1, fault, hrest.cons (absurd · hentry)
      rw [Nat.add_right_comm, Nat.add_assoc]

section

variable {text : List Char} (h : (entryLines text).length ≤ UInt32.size)

include h

/-- The criteria that a text is read as are those that its lines list, numbered from zero. -/
theorem read_eq_ok_iff_lists {criteria : List Criterion} :
  read text = .ok criteria
    ↔ List.Forall₂ Lists (entryLines text) criteria
      ∧ criteria.map (·.id) = (List.range criteria.length).map UInt32.ofNat
  := by
  rw [read_eq_readLines, readLines_eq_ok_iff (by rwa [Nat.zero_add]), List.range_eq_range']
  rfl

theorem firstOffends_of_read {e : Error} (hread : read text = .error e) :
  ∃ position fault, FirstOffends (lines text) position fault
    ∧ e = .invalidLine (position + 1) fault
  := by
  rw [read_eq_readLines] at hread
  obtain ⟨position, fault, hfirst, rfl⟩ := firstOffends_of_readLines (by rwa [Nat.zero_add]) hread
  use position, fault, hfirst
  rw [Nat.add_comm]

/-- A text is read when each of its lines that is neither blank nor a comment lists a criterion. -/
theorem exists_read_iff :
  (∃ criteria, read text = .ok criteria)
    ↔ ∀ line ∈ lines text, IsEntry line → ∃ c, Lists line c
  := by
  constructor
  · rintro ⟨criteria, hread⟩ line hline hentry
    obtain ⟨hlists, -⟩ := (read_eq_ok_iff_lists h).mp hread
    apply exists_of_mem_of_forall₂ hlists
    simp [entryLines, hline, hentry]
  · intro hlines
    cases hread : read text with
    | ok criteria => use criteria
    | error e =>
      obtain ⟨_, fault, ⟨before, line, after, hfound, -, -, hentry, hoffends⟩, -⟩ :=
        firstOffends_of_read h hread
      obtain ⟨c, hlists⟩ := hlines line (by simp [hfound]) hentry
      exact absurd hlists (not_lists_of_offends hoffends c)

/-- A text is refused because of its first line at fault. -/
theorem read_eq_error_iff {e : Error} :
  read text = .error e
    ↔ ∃ position fault, FirstOffends (lines text) position fault
      ∧ e = .invalidLine (position + 1) fault
  := by
  constructor
  · apply firstOffends_of_read h
  · rintro ⟨position, fault, hfirst, rfl⟩
    cases hread : read text with
    | ok criteria =>
      obtain ⟨before, line, after, hfound, -, -, hentry, hoffends⟩ := hfirst
      obtain ⟨c, hlists⟩ := (exists_read_iff h).mp ⟨criteria, hread⟩ line (by simp [hfound]) hentry
      exact absurd hlists (not_lists_of_offends hoffends c)
    | error e =>
      obtain ⟨position', fault', hfirst', rfl⟩ := firstOffends_of_read h hread
      obtain ⟨rfl, rfl⟩ := hfirst.unique hfirst'
      rfl

end

/-- A text has no more lines than characters. -/
theorem length_lines_le (text : List Char) :
  (lines text).length ≤ text.length
  := by
  fun_induction lines text with
  | case1 => apply le_rfl
  | case2 rest ih => simpa using ih
  | case3 rest ih =>
    simp only [List.length_cons]
    omega
  | case4 c rest _ _ hlines => simp
  | case5 c rest _ _ line others hlines ih =>
    rw [hlines] at ih
    simp only [List.length_cons] at ih ⊢
    omega

/-- A text is read exactly when each of its lines is blank, a comment, or three numerals with colons
between them. What is read are then the criteria on these lines, numbered from zero, whatever blank
lines and comments stand between them. Otherwise the first line at fault is reported, by its number
among all lines, with its first fault. There must not be more criteria than there are
identifiers. -/
theorem read_or_first_fault {text : List Char} (h : (entryLines text).length ≤ 2 ^ 32) :
  ((∃ criteria, read text = .ok criteria)
      ↔ ∀ line ∈ lines text, IsEntry line → ∃ c, Lists line c)
    ∧ (∀ criteria, read text = .ok criteria →
      List.Forall₂ Lists (entryLines text) criteria
        ∧ criteria.map (·.id) = (List.range criteria.length).map UInt32.ofNat
        ∧ ∀ text', entryLines text' = entryLines text → read text' = .ok criteria)
    ∧ ((¬ ∃ criteria, read text = .ok criteria) →
      ∃ position fault, FirstOffends (lines text) position fault
        ∧ read text = .error (.invalidLine (position + 1) fault))
  := by
  use exists_read_iff h
  constructor
  · intro criteria hread
    obtain ⟨hlists, hnumbers⟩ := (read_eq_ok_iff_lists h).mp hread
    use hlists, hnumbers
    intro text' hsame
    apply (read_eq_ok_iff_lists (by rwa [hsame])).mpr
    rw [hsame]
    use hlists
  · intro hnone
    cases hread : read text with
    | ok criteria => exact absurd ⟨criteria, hread⟩ hnone
    | error e =>
      obtain ⟨position, fault, hfirst, rfl⟩ := firstOffends_of_read h hread
      use position, fault, hfirst

/-- Comments, blanks and carriage returns change neither the criteria nor their identifiers. Where a
text is at fault, the lines without criteria count; the empty value after the letter and the line
after that are not reported. -/
theorem read_or_first_fault_of_mixed_lines :
  read "# level\n\n 54 : 2:+99\r\n\t\n0:3:-01".toList = .ok [⟨0, 54, 2, 99⟩, ⟨1, 0, 3, -1⟩]
    ∧ read "\r\n 54 : 2:+99\n#1:2:3\n0:3:-01\r\n".toList = .ok [⟨0, 54, 2, 99⟩, ⟨1, 0, 3, -1⟩]
    ∧ ∃ fault, FirstOffends (lines "# level\n\n54:2:99\n#\n\n0:x:\n1:2".toList) 5 fault
  := by
  have hread : read "# level\n\n 54 : 2:+99\r\n\t\n0:3:-01".toList
      = .ok [⟨0, 54, 2, 99⟩, ⟨1, 0, 3, -1⟩] := rfl
  have hfault : read "# level\n\n54:2:99\n#\n\n0:x:\n1:2".toList
      = .error (.invalidLine 6 (.badNumber .operator "x" .invalidDigit)) := rfl
  have hnone : ¬ ∃ criteria, read "# level\n\n54:2:99\n#\n\n0:x:\n1:2".toList = .ok criteria := by
    rw [hfault]
    rintro ⟨_, ⟨⟩⟩
  use hread
  constructor
  · apply ((read_or_first_fault (by decide)).2.1 _ hread).2.2
    decide +kernel
  · obtain ⟨position, fault, hfirst, herror⟩ := (read_or_first_fault (by decide)).2.2 hnone
    cases hfault.symm.trans herror
    use .badNumber .operator "x" .invalidDigit

end CriteriaText

end Prerequisite
