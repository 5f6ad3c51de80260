import Prerequisite.Proofs.Stages

/-!
# Loading

Each input is loaded from its file.  The stages at the file decide whether it is, and what is loaded
is then the only thing that the file gives.
-/

namespace Prerequisite.CommandLine

variable {files : Files} {path canonical : String} {e : Error}

/-! ### Files -/

theorem hasSize_iff_of_file {content : ByteArray} (h : files path = .ok ⟨canonical, .file content⟩)
    {size : ℕ} :
  HasSize files path size ↔ size = content.size
  := by
  simp [hasSize_iff, HasBytes, h]

theorem hasSize_iff_of_unreadable {size : ℕ} {reason : SystemFault}
    (h : files path = .ok ⟨canonical, .unreadable size reason⟩) {size' : ℕ} :
  HasSize files path size' ↔ size' = size
  := by
  simp [hasSize_iff, HasBytes, h, eq_comm]

theorem openFile_congr {files' : Files} (h : files path = files' path) :
  files.openFile path = files'.openFile path
  := by
  rw [Files.openFile, Files.openFile, h]

/-- A file that is opened can be read or not. -/
theorem openFile_eq_ok_iff {file : OpenFile} :
  files.openFile path = .ok file
    ↔ (∃ canonical content, files path = .ok ⟨canonical, .file content⟩
        ∧ content.size ≤ fileSizeLimit ∧ file = ⟨canonical, .ok content.data.toList⟩)
      ∨ ∃ canonical size reason, files path = .ok ⟨canonical, .unreadable size reason⟩
        ∧ size ≤ fileSizeLimit ∧ file = ⟨canonical, .error reason⟩
  := by
  rw [Files.openFile, bind_eq_ok_iff]
  simp only [mapError_eq_ok_iff]
  constructor
  · rintro ⟨⟨canonical, content | ⟨size, reason⟩ | _⟩, htarget, hfile⟩
    · simp only at hfile
      split at hfile
      case isTrue hsize =>
        left
        exact ⟨canonical, content, htarget, hsize, (Except.ok.inj hfile).symm⟩
      case isFalse => cases hfile
    · simp only at hfile
      split at hfile
      case isTrue hsize =>
        right
        exact ⟨canonical, size, reason, htarget, hsize, (Except.ok.inj hfile).symm⟩
      case isFalse => cases hfile
    · cases hfile
  · rintro (⟨canonical, content, htarget, hsize, rfl⟩ | ⟨canonical, size, reason, htarget, hsize,
      rfl⟩)
    · exact ⟨_, htarget, if_pos hsize⟩
    · exact ⟨_, htarget, if_pos hsize⟩

section Opened

variable {file : OpenFile} (h : files.openFile path = .ok file)

include h

/-- The bytes that the path leads to are those that are read from the file. -/
theorem hasBytes_iff_of_openFile {bytes : List UInt8} :
  HasBytes files path bytes ↔ file.content = .ok bytes
  := by
  rcases openFile_eq_ok_iff.mp h with
    ⟨canonical, content, hentry, -, rfl⟩ | ⟨canonical, size, reason, hentry, -, rfl⟩ <;>
    simp [HasBytes, hentry, eq_comm]

theorem hasText_iff_of_openFile {text : List Char} :
  HasText files path text ↔ ∃ bytes, file.content = .ok bytes ∧ Utf8.decode bytes = .ok text
  := by
  simp [HasText, hasBytes_iff_of_openFile h, Utf8.decode_eq_ok_iff]

/-- The file cannot be read when the path leads to what cannot be read. -/
theorem exists_unreadable_iff {p : SystemFault → Prop} :
  (∃ canonical size reason,
      files path = .ok ⟨canonical, .unreadable size reason⟩ ∧ p reason)
    ↔ ∃ reason, file.content = .error reason ∧ p reason
  := by
  rcases openFile_eq_ok_iff.mp h with
    ⟨canonical, content, hentry, -, rfl⟩ | ⟨canonical, size, reason, hentry, -, rfl⟩ <;>
    simp [hentry]

theorem length_le_of_openFile {bytes : List UInt8} (hbytes : file.content = .ok bytes) :
  bytes.length ≤ fileSizeLimit
  := by
  rcases openFile_eq_ok_iff.mp h with ⟨canonical, content, -, hsize, rfl⟩ | ⟨_, _, _, -, -, rfl⟩
  · obtain rfl := Except.ok.inj hbytes
    exact hsize
  · cases hbytes

end Opened

/-- The text that is read is the only one that the file holds. -/
theorem hasText_iff_of_readText {text : List Char} (h : files.readText path = .ok text)
    (text' : List Char) :
  HasText files path text' ↔ text' = text
  := by
  obtain ⟨file, hfile, hread⟩ := bind_eq_ok_iff.mp h
  obtain ⟨bytes, hbytes, htext⟩ := bind_eq_ok_iff.mp hread
  rw [mapError_eq_ok_iff] at hbytes htext
  simp [hasText_iff_of_openFile hfile, hbytes, htext, eq_comm]

/-- A text in a file that is not too large has fewer lines than there are identifiers. -/
theorem length_entryLines_le {bytes : List UInt8} (h : bytes.length ≤ fileSizeLimit)
    {text : List Char} (htext : Utf8.decode bytes = .ok text) :
  (CriteriaText.entryLines text).length ≤ UInt32.size
  := by
  have hentries : (CriteriaText.entryLines text).length ≤ (CriteriaText.lines text).length :=
    List.length_filter_le _ _
  have hlines := CriteriaText.length_lines_le text
  have hbytes := Utf8.length_le_length_encode text
  rw [← Utf8.decode_eq_ok_iff.mp htext] at hbytes
  rw [fileSizeLimit] at h
  rw [UInt32.size]
  omega

theorem accepted_eq_error_iff {criteria : List Criterion} :
  accepted criteria = .error e ↔ 512 < criteria.length ∧ e = .tooManyCriteria criteria.length
  := by
  rw [accepted, criteriaLimit]
  split
  case isTrue h => simp [Nat.not_lt.mpr h]
  case isFalse h => simp [Nat.lt_of_not_le h, eq_comm]

variable [Decoders]

/-- If the path leads to a file of some size, then the size decides. -/
theorem decides_size {size : ℕ} (hsize : ∀ size', HasSize files path size' ↔ size' = size)
    (hreach : ∀ reason, files path ≠ .error reason)
    (hfile : ∀ canonical, files path ≠ .ok ⟨canonical, .other⟩) (file : OpenFile) :
  Decides files (fileStages path)
    (if size ≤ fileSizeLimit then .ok file else .error (.fileTooLarge size))
  := by
  intro e
  rw [fileStages, firstFinds_cons_iff, firstFinds_cons_iff, firstFinds_cons_iff]
  by_cases h : size ≤ fileSizeLimit
  · have hsmall : ¬ 1024 * 1024 < size := Nat.not_lt.mpr h
    simp [Stage.finds_iff, hsize, hreach, hfile, not_firstFinds_nil, h, hsmall]
  · have hlarge : 1024 * 1024 < size := Nat.lt_of_not_le h
    simp [Stage.Passes, Stage.finds_iff, hsize, hreach, hfile, not_firstFinds_nil, h, hlarge,
      eq_comm]

/-- What the path leads to decides whether the file is opened. -/
theorem decides_openFile (path : String) :
  Decides files (fileStages path) (files.openFile path)
  := by
  rw [Files.openFile]
  rcases hentry : files path with reason | ⟨canonical, content | ⟨size, reason⟩ | _⟩
  · intro e
    simp [fileStages, firstFinds_cons_iff, Stage.Passes, Stage.finds_iff, hasSize_iff, HasBytes,
      hentry, not_firstFinds_nil, Except.mapError, bind, Except.bind, eq_comm]
  · apply decides_size (fun _ => hasSize_iff_of_file hentry) <;> simp [hentry]
  · apply decides_size (fun _ => hasSize_iff_of_unreadable hentry) <;> simp [hentry]
  · intro e
    simp [fileStages, firstFinds_cons_iff, Stage.Passes, Stage.finds_iff, hasSize_iff, HasBytes,
      hentry, not_firstFinds_nil, Except.mapError, bind, Except.bind, eq_comm]

/-! ### Names -/

/-- The content decides whether there is a text of the names. -/
theorem decides_readText (path : String) :
  Decides files (fileStages path ++ [.namesEncoding path]) (files.readText path)
  := by
  apply (decides_openFile path).bind
  intro file hfile
  apply decides_singleton
  intro e
  rcases openFile_eq_ok_iff.mp hfile with
    ⟨canonical, content, hentry, -, rfl⟩ | ⟨canonical, size, reason, hentry, -, rfl⟩
  · change (Utf8.decode content.data.toList).mapError (fun _ => .namesEncoding canonical) = .error e
      ↔ _
    rw [mapError_eq_error_iff, exists_and_right, Utf8.exists_decode_eq_error_iff]
    simp [Stage.finds_iff, hentry]
  · simp [Stage.finds_iff, hentry, Except.mapError, bind, Except.bind, eq_comm]

theorem decides_loadNames (path : String) :
  Decides files (namesStages path) (loadNames files path)
  := by
  have hstages : namesStages path
      = (fileStages path ++ [.namesEncoding path]) ++ [.namesShape path, .namesKeys path] := rfl
  rw [hstages]
  apply (decides_readText path).bind
  intro text htext
  apply Decides.cons
  · intro e
    simp [readConfig, mapError_eq_error_iff, Stage.finds_iff, hasText_iff_of_readText htext]
  intro config hconfig
  rw [readConfig, mapError_eq_ok_iff] at hconfig
  apply decides_singleton
  intro e
  simp [NamesConfig.nameTable_eq_error_iff, Stage.finds_iff, hasText_iff_of_readText htext,
    hconfig]

/-- The names that are loaded are the only ones that the file gives. -/
theorem givesNames_iff {table : NameTable} (h : loadNames files path = .ok table) {names : Names} :
  GivesNames files path names ↔ names = table.names
  := by
  obtain ⟨text, htext, hnames⟩ := bind_eq_ok_iff.mp h
  obtain ⟨config, hconfig, htable⟩ := bind_eq_ok_iff.mp hnames
  rw [readConfig, mapError_eq_ok_iff] at hconfig
  simp [GivesNames, hasText_iff_of_readText htext, hconfig, NamesConfig.hasNames_iff htable]

/-! ### Criteria -/

/-- What the content of a file is decoded to. -/
def decodeContent (source : CriteriaFile) (file : OpenFile) : Except Error (List Criterion) := do
  let bytes ← file.content.mapError fun reason => .unreachable source.path ⟨.read, reason⟩
  decodeCriteria source.format bytes

theorem loadCriteria_eq (source : CriteriaFile) :
  loadCriteria files source
    = files.openFile source.path >>= fun file => decodeContent source file >>= accepted
  := by
  simp [loadCriteria, Files.read, readCriteria, decodeContent]

section Content

variable {source : CriteriaFile} {file : OpenFile} (hfile : files.openFile source.path = .ok file)

include hfile

theorem decodeContent_eq_error_iff :
  decodeContent source file = .error e ↔ Stage.Finds files (.criteria source) e
  := by
  rw [decodeContent, Stage.finds_iff]
  cases hcontent : file.content with
  | error reason =>
    simp [hcontent, hasBytes_iff_of_openFile hfile, hasText_iff_of_openFile hfile,
      exists_unreadable_iff hfile, Except.mapError, bind, Except.bind, eq_comm]
  | ok bytes =>
    change decodeCriteria source.format bytes = .error e ↔ _
    cases hformat : source.format with
    | json =>
      simp [decodeCriteria, hformat, hcontent, hasBytes_iff_of_openFile hfile,
        exists_unreadable_iff hfile, mapError_eq_error_iff]
    | text =>
      cases hdecode : Utf8.decode bytes with
      | error fault =>
        simp [decodeCriteria, hformat, hcontent, hdecode, hasBytes_iff_of_openFile hfile,
          hasText_iff_of_openFile hfile, exists_unreadable_iff hfile, Except.mapError, bind,
          Except.bind, eq_comm]
      | ok text =>
        have hsize := length_le_of_openFile hfile hcontent
        have hread : CriteriaText.read text = .error e ↔ _ :=
          CriteriaText.read_eq_error_iff (length_entryLines_le hsize hdecode)
        simp [decodeCriteria, hformat, hcontent, hdecode, hasBytes_iff_of_openFile hfile,
          hasText_iff_of_openFile hfile, exists_unreadable_iff hfile, Except.mapError, bind,
          Except.bind, hread]

theorem decodeContent_eq_ok_iff {criteria : List Criterion} :
  decodeContent source file = .ok criteria ↔ GivesCriteria files source criteria
  := by
  rw [decodeContent, givesCriteria_iff]
  cases hcontent : file.content with
  | error reason =>
    simp [hcontent, hasBytes_iff_of_openFile hfile, hasText_iff_of_openFile hfile,
      Except.mapError, bind, Except.bind]
  | ok bytes =>
    change decodeCriteria source.format bytes = .ok criteria ↔ _
    cases hformat : source.format with
    | json =>
      simp [decodeCriteria, hcontent, hasBytes_iff_of_openFile hfile, mapError_eq_ok_iff]
    | text =>
      cases hdecode : Utf8.decode bytes with
      | error fault =>
        simp [decodeCriteria, hcontent, hdecode, hasText_iff_of_openFile hfile, Except.mapError,
          bind, Except.bind]
      | ok text =>
        have hsize := length_le_of_openFile hfile hcontent
        have hread : CriteriaText.read text = .ok criteria ↔ _ :=
          CriteriaText.read_eq_ok_iff_lists (length_entryLines_le hsize hdecode)
        simp [decodeCriteria, hcontent, hdecode, hasText_iff_of_openFile hfile, Except.mapError,
          bind, Except.bind, hread]

end Content

theorem decides_loadCriteria (source : CriteriaFile) :
  Decides files (criteriaStages source) (loadCriteria files source)
  := by
  rw [loadCriteria_eq]
  apply (decides_openFile source.path).bind
  intro file hfile
  apply Decides.cons (fun _ => decodeContent_eq_error_iff hfile)
  intro criteria hcriteria
  have hgives {criteria'} : GivesCriteria files source criteria' ↔ criteria' = criteria := by
    rw [← decodeContent_eq_ok_iff hfile, hcriteria, Except.ok.injEq, eq_comm]
  apply decides_singleton
  intro e
  simp [accepted_eq_error_iff, Stage.finds_iff, hgives]

/-- The criteria that are loaded are the only ones that the file gives. -/
theorem givesCriteria_iff_of_loadCriteria {source : CriteriaFile} {criteria : List Criterion}
    (h : loadCriteria files source = .ok criteria) (criteria' : List Criterion) :
  GivesCriteria files source criteria' ↔ criteria' = criteria
  := by
  rw [loadCriteria_eq] at h
  obtain ⟨file, hfile, hcriteria⟩ := bind_eq_ok_iff.mp h
  obtain ⟨decoded, hdecoded, haccepted⟩ := bind_eq_ok_iff.mp hcriteria
  obtain rfl : decoded = criteria := by
    rw [accepted] at haccepted
    split at haccepted
    · exact Except.ok.inj haccepted
    · cases haccepted
  rw [← decodeContent_eq_ok_iff hfile, hdecoded, Except.ok.injEq, eq_comm]

/-! ### Snapshots -/

theorem decides_loadSnapshot (path : String) :
  Decides files (snapshotStages path) (loadSnapshot files path)
  := by
  have heq : loadSnapshot files path = files.openFile path >>= fun file =>
      (file.content.mapError fun reason => .unreachable path ⟨.read, reason⟩) >>= readSnapshot := by
    simp [loadSnapshot, Files.read]
  rw [heq]
  apply (decides_openFile path).bind
  intro file hfile
  apply decides_singleton
  intro e
  rw [bind_eq_error_iff, mapError_eq_error_iff]
  simp [readSnapshot, mapError_eq_ok_iff, mapError_eq_error_iff, Stage.finds_iff,
    hasBytes_iff_of_openFile hfile, exists_unreadable_iff hfile]

/-- The snapshot that is loaded is the only one that the file gives. -/
theorem givesSnapshot_iff {s s' : Snapshot} (h : loadSnapshot files path = .ok s) :
  GivesSnapshot files path s' ↔ s' = s
  := by
  obtain ⟨bytes, hread, hsnapshot⟩ := bind_eq_ok_iff.mp h
  obtain ⟨file, hfile, hbytes⟩ := bind_eq_ok_iff.mp hread
  rw [mapError_eq_ok_iff] at hbytes
  rw [readSnapshot, mapError_eq_ok_iff] at hsnapshot
  simp [GivesSnapshot, hasBytes_iff_of_openFile hfile, hbytes, hsnapshot, eq_comm]

end Prerequisite.CommandLine
