import Prerequisite.Proofs.Loading
import Prerequisite.Proofs.Renderings

/-!
# What a request writes

A request fails with the fault of the first stage that finds one, and then it writes nothing.  If no
stage finds a fault, it writes what its command shows of the result, and the end of a line.
-/

namespace Prerequisite.CommandLine

/-- The path of the names is the one that the request asks for or that the environment gives. -/
theorem namesPath?_eq (r : Request) (environment : Option String) :
  r.namesPath? environment = r.namesFile? environment
  := by
  unfold Request.namesPath? Request.namesFile?
  cases r.names with
  | some path => rfl
  | none =>
    cases environment with
    | none => rfl
    | some path => simp [Option.filter_some]

variable [Decoders] (files : Files)

/-! ### What is shown -/

/-- The names of a request. There are none if there is no path of the names. -/
def Request.HasNames (r : Request) (environment : Option String) (names : Names) : Prop :=
  (r.namesFile? environment).elim (names = fun _ => none) fun path => GivesNames files path names

/-- What a command shows of the criteria and the snapshot that the files give: the terms, the tree,
the outcome or the formula. -/
inductive Command.Shows (names : Names) (jsonMode : Bool) : Command → String → Prop where
  | describe {source : CriteriaFile} {criteria : List Criterion} :
      GivesCriteria files source criteria →
      Shows names jsonMode (.describe source) (shownTerms jsonMode (terms names criteria))
  | tree {source : CriteriaFile} {criteria : List Criterion} :
      GivesCriteria files source criteria →
      Shows names jsonMode (.tree source none)
        (shownTree jsonMode (Tree.build? names none criteria))
  | decidedTree {source : CriteriaFile} {path : String} {criteria : List Criterion}
      {s : Snapshot} :
      GivesCriteria files source criteria → GivesSnapshot files path s →
      Shows names jsonMode (.tree source (some path))
        (shownTree jsonMode (Tree.build? names (some s) criteria))
  | check {source : CriteriaFile} {path : String} {criteria : List Criterion} {s : Snapshot} :
      GivesCriteria files source criteria → GivesSnapshot files path s →
      Shows names jsonMode (.check source path)
        (shownOutcome jsonMode (Prerequisite.check names criteria s))
  | format {source : CriteriaFile} {listOrder : Bool} {criteria : List Criterion} :
      GivesCriteria files source criteria →
      Shows names jsonMode (.format source listOrder)
        (shownFormula jsonMode listOrder
          (if listOrder then Formula.ofTerms (terms names criteria)
            else (Tree.build? names none criteria).elim "" Tree.formula))

variable {files}

/-! ### Requests -/

section Request

variable {r : Request} {environment : Option String} {names : Names} {jsonMode : Bool}

theorem decides_loadTable (r : Request) (environment : Option String) :
  Decides files ((r.namesFile? environment).elim [] namesStages) (r.loadTable files environment)
  := by
  rw [Request.loadTable, namesPath?_eq]
  cases r.namesFile? environment with
  | none => apply decides_nil
  | some path => apply decides_loadNames

theorem hasNames_iff {table : NameTable} (h : r.loadTable files environment = .ok table) :
  r.HasNames files environment names ↔ names = table.names
  := by
  rw [Request.loadTable, namesPath?_eq] at h
  rw [Request.HasNames]
  cases hpath : r.namesFile? environment with
  | none =>
    rw [hpath] at h
    obtain rfl := Except.ok.inj h
    rw [funext NameTable.names_empty]
    rfl
  | some path =>
    rw [hpath] at h
    exact givesNames_iff h

theorem decides_output (names : Names) (jsonMode : Bool) (command : Command) :
  Decides files command.stages (command.output files names jsonMode)
  := by
  cases command with
  | describe source => exact (decides_loadCriteria source).map _
  | tree source path? =>
    cases path? with
    | none => exact (decides_loadCriteria source).map _
    | some path =>
      apply (decides_loadCriteria source).bind
      intro criteria _
      rw [Option.mapM_some, bind_map_left]
      exact (decides_loadSnapshot path).map _
  | check source path =>
    apply (decides_loadCriteria source).bind
    intro criteria _
    exact (decides_loadSnapshot path).map _
  | format source listOrder => exact (decides_loadCriteria source).map _

/-- What is written is the only thing that the command shows of what the files give. -/
theorem shows_iff {command : Command} {text text' : String}
    (h : command.output files names jsonMode = .ok text) :
  command.Shows files names jsonMode text' ↔ text' = text
  := by
  cases command with
  | describe source =>
    obtain ⟨criteria, hcriteria, htext⟩ := bind_eq_ok_iff.mp h
    have hgives := givesCriteria_iff_of_loadCriteria hcriteria
    rw [← Except.ok.inj htext, describeText_eq_shownTerms]
    constructor
    · rintro ⟨hcriteria'⟩
      rw [(hgives _).mp hcriteria']
    · rintro rfl
      apply Command.Shows.describe ((hgives _).mpr rfl)
  | tree source path? =>
    obtain ⟨criteria, hcriteria, htext⟩ := bind_eq_ok_iff.mp h
    have hgives := givesCriteria_iff_of_loadCriteria hcriteria
    cases path? with
    | none =>
      rw [← Except.ok.inj htext, treeText_eq_shownTree]
      constructor
      · rintro (_ | hcriteria')
        rw [(hgives _).mp hcriteria']
      · rintro rfl
        apply Command.Shows.tree ((hgives _).mpr rfl)
    | some path =>
      rw [Option.mapM_some, bind_map_left] at htext
      obtain ⟨s, hs, htext⟩ := bind_eq_ok_iff.mp htext
      rw [← Except.ok.inj htext, treeText_eq_shownTree]
      constructor
      · rintro (_ | _ | ⟨hcriteria', hs'⟩)
        rw [(hgives _).mp hcriteria', (givesSnapshot_iff hs).mp hs']
      · rintro rfl
        apply Command.Shows.decidedTree ((hgives _).mpr rfl) ((givesSnapshot_iff hs).mpr rfl)
  | check source path =>
    obtain ⟨criteria, hcriteria, htext⟩ := bind_eq_ok_iff.mp h
    obtain ⟨s, hs, htext⟩ := bind_eq_ok_iff.mp htext
    have hgives := givesCriteria_iff_of_loadCriteria hcriteria
    rw [← Except.ok.inj htext, checkText_eq_shownOutcome]
    constructor
    · rintro (_ | _ | _ | ⟨hcriteria', hs'⟩)
      rw [(hgives _).mp hcriteria', (givesSnapshot_iff hs).mp hs']
    · rintro rfl
      apply Command.Shows.check ((hgives _).mpr rfl) ((givesSnapshot_iff hs).mpr rfl)
  | format source listOrder =>
    obtain ⟨criteria, hcriteria, htext⟩ := bind_eq_ok_iff.mp h
    have hgives := givesCriteria_iff_of_loadCriteria hcriteria
    rw [← Except.ok.inj htext, formatText_eq_shownFormula]
    constructor
    · rintro (_ | _ | _ | _ | hcriteria')
      rw [(hgives _).mp hcriteria']
    · rintro rfl
      apply Command.Shows.format ((hgives _).mpr rfl)

theorem decides_execute (r : Request) (environment : Option String) :
  Decides files (r.stages environment) (r.execute files environment)
  := by
  apply (decides_loadTable r environment).bind
  intro table _
  exact (decides_output table.names r.jsonMode r.command).map _

/-- A request whose stages all pass writes what its command shows of the names and the inputs that
the files give, of which there is one, and the end of a line. -/
theorem respond_of_forall_passes (h : ∀ stage ∈ r.stages environment, stage.Passes files) :
  ∃ names text, (∀ names', r.HasNames files environment names' ↔ names' = names)
    ∧ (∀ text', r.command.Shows files names r.jsonMode text' ↔ text' = text)
    ∧ r.respond files environment = ⟨text ++ "\n", "", 0⟩
  := by
  rw [(decides_execute r environment).forall_passes_iff] at h
  obtain ⟨written, hexecute⟩ := h
  obtain ⟨table, htable, houtput⟩ := bind_eq_ok_iff.mp hexecute
  obtain ⟨text, htext, hwritten⟩ := bind_eq_ok_iff.mp houtput
  obtain rfl := Except.ok.inj hwritten
  use table.names, text, fun names' => hasNames_iff htable, fun text' => shows_iff htext
  rw [Request.respond, hexecute, Response.ofResult]

/-- Whatever the files hold and whatever the decoders make of it: either a stage of the request
finds the first fault, and then the request fails with it and writes nothing, or all stages pass,
and then the request writes what its command shows and the end of a line. -/
theorem respond_first_fault_or_text (files : Files) (environment : Option String) (r : Request) :
  (∀ e, r.execute files environment = .error e ↔ FirstFinds files (r.stages environment) e)
    ∧ ((∃ e, FirstFinds files (r.stages environment) e
          ∧ r.respond files environment = ⟨"", e.message ++ "\n", 1⟩)
      ∨ (∀ stage ∈ r.stages environment, stage.Passes files)
          ∧ ∃ names text, (∀ names', r.HasNames files environment names' ↔ names' = names)
            ∧ (∀ text', r.command.Shows files names r.jsonMode text' ↔ text' = text)
            ∧ r.respond files environment = ⟨text ++ "\n", "", 0⟩)
  := by
  have hdecides : Decides files (r.stages environment) (r.execute files environment) :=
    decides_execute r environment
  refine ⟨hdecides, ?_⟩
  cases hexecute : r.execute files environment with
  | error e =>
    left
    use e, (hdecides e).mp hexecute
    rw [Request.respond, hexecute, Response.ofResult]
  | ok written =>
    right
    have hpasses := hdecides.forall_passes_iff.mpr ⟨written, hexecute⟩
    exact ⟨hpasses, respond_of_forall_passes hpasses⟩

/-- Malformed criteria hide a malformed snapshot, and an empty path of the names is no path. -/
example :
  let folder : Folder := [(["criteria"], .file "1:2".toUTF8), (["stats"], .file "[".toUTF8)]
  let r : Request :=
    { verbose := false, quiet := false, jsonMode := false, names := none,
      command := .check ⟨"criteria", .text⟩ "stats" }
  r.execute folder.files (some "") = .error (.invalidLine 1 (.fieldCount 2))
  := by rfl

end Request

/-! ### Files that are not used -/

section Congruence

variable {files' : Files} {path : String} {r : Request} {environment : Option String}

theorem loadNames_congr (h : files path = files' path) :
  loadNames files path = loadNames files' path
  := by
  rw [loadNames, loadNames, Files.readText, Files.readText, openFile_congr h]

theorem loadCriteria_congr {source : CriteriaFile} (h : files source.path = files' source.path) :
  loadCriteria files source = loadCriteria files' source
  := by
  rw [loadCriteria, loadCriteria, Files.read, Files.read, openFile_congr h]

theorem loadSnapshot_congr (h : files path = files' path) :
  loadSnapshot files path = loadSnapshot files' path
  := by
  rw [loadSnapshot, loadSnapshot, Files.read, Files.read, openFile_congr h]

/-- A request looks at no files but those that it uses. -/
theorem execute_congr (h : ∀ path ∈ r.paths environment, files path = files' path) :
  r.execute files environment = r.execute files' environment
  := by
  rw [Request.paths, List.forall_mem_append] at h
  obtain ⟨hnames, hinputs⟩ := h
  have htable : r.loadTable files environment = r.loadTable files' environment := by
    rw [Request.loadTable, Request.loadTable]
    cases hpath : r.namesPath? environment with
    | none => rfl
    | some path =>
      apply loadNames_congr
      apply hnames
      simp [hpath]
  have houtput : ∀ names,
      r.command.output files names r.jsonMode = r.command.output files' names r.jsonMode := by
    intro names
    cases hcommand : r.command with
    | describe source =>
      rw [hcommand, List.forall_mem_singleton] at hinputs
      simp only [Command.output, loadCriteria_congr hinputs]
    | tree source path? =>
      rw [hcommand, List.forall_mem_cons] at hinputs
      simp only [Command.output, loadCriteria_congr hinputs.1]
      cases path? with
      | none => rfl
      | some path =>
        have hsnapshot := hinputs.2 path (by simp)
        simp only [Option.mapM_some, loadSnapshot_congr hsnapshot]
    | check source path =>
      rw [hcommand, List.forall_mem_cons, List.forall_mem_singleton] at hinputs
      simp only [Command.output, loadCriteria_congr hinputs.1, loadSnapshot_congr hinputs.2]
    | format source listOrder =>
      rw [hcommand, List.forall_mem_singleton] at hinputs
      simp only [Command.output, loadCriteria_congr hinputs]
  rw [Request.execute, Request.execute, htable]
  simp only [houtput]

end Congruence

end Prerequisite.CommandLine
