import Prerequisite.CommandLine.Execution
import Prerequisite.Proofs.CriteriaLines
import Prerequisite.Proofs.NamesConfig
import Prerequisite.Proofs.Utf8

/-!
# The stages of a request

The work on a request goes through stages.  Each of them looks at one file and may find a fault of
its own, whatever the other files are.  The stages have a fixed order: those of the names, those of
the criteria, and those of the snapshot, where a command that takes no snapshot has none of the
last.  What the first stage that does not pass finds is the first fault.  The faults are described
by what the files hold and by what the decoders make of it, and not by what the program does.
-/

namespace Prerequisite.CommandLine

/-! ### What the files hold -/

variable (files : Files)

/-- The path leads to a file with the bytes. -/
def HasBytes (path : String) (bytes : List UInt8) : Prop :=
  ∃ canonical content, files path = .ok ⟨canonical, .file content⟩ ∧ bytes = content.data.toList

/-- The path leads to a file with the text, encoded in UTF-8. -/
def HasText (path : String) (text : List Char) : Prop := HasBytes files path (Utf8.encode text)

/-- The path leads to a file of the size. -/
@[mk_iff]
inductive HasSize (path : String) (size : ℕ) : Prop where
  | file {bytes : List UInt8} : HasBytes files path bytes → size = bytes.length → HasSize path size
  | unreadable {canonical : String} {reason : SystemFault} :
      files path = .ok ⟨canonical, .unreadable size reason⟩ → HasSize path size

variable [Decoders]

/-- The file gives the criteria: they are what the decoder makes of it, or they are on its lines,
numbered from zero. -/
@[mk_iff]
inductive GivesCriteria (source : CriteriaFile) (criteria : List Criterion) : Prop where
  | json {bytes : List UInt8} :
      source.format = .json → HasBytes files source.path bytes →
      Decoders.criteria bytes = .ok criteria → GivesCriteria source criteria
  | text {text : List Char} :
      source.format = .text → HasText files source.path text →
      List.Forall₂ CriteriaText.Lists (CriteriaText.entryLines text) criteria →
      criteria.map (·.id) = (List.range criteria.length).map UInt32.ofNat →
      GivesCriteria source criteria

/-- The file gives the snapshot. -/
def GivesSnapshot (path : String) (s : Snapshot) : Prop :=
  ∃ bytes, HasBytes files path bytes ∧ Decoders.snapshot bytes = .ok s

/-- The file gives the names. -/
def GivesNames (path : String) (names : Names) : Prop :=
  ∃ text config, HasText files path text ∧ Decoders.config text = .ok config
    ∧ config.HasNames names

/-! ### Stages and their faults -/

/-- A stage of the work on a request, with the file at which it looks. A file that cannot be read
fails at the first stage that needs its content. -/
inductive Stage where
  /-- The path leads to something. -/
  | reach (path : String)
  /-- What the path leads to is a file. -/
  | file (path : String)
  /-- The file is not too large. -/
  | size (path : String)
  /-- The file with the names is a text that is encoded in UTF-8. -/
  | namesEncoding (path : String)
  /-- The text is a configuration of names. -/
  | namesShape (path : String)
  /-- The keys of the configuration are numerals. -/
  | namesKeys (path : String)
  /-- The file spells criteria in its format, however many. -/
  | criteria (source : CriteriaFile)
  /-- The criteria are not too many. -/
  | criteriaCount (source : CriteriaFile)
  /-- The file spells a snapshot. -/
  | snapshot (path : String)
  deriving DecidableEq, Repr

/-- A stage finds a fault. -/
@[mk_iff]
inductive Stage.Finds : Stage → Error → Prop where
  | reach {path : String} {reason : SystemFault} :
      files path = .error reason → Finds (.reach path) (.unreachable path ⟨.follow, reason⟩)
  | file {path canonical : String} :
      files path = .ok ⟨canonical, .other⟩ → Finds (.file path) (.notRegularFile path)
  | size {path : String} {size : ℕ} :
      HasSize files path size → 1024 * 1024 < size → Finds (.size path) (.fileTooLarge size)
  | unreadableNames {path canonical : String} {size : ℕ} {reason : SystemFault} :
      files path = .ok ⟨canonical, .unreadable size reason⟩ →
      Finds (.namesEncoding path) (.unreachable canonical ⟨.readNames, reason⟩)
  | namesEncoding {path canonical : String} {content : ByteArray} :
      files path = .ok ⟨canonical, .file content⟩ →
      (¬ ∃ text, content.data.toList = Utf8.encode text) →
      Finds (.namesEncoding path) (.namesEncoding canonical)
  | namesShape {path : String} {text : List Char} {reason : String} :
      HasText files path text → Decoders.config text = .error reason →
      Finds (.namesShape path) (@Error.malformedNames reason)
  | namesKeys {path : String} {text : List Char} {config : NamesConfig} {site : Site} :
      HasText files path text → Decoders.config text = .ok config →
      IsLeast {site | config.Has site ∧ ¬ ∃ n, NamesConfig.Spells site.key n} site →
      Finds (.namesKeys path) (.badCode site.table site.key)
  | unreadableCriteria {source : CriteriaFile} {canonical : String} {size : ℕ}
      {reason : SystemFault} :
      files source.path = .ok ⟨canonical, .unreadable size reason⟩ →
      Finds (.criteria source) (.unreachable source.path ⟨.read, reason⟩)
  | malformedCriteria {source : CriteriaFile} {bytes : List UInt8} {reason : String} :
      source.format = .json → HasBytes files source.path bytes →
      Decoders.criteria bytes = .error reason →
      Finds (.criteria source) (@Error.malformedCriteria reason)
  | criteriaEncoding {source : CriteriaFile} {bytes : List UInt8} {fault : Utf8.Fault} :
      source.format = .text → HasBytes files source.path bytes →
      Utf8.decode bytes = .error fault → Finds (.criteria source) (.criteriaEncoding fault)
  | criteriaLine {source : CriteriaFile} {text : List Char} {position : ℕ} {fault : LineFault} :
      source.format = .text → HasText files source.path text →
      CriteriaText.FirstOffends (CriteriaText.lines text) position fault →
      Finds (.criteria source) (.invalidLine (position + 1) fault)
  | criteriaCount {source : CriteriaFile} {criteria : List Criterion} :
      GivesCriteria files source criteria → 512 < criteria.length →
      Finds (.criteriaCount source) (.tooManyCriteria criteria.length)
  | unreadableSnapshot {path canonical : String} {size : ℕ} {reason : SystemFault} :
      files path = .ok ⟨canonical, .unreadable size reason⟩ →
      Finds (.snapshot path) (.unreachable path ⟨.read, reason⟩)
  | malformedSnapshot {path : String} {bytes : List UInt8} {reason : String} :
      HasBytes files path bytes → Decoders.snapshot bytes = .error reason →
      Finds (.snapshot path) (@Error.malformedStats reason)

/-- The stage finds no fault. -/
def Stage.Passes (stage : Stage) : Prop := ∀ e, ¬ stage.Finds files e

/-- The first of some stages that does not pass finds the fault. -/
def FirstFinds (stages : List Stage) (e : Error) : Prop :=
  ∃ before stage after, stages = before ++ stage :: after
    ∧ (∀ earlier ∈ before, earlier.Passes files) ∧ stage.Finds files e

/-! ### The order of the stages -/

/-- The stages before the content of a file is read. -/
def fileStages (path : String) : List Stage := [.reach path, .file path, .size path]

def namesStages (path : String) : List Stage :=
  fileStages path ++ [.namesEncoding path, .namesShape path, .namesKeys path]

def criteriaStages (source : CriteriaFile) : List Stage :=
  fileStages source.path ++ [.criteria source, .criteriaCount source]

def snapshotStages (path : String) : List Stage := fileStages path ++ [.snapshot path]

/-- The stages of a command, after those of the names. -/
def Command.stages : Command → List Stage
  | .describe source => criteriaStages source
  | .tree source none => criteriaStages source
  | .tree source (some path) => criteriaStages source ++ snapshotStages path
  | .check source path => criteriaStages source ++ snapshotStages path
  | .format source _ => criteriaStages source

/-- The path of the names of a request: the one that is asked for, or else the one that the
environment gives, unless that is empty. -/
def Request.namesFile? (r : Request) (environment : Option String) : Option String :=
  match r.names, environment with
  | some path, _ => some path
  | none, some path => if path = "" then none else some path
  | none, none => none

/-- The stages of a request. -/
def Request.stages (r : Request) (environment : Option String) : List Stage :=
  (r.namesFile? environment).elim [] namesStages ++ r.command.stages

/-! ### The first fault -/

variable {files} {stages stages' : List Stage} {e : Error}

theorem not_firstFinds_nil :
  ¬ FirstFinds files [] e
  := by
  rintro ⟨before, stage, after, h, -⟩
  simp at h

theorem firstFinds_cons_iff {stage : Stage} :
  FirstFinds files (stage :: stages) e
    ↔ stage.Finds files e ∨ stage.Passes files ∧ FirstFinds files stages e
  := by
  constructor
  · rintro ⟨before, found, after, hstages, hbefore, hfinds⟩
    cases before with
    | nil =>
      obtain ⟨rfl, rfl⟩ := List.cons.inj hstages
      left
      exact hfinds
    | cons first before =>
      obtain ⟨rfl, rfl⟩ := List.cons.inj hstages
      rw [List.forall_mem_cons] at hbefore
      right
      use hbefore.1, before, found, after, rfl, hbefore.2
  · rintro (hfinds | ⟨hpasses, before, found, after, rfl, hbefore, hfinds⟩)
    · use [], stage, stages, rfl, by simp
    · use stage :: before, found, after, rfl
      rw [List.forall_mem_cons]
      use ⟨hpasses, hbefore⟩

/-- The first fault is found among the former stages, or among the latter if the former pass. -/
theorem firstFinds_append_iff :
  FirstFinds files (stages ++ stages') e
    ↔ FirstFinds files stages e
      ∨ (∀ stage ∈ stages, stage.Passes files) ∧ FirstFinds files stages' e
  := by
  induction stages with
  | nil => simp [not_firstFinds_nil]
  | cons stage rest ih =>
    rw [List.cons_append, firstFinds_cons_iff, firstFinds_cons_iff, ih, List.forall_mem_cons]
    tauto

/-- Stages that do not all pass have a first fault. -/
theorem forall_passes_iff :
  (∀ stage ∈ stages, stage.Passes files) ↔ ∀ e, ¬ FirstFinds files stages e
  := by
  induction stages with
  | nil => simp [not_firstFinds_nil]
  | cons stage rest ih =>
    rw [List.forall_mem_cons, ih]
    simp only [firstFinds_cons_iff, not_or, not_and, forall_and]
    constructor
    · rintro ⟨hpasses, hrest⟩
      use hpasses, fun e _ => hrest e
    · rintro ⟨hpasses, hrest⟩
      use hpasses, fun e => hrest e hpasses

/-! ### Results that stages decide -/

section Decides

variable {α β : Type} {result : Except Error α} {next : α → Except Error β}

variable (files) in
/-- The result is an error exactly when a stage finds a fault, and then it is the first fault. -/
def Decides (stages : List Stage) (result : Except Error α) : Prop :=
  ∀ e, result = .error e ↔ FirstFinds files stages e

theorem decides_nil (a : α) :
  Decides files [] (.ok a)
  := by
  intro e
  simp [not_firstFinds_nil]

theorem decides_singleton {stage : Stage} (h : ∀ e, result = .error e ↔ stage.Finds files e) :
  Decides files [stage] result
  := by
  intro e
  rw [h, firstFinds_cons_iff]
  simp [not_firstFinds_nil]

theorem Decides.forall_passes_iff (h : Decides files stages result) :
  (∀ stage ∈ stages, stage.Passes files) ↔ ∃ a, result = .ok a
  := by
  rw [CommandLine.forall_passes_iff]
  simp only [← h _]
  cases result <;> simp

/-- One passage after another one is decided by the stages of the former and then by those of the
latter. -/
theorem Decides.bind (h : Decides files stages result)
    (hnext : ∀ a, result = .ok a → Decides files stages' (next a)) :
  Decides files (stages ++ stages') (result >>= next)
  := by
  intro e
  rw [firstFinds_append_iff, bind_eq_error_iff, h, h.forall_passes_iff]
  apply or_congr_right
  constructor
  · rintro ⟨a, hok, herror⟩
    exact ⟨⟨a, hok⟩, (hnext a hok e).mp herror⟩
  · rintro ⟨⟨a, hok⟩, hfinds⟩
    use a, hok, (hnext a hok e).mpr hfinds

/-- A passage after a result that one stage decides. -/
theorem Decides.cons {stage : Stage} (h : ∀ e, result = .error e ↔ stage.Finds files e)
    (hnext : ∀ a, result = .ok a → Decides files stages' (next a)) :
  Decides files (stage :: stages') (result >>= next)
  := (decides_singleton h).bind hnext

/-- What is made of a result that is no error does not matter. -/
theorem Decides.map (h : Decides files stages result) (f : α → β) :
  Decides files stages (result >>= fun a => pure (f a))
  := by
  rw [← List.append_nil stages]
  apply h.bind
  intro a _
  apply decides_nil

end Decides

end Prerequisite.CommandLine
