/-
What is printed is read back.

A report is a valid value of a lawful shape whatever it holds, since nothing in it is kept as
written.  A slice does keep the inputs of steps as written, so it is valid just when these are
portable; those of a plan that was decoded are, and cutting the plan moves them without a
change.  `ReadsBack` says for a value that it is got back from its document in either layout.

The document of a slice is what the command prints that cuts a plan.  `Prints` says how a
command ends that leaves the volume alone, and what it puts out; notices do not count.
-/
import FleetPlan.Proofs.SliceFiles

namespace FleetPlan

open Json

/-! ### Documents that are read back -/

/-- A value is got back from its document, however that is laid out. -/
structure Json.Shape.ReadsBack {α : Type} (shape : Shape α) (a : α) : Prop where
  compact : shape.readAll (Text.octets (shape.write a).compact) = .ok a
  pretty : shape.readAll (Text.octets (shape.write a).pretty) = .ok a
  /-- The document in lines with a line break behind it, as it is printed. -/
  printed : shape.readAll (Text.octets ((shape.write a).pretty ++ "\n")) = .ok a

theorem Json.Shape.Lawful.readsBack {α : Type} {shape : Shape α} (hlawful : shape.Lawful) {a : α}
    (hvalid : shape.Valid a) : shape.ReadsBack a where
  compact := readAll_eq_ok_iff.mpr (decodeStrict_compact hlawful hvalid)
  pretty := by
    rw [Document.pretty, Document.octets_prettyAt, ← List.append_nil (Document.lay _ _ _)]
    exact readAll_eq_ok_iff.mpr (decodeStrict_lay .lines hlawful hvalid blank_nil)
  printed := readAll_eq_ok_iff.mpr (decodeStrict_pretty hlawful hvalid)

/-! ### The shapes of reports -/

namespace OutputLine

@[simp] theorem valid_shape (l : OutputLine) : shape.Valid l := by
  simp [shape, Shape.Valid, Fields.Valid]

@[simp] theorem lawful_shape : shape.Lawful := by
  have hstream (stream : OutputStream) :
      OutputStream.all.find? (·.name = stream.name) = some stream := by
    cases stream <;> decide
  unfold shape
  rw [Shape.Lawful]
  refine ⟨fun _ => rfl, fun _ => rfl, by decide, ?_⟩
  simp [Fields.Lawful, hstream, Shape.Lawful, Shape.Valid]

end OutputLine

namespace StepError

@[simp] theorem valid_shape (e : StepError) : shape.Valid e := by
  simp [shape, Shape.Valid, Fields.Valid]

@[simp] theorem lawful_shape : shape.Lawful := by
  unfold shape
  rw [Shape.Lawful]
  refine ⟨fun _ => rfl, fun _ => rfl, by decide, ?_⟩
  simp [Fields.Lawful, Shape.Lawful, Shape.Valid]

end StepError

namespace StepRecord

@[simp] theorem valid_shape (r : StepRecord) : shape.Valid r := by
  simp [shape, StepError.shape, Shape.Valid, Fields.Valid, Shape.write, Document.SpellsNull]

@[simp] theorem lawful_shape : shape.Lawful := by
  have hstatus (status : StepStatus) :
      StepStatus.all.find? (·.name = status.name) = some status := by
    cases status <;> decide
  unfold shape
  rw [Shape.Lawful]
  refine ⟨fun _ => rfl, fun _ => rfl, by decide, ?_⟩
  simp [Fields.Lawful, hstatus, Shape.Lawful, Shape.Valid]

end StepRecord

namespace Report

/-- Every report is a valid value. -/
theorem valid_shape (r : Report) : shape.Valid r := by
  simp [shape, Shape.Valid, Fields.Valid]

theorem lawful_shape : shape.Lawful := by
  have hstatus (status : RunStatus) : RunStatus.all.find? (·.name = status.name) = some status := by
    cases status <;> decide
  unfold shape
  rw [Shape.Lawful]
  refine ⟨fun _ => rfl, fun _ => rfl, by decide, ?_⟩
  simp [Fields.Lawful, hstatus, Shape.Lawful, Shape.Valid]

end Report

/-! ### The shape of slices -/

namespace Slice

/-- A slice is a valid value just when the inputs of all its steps are portable. -/
theorem valid_shape_iff {slice : Slice} : shape.Valid slice ↔
    (∀ e ∈ slice.hostPlans.entries, ∀ step ∈ e.2.steps, Portable step.inputs) ∧
      ∀ s ∈ slice.globalSteps, Portable s.inputs := by
  simp [shape, Shape.Valid, Fields.Valid, HostPlan.valid_shape_iff, Step.valid_shape_iff]

theorem lawful_shape : shape.Lawful := by
  unfold shape
  rw [Shape.Lawful]
  refine ⟨fun _ => rfl, fun _ => rfl, by decide, ?_⟩
  simp [Fields.Lawful, Shape.Lawful, Shape.Valid, HostPlan.lawful_shape]

end Slice

/-- The parts of a plan that was decoded have portable inputs. -/
theorem Plan.valid_cut {plan : Plan} (h : ∀ s ∈ plan.steps, Portable s.inputs) :
    Slice.shape.Valid plan.cut := by
  refine Slice.valid_shape_iff.mpr ⟨fun e he => ?_, fun s hs => h s (mem_globalSteps.mp hs).1⟩
  exact (hostPart_of_mem he).portable h

/-! ### Commands that print -/

/-- A volume with one file and no directories. -/
def Volume.holding (path content : String) : Volume :=
  ⟨Function.update (fun _ => none) path (some (Text.octets content)), []⟩

theorem Volume.holding_files (path content : String) :
    (holding path content).files path = some (Text.octets content) := by
  simp [holding]

theorem Volume.holding_files_of_ne {path other : String} (h : other ≠ path) (content : String) :
    (holding path content).files other = none := by
  simp [holding, h]

/-- A setting in which nothing is configured and only the home directory is known. -/
def Setting.bare : Setting := ⟨0, false, none, Dict.ofList [("HOME", "/home")], "1"⟩

namespace CommandM

/-- How a command ends that leaves the volume as it was, and what it puts out. -/
def Prints {α : Type} (command : CommandM (StateM Volume) α) (s : Setting) (v : Volume)
    (result : Except Failure α) (text : String) : Prop :=
  ∀ printed : Printed, ∃ notices,
    ((command.run s).run.run printed).run v = ((result, ⟨printed.output ++ text, notices⟩), v)

namespace Prints

variable {α β : Type} {s : Setting} {v : Volume} {text text' : String}

/-- A command of which nothing but notices is seen puts nothing out. -/
theorem of_notices {command : CommandM (StateM Volume) α} {result : Except Failure α}
    (h : ∀ printed : Printed, ∃ notices,
      ((command.run s).run.run printed).run v = ((result, ⟨printed.output, notices⟩), v)) :
    Prints command s v result "" := by
  intro printed
  rw [String.append_empty]
  exact h printed

theorem pure (a : α) : Prints (Pure.pure a) s v (.ok a) "" :=
  of_notices fun printed => ⟨printed.notices, rfl⟩

theorem read : Prints (MonadReader.read : CommandM (StateM Volume) Setting) s v (.ok s) "" :=
  of_notices fun printed => ⟨printed.notices, rfl⟩

theorem log (record : LogRecord) : Prints (CommandM.log record) s v (.ok ()) "" :=
  of_notices fun _ => ⟨_, rfl⟩

theorem put (text : String) : Prints (CommandM.put text) s v (.ok ()) text :=
  fun printed => ⟨printed.notices, rfl⟩

/-- One command after another. -/
theorem bind {command : CommandM (StateM Volume) α} {next : α → CommandM (StateM Volume) β} {a : α}
    {result : Except Failure β} (h : Prints command s v (.ok a) text)
    (hnext : Prints (next a) s v result text') :
    Prints (command >>= next) s v result (text ++ text') := by
  intro printed
  obtain ⟨notices, hrun⟩ := h printed
  obtain ⟨notices', hlater⟩ := hnext ⟨printed.output ++ text, notices⟩
  rw [String.append_assoc] at hlater
  exact ⟨notices', (run_bind hrun).trans hlater⟩

/-- A command behind one that puts nothing out. -/
theorem after {command : CommandM (StateM Volume) α} {next : α → CommandM (StateM Volume) β} {a : α}
    {result : Except Failure β} (h : Prints command s v (.ok a) "")
    (hnext : Prints (next a) s v result text) : Prints (command >>= next) s v result text := by
  have hboth := h.bind hnext
  rwa [String.empty_append] at hboth

variable {path : String} {bytes : Octets} {plan : Plan} {slice : Slice} {config : Config}

theorem readFile (h : v.files path = some bytes) :
    Prints (MonadFiles.readFile path) s v (.ok (.ok bytes)) "" := by
  have hread : (MonadFiles.readFile path : StateM Volume _).run v = (.ok bytes, v) := by
    simp only [MonadFiles.readFile, StateT.run_bind, StateT.run_get, pure_bind, h]
    rfl
  refine .of_notices fun printed => ⟨printed.notices, ?_⟩
  set ran := (MonadFiles.readFile path : StateM Volume _).run v
  change ((Except.ok ran.1, printed), ran.2) = _
  rw [hread]

theorem readInput (h : v.files path = some bytes) :
    Prints (CommandM.readInput path) s v (.ok bytes) "" := by
  refine (readFile h).after ?_
  exact .pure bytes

theorem loadPlan (hfile : v.files path = some bytes) (hdecode : Plan.decode bytes = .ok plan) :
    Prints (CommandM.loadPlan path) s v (.ok plan) "" := by
  refine (readInput hfile).after ?_
  rw [hdecode]
  exact .pure plan

theorem loadSlice (hfile : v.files path = some bytes) (hdecode : Plan.decode bytes = .ok plan)
    (hslice : plan.slice = .ok slice) :
    Prints (CommandM.loadSlice path) s v (.ok (plan, slice)) "" := by
  refine (loadPlan hfile hdecode).after ?_
  rw [hslice]
  exact (Prints.pure slice).after ((Prints.log _).after (.pure _))

/-- Where there is no configuration, the default one holds. -/
theorem loadConfig {directory : String} {told : LogRecord} (hpath : s.configPath = none)
    (hdirectory : Config.directory s.environment = .ok (directory, told))
    (hfile : v.files (Config.fileIn directory) = none)
    (hmissing : Config.fileIn directory ∉ v.directories) :
    Prints CommandM.loadConfig s v (.ok .default) "" := by
  have hthere : Prints (MonadFiles.isThere (Config.fileIn directory)) s v (.ok false) "" := by
    refine .of_notices fun printed => ⟨printed.notices, ?_⟩
    change (((.ok ((v.files (Config.fileIn directory)).isSome ||
      v.directories.contains (Config.fileIn directory)) : Except Failure Bool), printed), v) = _
    rw [hfile, Option.isSome_none, List.contains_eq_mem, decide_eq_false hmissing]
    rfl
  unfold CommandM.loadConfig
  refine Prints.read.after ?_
  rw [hpath]
  dsimp only
  rw [hdirectory]
  refine (Prints.pure (directory, told)).after ((Prints.log told).after (hthere.after ?_))
  exact (Prints.log _).after (.pure _)

/-- Without a directory for the files, the parts of the plan are put out as one document. -/
theorem slice_to_output (hconfig : Prints CommandM.loadConfig s v (.ok config) "")
    (hdirectory : config.sliceDir s.environment = none) (hfile : v.files path = some bytes)
    (hdecode : Plan.decode bytes = .ok plan) (hslice : plan.slice = .ok slice) :
    Prints (CommandM.slice path none) s v (.ok ())
      ((Slice.shape.write slice).pretty ++ "\n") := by
  refine hconfig.after (Prints.read.after ?_)
  rw [hdirectory]
  exact (loadSlice hfile hdecode hslice).after (.put _)

end Prints

/--
**Reports and slices are read back from what is written of them.**  Every report is got back
from its document, be that written compactly or in lines.  So is every slice of a plan that was
decoded; and when the command that cuts a plan finds the plan in a file and is told no directory,
neither by its arguments nor by the configuration, it succeeds, leaves the volume as it was, and
what it puts out is read back as the slice.
-/
theorem written_reads_back :
    (∀ report : Report, Report.shape.ReadsBack report) ∧
      ∀ {bytes : Octets} {plan : Plan} {slice : Slice}, Plan.decode bytes = .ok plan →
        plan.slice = .ok slice → Slice.shape.ReadsBack slice ∧
          ∀ {s : Setting} {v : Volume} {path : String} {config : Config},
            v.files path = some bytes → Prints loadConfig s v (.ok config) "" →
              config.sliceDir s.environment = none →
              ∃ text, Prints (CommandM.slice path none) s v (.ok ()) text ∧
                Slice.shape.readAll (Text.octets text) = .ok slice := by
  refine ⟨fun report => Report.lawful_shape.readsBack report.valid_shape, ?_⟩
  intro bytes plan slice hdecode hslice
  have hback : Slice.shape.ReadsBack slice := by
    obtain ⟨-, rfl⟩ := Plan.slice_eq_ok_iff.mp hslice
    exact Slice.lawful_shape.readsBack (Plan.valid_cut (Plan.portable_of_decode hdecode))
  refine ⟨hback, fun hfile hconfig hdirectory => ?_⟩
  exact ⟨_, .slice_to_output hconfig hdirectory hfile hdecode hslice, hback.printed⟩

/-- A plan for two hosts is cut where nothing is configured. -/
theorem written_reads_back_of_twoHosts : ∃ slice text,
    Plan.decode (Text.octets Runner.twoHosts.encode) = .ok Runner.twoHosts ∧
      Runner.twoHosts.slice = .ok slice ∧ Config.default.sliceDir Setting.bare.environment = none ∧
      Prints loadConfig .bare (.holding "plan.json" Runner.twoHosts.encode) (.ok .default) "" ∧
      Prints (CommandM.slice "plan.json" none) .bare
        (.holding "plan.json" Runner.twoHosts.encode) (.ok ()) text ∧
      Slice.shape.readAll (Text.octets text) = .ok slice := by
  have hdecode : Plan.decode (Text.octets Runner.twoHosts.encode) = .ok Runner.twoHosts :=
    Plan.decode_encode rfl Runner.portable_twoHosts
  have hslice : Runner.twoHosts.slice = .ok Runner.twoHosts.cut :=
    Plan.slice_eq_ok_iff.mpr ⟨Plan.sliceError?_eq_none_iff.mp (by decide +kernel), rfl⟩
  have hdirectory : Config.directory Setting.bare.environment =
      .ok ("/home/.config/deckhand", Config.directoryRecord "Using default config dir"
        "/home/.config/deckhand") := by
    decide +kernel
  have hconfig : Prints loadConfig .bare (.holding "plan.json" Runner.twoHosts.encode)
      (.ok .default) "" := by
    have hother : Config.fileIn "/home/.config/deckhand" ≠ "plan.json" := by decide +kernel
    exact .loadConfig rfl hdirectory (Volume.holding_files_of_ne hother _) List.not_mem_nil
  obtain ⟨text, hprints, hread⟩ := (written_reads_back.2 hdecode hslice).2
    (Volume.holding_files _ _) hconfig rfl
  exact ⟨_, text, hdecode, hslice, rfl, hconfig, hprints, hread⟩

end CommandM

end FleetPlan
