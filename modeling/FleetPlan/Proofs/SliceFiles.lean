/-
What the files of a sliced plan hold.

The name of a host's file keeps only the characters that are safe, so two hosts may come to
one name.  The names are looked through before anything is written: `fileNames_eq_ok_iff`
says that they are found good just when all differ, and a clash that is found is one
(`clash_of_fileNames`).  So writing either does nothing at all or goes through, and what it
writes for a host is what the host reads as its plan.

Files are looked at on a `Volume`, where whatever is done succeeds and a path holds what was
written last.  `Ends` says how a command ends there, whatever it prints, and is composed
along the command.
-/
import FleetPlan.Command.Plans
import FleetPlan.Proofs.Agent

namespace FleetPlan

/-! ### Names of files -/

namespace HostPlan

theorem toList_fileName (host : String) : (fileName host).toList =
    "hostplan-".toList ++ host.toList.map (fun c => if isSafeChar c then c else '_') ++
      ".json".toList := by
  rw [fileName, String.toList_append, String.toList_append, String.toList_map]

/-- The name of a host's file leads nowhere else. -/
theorem slash_not_mem_fileName (host : String) : '/' ∉ (fileName host).toList := by
  rw [toList_fileName]
  simp only [List.mem_append, List.mem_map, not_or, not_exists, not_and]
  refine ⟨⟨by decide, fun c _ hc => ?_⟩, by decide⟩
  by_cases hsafe : isSafeChar c = true
  · rw [if_pos hsafe] at hc
    rw [hc] at hsafe
    exact absurd hsafe (by decide)
  · rw [if_neg hsafe] at hc
    exact absurd hc (by decide)

/-- The name of a host's file begins with a letter of its own. -/
theorem head?_fileName (host : String) : (fileName host).toList.head? = some 'h' := by
  rw [toList_fileName]
  rfl

theorem fileName_ne_of_head? {host name : String} (h : name.toList.head? ≠ some 'h') :
    fileName host ≠ name := fun heq => h (heq ▸ head?_fileName host)

end HostPlan

/-! ### Paths in a directory -/

namespace Path

variable {directory name name' : String}

theorem join_inj : join directory name = join directory name' ↔ name = name' := by
  unfold join
  split
  · exact String.append_right_inj _
  · exact String.append_right_inj _

/-- A path is that of something right in a directory. -/
def IsChild (directory path : String) : Prop :=
  ∃ name : String, path = join directory name ∧ '/' ∉ name.toList ∧ name ∉ ["", ".", ".."]

theorem isChild_fileName (directory host : String) :
    IsChild directory (join directory (HostPlan.fileName host)) := by
  refine ⟨_, rfl, HostPlan.slash_not_mem_fileName host, ?_⟩
  simp only [List.mem_cons, List.not_mem_nil, or_false, not_or]
  refine ⟨?_, ?_, ?_⟩ <;> exact HostPlan.fileName_ne_of_head? (by decide)

theorem isChild_globalSteps (directory : String) :
    IsChild directory (join directory GlobalSteps.fileName) :=
  ⟨_, rfl, by decide, by decide⟩

end Path

/-! ### Clashes -/

namespace Slice

/-- A host by the name of its file. -/
def fileEntry (host : String) : String × String := (HostPlan.fileName host, host)

theorem map_fileEntry_names (hosts : List String) :
    (hosts.map fileEntry).map (·.1) = hosts.map HostPlan.fileName := List.map_map ..

theorem ofList_fileEntry_append (seen : List String) (host : String) :
    (Dict.ofList (seen.map fileEntry)).insert (HostPlan.fileName host) host =
      Dict.ofList ((seen ++ [host]).map fileEntry) := by
  rw [Dict.ofList, Dict.ofList, List.map_append, List.foldl_append]
  rfl

/-- Hosts that have names of their own are found by them. -/
theorem get?_fileEntries {seen : List String} (h : (seen.map HostPlan.fileName).Nodup)
    {file host : String} : (Dict.ofList (seen.map fileEntry)).get? file = some host ↔
      host ∈ seen ∧ HostPlan.fileName host = file := by
  rw [Dict.get?_eq_some_iff, Dict.mem_ofList_of_nodup (by rwa [map_fileEntry_names]), List.mem_map]
  constructor
  · rintro ⟨other, hmem, hentry⟩
    obtain ⟨hfile, rfl⟩ := Prod.mk.inj hentry
    exact ⟨hmem, hfile⟩
  · rintro ⟨hmem, rfl⟩
    exact ⟨host, hmem, rfl⟩

/-- A name that is not there yet may be added. -/
theorem nodup_fileNames_append {seen : List String} (hseen : (seen.map HostPlan.fileName).Nodup)
    {host : String}
    (hnone : (Dict.ofList (seen.map fileEntry)).get? (HostPlan.fileName host) = none) :
    ((seen ++ [host]).map HostPlan.fileName).Nodup := by
  rw [List.map_append, List.map_singleton, List.nodup_append_comm, List.singleton_append,
    List.nodup_cons]
  refine ⟨fun hmem => ?_, hseen⟩
  obtain ⟨other, hother, hfile⟩ := List.mem_map.mp hmem
  have hsome := (get?_fileEntries hseen).mpr ⟨hother, hfile⟩
  rw [hnone] at hsome
  cases hsome

/-- Going through hosts behind others either finds all names to differ or ends at a clash. -/
theorem fileNames_cases {seen : List String} (hseen : (seen.map HostPlan.fileName).Nodup)
    (hosts : List String) :
    ((seen ++ hosts).map HostPlan.fileName).Nodup ∧
        fileNames (Dict.ofList (seen.map fileEntry)) hosts =
          .ok (Dict.ofList ((seen ++ hosts).map fileEntry)) ∨
      ∃ first second before after, hosts = before ++ second :: after ∧ first ∈ seen ++ before ∧
        HostPlan.fileName first = HostPlan.fileName second ∧
        fileNames (Dict.ofList (seen.map fileEntry)) hosts =
          .error ⟨first, second, HostPlan.fileName second⟩ := by
  induction hosts generalizing seen with
  | nil =>
    left
    rw [List.append_nil]
    exact ⟨hseen, rfl⟩
  | cons host rest ih =>
    cases hfound : (Dict.ofList (seen.map fileEntry)).get? (HostPlan.fileName host) with
    | some other =>
      obtain ⟨hmem, hfile⟩ := (get?_fileEntries hseen).mp hfound
      refine .inr ⟨other, host, [], rest, rfl, by simpa using hmem, hfile, ?_⟩
      simp only [fileNames, hfound]
    | none =>
      have hstep : fileNames (Dict.ofList (seen.map fileEntry)) (host :: rest) =
          fileNames (Dict.ofList ((seen ++ [host]).map fileEntry)) rest := by
        rw [← ofList_fileEntry_append]
        simp only [fileNames, hfound]
      rw [hstep, show seen ++ host :: rest = seen ++ [host] ++ rest by simp]
      rcases ih (nodup_fileNames_append hseen hfound) with hall |
        ⟨first, second, before, after, rfl, hmem, hfiles⟩
      · exact .inl hall
      · refine .inr ⟨first, second, host :: before, after, rfl, ?_, hfiles⟩
        rwa [List.append_assoc] at hmem

variable {slice : Slice}

/-- The hosts of a sliced plan have files of their own, or two of them are found that do not. -/
theorem fileNames_keys (slice : Slice) :
    (slice.hostPlans.keys.map HostPlan.fileName).Nodup ∧
        fileNames .empty slice.hostPlans.keys =
          .ok (Dict.ofList (slice.hostPlans.keys.map fileEntry)) ∨
      ∃ first ∈ slice.hostPlans.keys, ∃ second ∈ slice.hostPlans.keys, first ≠ second ∧
        HostPlan.fileName first = HostPlan.fileName second ∧
        fileNames .empty slice.hostPlans.keys =
          .error ⟨first, second, HostPlan.fileName second⟩ := by
  rcases @fileNames_cases [] List.nodup_nil slice.hostPlans.keys with hall |
    ⟨first, second, before, after, hkeys, hmem, hfiles, herror⟩
  · exact .inl hall
  · have hfirst : first ∈ before := hmem
    have hnodup := slice.hostPlans.nodup_keys
    rw [hkeys, List.nodup_middle, List.nodup_cons, List.mem_append, not_or] at hnodup
    refine .inr ⟨first, ?_, second, ?_, fun heq => hnodup.1.1 (heq ▸ hfirst), hfiles, herror⟩
    · rw [hkeys]
      exact List.mem_append_left _ hfirst
    · rw [hkeys]
      exact List.mem_append_right _ List.mem_cons_self

/-- **Two hosts that share a file keep all files from being listed.** -/
theorem files_of_clash {host other : String} (hhost : host ∈ slice.hostPlans.keys)
    (hother : other ∈ slice.hostPlans.keys) (hne : host ≠ other)
    (hfile : HostPlan.fileName host = HostPlan.fileName other) (planId : String) :
    ∃ first ∈ slice.hostPlans.keys, ∃ second ∈ slice.hostPlans.keys, first ≠ second ∧
      HostPlan.fileName first = HostPlan.fileName second ∧
      slice.files planId = .error ⟨first, second, HostPlan.fileName second⟩ := by
  rcases slice.fileNames_keys with ⟨hnodup, -⟩ |
    ⟨first, hfirst, second, hsecond, hdiffer, hshared, herror⟩
  · exact absurd (List.inj_on_of_nodup_map hnodup hhost hother hfile) hne
  · refine ⟨first, hfirst, second, hsecond, hdiffer, hshared, ?_⟩
    rw [files, herror]

/-- The plans of hosts, by the names of their files. -/
def partFiles (slice : Slice) : List (String × String) :=
  (Dict.ofList (slice.hostPlans.keys.map fileEntry)).entries.filterMap fun e =>
    (slice.hostPlans.get? e.2).map fun part => (e.1, part.encode)

/-- No two hosts share a file. -/
def FilesApart (slice : Slice) : Prop :=
  ∀ host ∈ slice.hostPlans.keys, ∀ other ∈ slice.hostPlans.keys,
    HostPlan.fileName host = HostPlan.fileName other → host = other

/-- **Hosts with files of their own have their plans listed, and the global steps behind.** -/
theorem FilesApart.files (h : slice.FilesApart) (planId : String) :
    slice.files planId = .ok (slice.partFiles ++ [(GlobalSteps.fileName,
      GlobalSteps.encode ⟨planId, slice.globalSteps, slice.globalRefs⟩)]) := by
  rcases slice.fileNames_keys with ⟨-, hok⟩ |
    ⟨first, hfirst, second, hsecond, hdiffer, hshared, -⟩
  · rw [Slice.files, hok]
    rfl
  · exact absurd (h first hfirst second hsecond hshared) hdiffer

theorem FilesApart.nodup (h : slice.FilesApart) :
    ((slice.hostPlans.keys.map fileEntry).map (·.1)).Nodup := by
  rw [map_fileEntry_names]
  exact List.Nodup.map_on h slice.hostPlans.nodup_keys

/-- Every host has one file. -/
theorem FilesApart.partFiles_names (h : slice.FilesApart) : slice.partFiles.map (·.1) =
    (Dict.ofList (slice.hostPlans.keys.map fileEntry)).keys := by
  have hone : ∀ e ∈ (Dict.ofList (slice.hostPlans.keys.map fileEntry)).entries,
      ((slice.hostPlans.get? e.2).map fun part => (e.1, part.encode)).map (·.1) = some e.1 := by
    intro e he
    obtain ⟨host, hhost, rfl⟩ := List.mem_map.mp
      ((Dict.mem_ofList_of_nodup h.nodup).mp he)
    obtain ⟨⟨key, part⟩, hpart, rfl⟩ := List.mem_map.mp hhost
    have hfound : slice.hostPlans.get? (fileEntry key).2 = some part :=
      Dict.get?_eq_some_iff.mpr hpart
    rw [hfound]
    rfl
  rw [partFiles, List.map_filterMap, List.filterMap_congr hone]
  exact congrFun List.filterMap_eq_map _

theorem FilesApart.partFiles_perm (h : slice.FilesApart) : (slice.partFiles.map (·.1)).Perm
    (slice.hostPlans.keys.map HostPlan.fileName) := by
  rw [h.partFiles_names, ← map_fileEntry_names]
  exact (Dict.ofList_perm_of_nodup h.nodup).map _

theorem FilesApart.pairwise_partFiles (h : slice.FilesApart) :
    (slice.partFiles.map (·.1)).Pairwise (· < ·) := by
  rw [h.partFiles_names, Dict.keys, List.pairwise_map]
  exact Dict.sorted _

theorem FilesApart.mem_partFiles (h : slice.FilesApart) {host : String} {part : HostPlan}
    (hpart : slice.hostPlans.get? host = some part) :
    (HostPlan.fileName host, part.encode) ∈ slice.partFiles := by
  have hkey : host ∈ slice.hostPlans.keys :=
    List.mem_map.mpr ⟨_, Dict.get?_eq_some_iff.mp hpart, rfl⟩
  have hentry : fileEntry host ∈ (Dict.ofList (slice.hostPlans.keys.map fileEntry)).entries :=
    (Dict.mem_ofList_of_nodup h.nodup).mpr (List.mem_map_of_mem hkey)
  refine List.mem_filterMap.mpr ⟨_, hentry, ?_⟩
  rw [show (fileEntry host).2 = host from rfl, hpart]
  rfl

/-- The file of the global steps is none of the hosts'. -/
theorem FilesApart.nodup_names (h : slice.FilesApart) :
    (slice.partFiles.map (·.1) ++ [GlobalSteps.fileName]).Nodup := by
  have hnodup : (slice.partFiles.map (·.1)).Nodup := by
    rw [h.partFiles_names]
    exact Dict.nodup_keys _
  rw [List.nodup_append_comm, List.singleton_append, List.nodup_cons]
  refine ⟨fun hmem => ?_, hnodup⟩
  obtain ⟨host, -, hfile⟩ := List.mem_map.mp (h.partFiles_perm.subset hmem)
  exact HostPlan.fileName_ne_of_head? (by decide) hfile

theorem FilesApart.isChild (h : slice.FilesApart) (directory : String) :
    ∀ path ∈ (slice.partFiles.map (·.1) ++ [GlobalSteps.fileName]).map (Path.join directory),
      Path.IsChild directory path := by
  intro path hpath
  rw [List.map_append, List.mem_append] at hpath
  rcases hpath with hpart | hglobals
  · obtain ⟨name, hname, rfl⟩ := List.mem_map.mp hpart
    obtain ⟨host, -, rfl⟩ := List.mem_map.mp (h.partFiles_perm.subset hname)
    exact Path.isChild_fileName directory host
  · obtain rfl := List.mem_singleton.mp hglobals
    exact Path.isChild_globalSteps directory

end Slice

/-! ### Volumes -/

/-- Files by their paths, where nothing stands in the way of a file or a directory. -/
structure Volume where
  files : String → Option Octets
  directories : List String

namespace Volume

/-- The volume with a file written anew. -/
def write (v : Volume) (path content : String) : Volume :=
  { v with files := Function.update v.files path (some (Text.octets content)) }

def make (v : Volume) (path : String) : Volume := { v with directories := path :: v.directories }

instance : MonadFiles (StateM Volume) where
  isThere path := return ((← get).files path).isSome || (← get).directories.contains path
  readFile path := return match (← get).files path with
    | some content => .ok content
    | none => .error .notFound
  makeDirectory path := do
    modify (·.make path)
    return .ok ()
  writeFile path content := do
    modify (·.write path content)
    return .ok ()

/-- The volume with all files written, one after another. -/
def writeAll (v : Volume) (directory : String) (files : List (String × String)) : Volume :=
  files.foldl (fun v file => v.write (Path.join directory file.1) file.2) v

end Volume

namespace Volume

variable {v : Volume} {directory path : String} {files : List (String × String)}

@[simp] theorem writeAll_directories (v : Volume) (directory : String)
    (files : List (String × String)) :
    (v.writeAll directory files).directories = v.directories := by
  induction files generalizing v with
  | nil => rfl
  | cons file rest ih => exact ih _

/-- Elsewhere nothing is written. -/
theorem writeAll_files_of_not_mem (h : path ∉ files.map fun file => Path.join directory file.1) :
    (v.writeAll directory files).files path = v.files path := by
  induction files generalizing v with
  | nil => rfl
  | cons file rest ih =>
    rw [List.map_cons, List.mem_cons, not_or] at h
    refine (ih h.2).trans ?_
    exact Function.update_of_ne h.1 _ _

/-- A file of a name of its own holds what was written to it. -/
theorem writeAll_files_of_mem (hnodup : (files.map (·.1)).Nodup) {name content : String}
    (h : (name, content) ∈ files) :
    (v.writeAll directory files).files (Path.join directory name) = some (Text.octets content) := by
  induction files generalizing v with
  | nil => exact absurd h List.not_mem_nil
  | cons file rest ih =>
    rw [List.map_cons, List.nodup_cons] at hnodup
    rcases List.mem_cons.mp h with rfl | h
    · have hother : Path.join directory name ∉ rest.map fun file => Path.join directory file.1 := by
        intro hmem
        obtain ⟨other, hother, hjoin⟩ := List.mem_map.mp hmem
        exact hnodup.1 (List.mem_map.mpr ⟨other, hother, Path.join_inj.mp hjoin⟩)
      exact (writeAll_files_of_not_mem hother).trans (Function.update_self _ _ _)
    · exact ih hnodup.2 h

end Volume

/-! ### Commands on a volume -/

namespace CommandM

/-- What comes after a command goes on from where that has ended. -/
theorem run_bind {α β : Type} {command : CommandM (StateM Volume) α}
    {next : α → CommandM (StateM Volume) β} {s : Setting} {printed printed' : Printed}
    {v v' : Volume} {a : α}
    (h : ((command.run s).run.run printed).run v = ((.ok a, printed'), v')) :
    (((command >>= next).run s).run.run printed).run v =
      (((next a).run s).run.run printed').run v' := by
  set ran := ((command.run s).run.run printed).run v
  change ((ExceptT.bindCont (fun a => (next a).run s) ran.1.1).run ran.1.2).run ran.2 = _
  rw [h]
  rfl

/-- How a command ends on a volume and what it leaves there, whatever it prints. -/
def Ends {α : Type} (command : CommandM (StateM Volume) α) (v : Volume) (result : Except Failure α)
    (v' : Volume) : Prop :=
  ∀ (s : Setting) (printed : Printed), ∃ printed' : Printed,
    ((command.run s).run.run printed).run v = ((result, printed'), v')

namespace Ends

variable {α β : Type} {v v' v'' : Volume}

theorem pure (a : α) (v : Volume) : Ends (Pure.pure a) v (.ok a) v :=
  fun _ printed => ⟨printed, rfl⟩

theorem throw (f : Failure) (v : Volume) :
    Ends (throw f : CommandM (StateM Volume) α) v (.error f) v := fun _ printed => ⟨printed, rfl⟩

/-- One command after another. -/
theorem bind {command : CommandM (StateM Volume) α} {next : α → CommandM (StateM Volume) β} {a : α}
    {result : Except Failure β} (h : Ends command v (.ok a) v')
    (hnext : Ends (next a) v' result v'') :
    Ends (command >>= next) v result v'' := by
  intro s printed
  obtain ⟨printed', hrun⟩ := h s printed
  obtain ⟨printed'', hlater⟩ := hnext s printed'
  exact ⟨printed'', (run_bind hrun).trans hlater⟩

theorem log (record : LogRecord) (v : Volume) : Ends (CommandM.log record) v (.ok ()) v :=
  fun _ _ => ⟨_, rfl⟩

theorem makeDirectory (path : String) (v : Volume) :
    Ends (MonadFiles.makeDirectory path) v (.ok (.ok ())) (v.make path) := fun _ _ => ⟨_, rfl⟩

theorem writeFile (path content : String) (v : Volume) :
    Ends (MonadFiles.writeFile path content) v (.ok (.ok ())) (v.write path content) :=
  fun _ _ => ⟨_, rfl⟩

theorem withinFiles (message : String) (a : α) (v : Volume) :
    Ends (CommandM.withinFiles message (.ok a)) v (.ok a) v := .pure a v

/-- Files are written one after another, each to its place in the directory. -/
theorem writeFiles (directory : String) (files : List (String × String)) (v : Volume) :
    Ends (CommandM.writeFiles directory files) v
      (.ok (files.map fun file => Path.join directory file.1)) (v.writeAll directory files) := by
  induction files generalizing v with
  | nil => exact .pure [] v
  | cons file rest ih =>
    refine (Ends.writeFile _ _ v).bind ((Ends.withinFiles _ () _).bind ?_)
    exact (ih _).bind (.pure _ _)

variable {slice : Slice}

/-- A clash ends the command before anything is done. -/
theorem writeSlice_of_error {planId : String} {clash : FileClash}
    (h : slice.files planId = .error clash) (directory : String) (v : Volume) :
    Ends (CommandM.writeSlice directory planId slice) v (.error ⟨clash.message, []⟩) v := by
  unfold CommandM.writeSlice
  rw [h]
  exact .throw _ v

/-- Without a clash the directory is made and all files are written. -/
theorem writeSlice_of_ok {planId : String} {files : List (String × String)}
    (h : slice.files planId = .ok files) (directory : String) (v : Volume) :
    Ends (CommandM.writeSlice directory planId slice) v
      (.ok (files.map fun file => Path.join directory file.1))
      ((v.make directory).writeAll directory files) := by
  unfold CommandM.writeSlice
  rw [h]
  refine (Ends.makeDirectory directory v).bind ((Ends.withinFiles _ () _).bind ?_)
  exact (Ends.writeFiles directory files _).bind ((Ends.log _ _).bind (.pure _ _))

end Ends

/--
**Writing a sliced plan does nothing or all of it.**  Take a plan that was read from a
document and can be cut, and any directory on a volume.  If two hosts share a file, the command
fails for two hosts that do and leaves the volume as it was, without the directory.  If none do,
it makes the directory and gives a path for each host, by increasing names of the files, and
behind them that of the global steps.  The paths differ and lead to files right in the
directory; just these are written; and each host reads its file as the host plan that the slice
has for it.
-/
theorem writeSlice_all_or_nothing {bytes : Octets} {plan : Plan} {slice : Slice}
    (hdecode : Plan.decode bytes = .ok plan) (hslice : plan.slice = .ok slice)
    (directory planId : String) (v : Volume) :
    (∀ host ∈ slice.hostPlans.keys, ∀ other ∈ slice.hostPlans.keys, host ≠ other →
      HostPlan.fileName host = HostPlan.fileName other →
      ∃ first ∈ slice.hostPlans.keys, ∃ second ∈ slice.hostPlans.keys, first ≠ second ∧
        HostPlan.fileName first = HostPlan.fileName second ∧
        Ends (writeSlice directory planId slice) v
          (.error ⟨FileClash.message ⟨first, second, HostPlan.fileName second⟩, []⟩) v) ∧
    (slice.FilesApart → ∃ names v', names.Pairwise (· < ·) ∧
      names.Perm (slice.hostPlans.keys.map HostPlan.fileName) ∧
      let paths := (names ++ [GlobalSteps.fileName]).map (Path.join directory)
      Ends (writeSlice directory planId slice) v (.ok paths) v' ∧
        paths.Nodup ∧ (∀ path ∈ paths, Path.IsChild directory path) ∧
        v'.directories = directory :: v.directories ∧
        (∀ path, path ∈ paths → (v'.files path).isSome) ∧
        (∀ path, path ∉ paths → v'.files path = v.files path) ∧
        ∀ host part, slice.hostPlans.get? host = some part →
          ∃ content, v'.files (Path.join directory (HostPlan.fileName host)) = some content ∧
            ∀ id, HostPlan.decode content id = .ok part) := by
  obtain ⟨-, rfl⟩ := Plan.slice_eq_ok_iff.mp hslice
  constructor
  · intro host hhost other hother hne hfile
    obtain ⟨first, hfirst, second, hsecond, hdiffer, hshared, herror⟩ :=
      Slice.files_of_clash hhost hother hne hfile planId
    exact ⟨first, hfirst, second, hsecond, hdiffer, hshared,
      .writeSlice_of_error herror directory v⟩
  · intro hapart
    set files := plan.cut.partFiles ++ [(GlobalSteps.fileName,
      GlobalSteps.encode ⟨planId, plan.cut.globalSteps, plan.cut.globalRefs⟩)] with hfiles
    have hnames : files.map (·.1) = plan.cut.partFiles.map (·.1) ++ [GlobalSteps.fileName] := by
      rw [hfiles, List.map_append]
      rfl
    have hpaths : files.map (fun file => Path.join directory file.1) =
        (plan.cut.partFiles.map (·.1) ++ [GlobalSteps.fileName]).map (Path.join directory) := by
      rw [← hnames, List.map_map]
      rfl
    have hnodup : (files.map (·.1)).Nodup := hnames ▸ hapart.nodup_names
    refine ⟨plan.cut.partFiles.map (·.1), (v.make directory).writeAll directory files,
      hapart.pairwise_partFiles, hapart.partFiles_perm, ?_⟩
    rw [← hpaths]
    refine ⟨.writeSlice_of_ok (hapart.files planId) directory v, ?_, ?_, ?_, ?_, ?_, ?_⟩
    · rw [hpaths, ← hnames]
      exact hnodup.map fun _ _ => Path.join_inj.mp
    · rw [hpaths]
      exact hapart.isChild directory
    · exact Volume.writeAll_directories _ _ _
    · intro path hpath
      obtain ⟨file, hfile, rfl⟩ := List.mem_map.mp hpath
      rw [Volume.writeAll_files_of_mem hnodup (show (file.1, file.2) ∈ files from hfile)]
      rfl
    · exact fun path hpath => Volume.writeAll_files_of_not_mem hpath
    · intro host part hpart
      have hfile : (HostPlan.fileName host, part.encode) ∈ files :=
        List.mem_append_left _ (hapart.mem_partFiles hpart)
      refine ⟨_, Volume.writeAll_files_of_mem hnodup hfile, fun id => ?_⟩
      have hof : Plan.HostPart plan host part :=
        Plan.hostPart_of_mem (Plan.cut_hostPlans_entries plan ▸ Dict.get?_eq_some_iff.mp hpart)
      exact hof.decode_encode (Plan.portable_of_decode hdecode) id

/-- A plan for two hosts whose names differ in a character that is not safe. -/
def sharedFile : Plan :=
  { Plan.bare "p" with steps := [
      .bare "a" .zero .noop (.named "dc1/web"), .bare "b" .zero .noop (.named "dc1_web")] }

/-- Nothing is written for hosts that share a file; others have theirs in the directory. -/
theorem writeSlice_all_or_nothing_of_sharedFile : ∃ shared apart part names v' content,
    Plan.decode (Text.octets sharedFile.encode) = .ok sharedFile ∧ sharedFile.slice = .ok shared ∧
      (∃ f, Ends (writeSlice "out" "p" shared) ⟨fun _ => none, []⟩ (.error f)
        ⟨fun _ => none, []⟩) ∧
      Plan.decode (Text.octets Runner.twoHosts.encode) = .ok Runner.twoHosts ∧
      Runner.twoHosts.slice = .ok apart ∧ apart.hostPlans.get? "h" = some part ∧
      names.Perm ["hostplan-h.json", "hostplan-k.json"] ∧ names.Pairwise (· < ·) ∧
      Ends (writeSlice "out" "p" apart) ⟨fun _ => none, []⟩
        (.ok ((names ++ ["global-steps.json"]).map (Path.join "out"))) v' ∧
      v'.files "out/hostplan-h.json" = some content ∧ HostPlan.decode content "" = .ok part := by
  have hportable : ∀ s ∈ sharedFile.steps, Portable s.inputs := by
    intro s hs p hp
    simp only [sharedFile, List.mem_cons, List.not_mem_nil, or_false] at hs
    rcases hs with rfl | rfl <;> exact absurd hp (by simp [Step.bare])
  have hshared : Plan.decode (Text.octets sharedFile.encode) = .ok sharedFile :=
    Plan.decode_encode rfl hportable
  have hsharedSlice : sharedFile.slice = .ok sharedFile.cut :=
    Plan.slice_eq_ok_iff.mpr ⟨Plan.sliceError?_eq_none_iff.mp (by decide +kernel), rfl⟩
  have hsharedKeys : sharedFile.cut.hostPlans.keys = ["dc1/web", "dc1_web"] := by cbv
  obtain ⟨hnothing, -⟩ :=
    writeSlice_all_or_nothing hshared hsharedSlice "out" "p" ⟨fun _ => none, []⟩
  obtain ⟨first, -, second, -, -, -, hends⟩ := hnothing "dc1/web" (by simp [hsharedKeys])
    "dc1_web" (by simp [hsharedKeys]) (by decide) (by cbv)
  have htwo : Plan.decode (Text.octets Runner.twoHosts.encode) = .ok Runner.twoHosts :=
    Plan.decode_encode rfl Runner.portable_twoHosts
  have htwoSlice : Runner.twoHosts.slice = .ok Runner.twoHosts.cut :=
    Plan.slice_eq_ok_iff.mpr ⟨Plan.sliceError?_eq_none_iff.mp (by decide +kernel), rfl⟩
  have htwoKeys : Runner.twoHosts.cut.hostPlans.keys = ["h", "k"] := by cbv
  have hpart : Runner.twoHosts.cut.hostPlans.get? "h" =
      some (Runner.twoHosts.hostPlanOf (.named "h") [Runner.twoHosts.waiting]) := by cbv
  have hapart : Runner.twoHosts.cut.FilesApart := by
    unfold Slice.FilesApart
    rw [htwoKeys]
    decide +kernel
  have hfiles : ["h", "k"].map HostPlan.fileName = ["hostplan-h.json", "hostplan-k.json"] := by
    decide +kernel
  have hpath : Path.join "out" (HostPlan.fileName "h") = "out/hostplan-h.json" := by
    decide +kernel
  obtain ⟨-, hall⟩ := writeSlice_all_or_nothing htwo htwoSlice "out" "p" ⟨fun _ => none, []⟩
  obtain ⟨names, v', hsorted, hperm, hwritten, -, -, -, -, -, hplans⟩ := hall hapart
  obtain ⟨content, hcontent, hdecode⟩ := hplans "h" _ hpart
  rw [htwoKeys, hfiles] at hperm
  rw [hpath] at hcontent
  exact ⟨_, _, _, names, v', content, hshared, hsharedSlice, ⟨_, hends⟩, htwo, htwoSlice, hpart,
    hperm, hsorted, hwritten, hcontent, hdecode ""⟩

end CommandM

end FleetPlan
