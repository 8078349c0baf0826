/-
What running a sliced plan reports.

The reports of the host plans are filed by name before they are merged: one that was
held back under the name its plan is kept under, one that ran under its host's id.
`filings` lists them as they are filed, and the merged report is made of those that
last.  Where every plan is kept under its host's id, the two names are one and the
merged report lists the host plans in their order.
-/
import FleetPlan.Dispatch
import FleetPlan.Proofs.Dict
import FleetPlan.Proofs.Run

namespace FleetPlan

/-! ### Merging -/

theorem Report.foldl_merge_steps (rs : List Report) (g : Report) :
    (rs.foldl .merge g).steps = g.steps ++ rs.flatMap (·.steps) := by
  induction rs generalizing g with
  | nil => simp
  | cons r rest ih =>
    rw [List.foldl_cons, ih, List.flatMap_cons, ← List.append_assoc]
    rfl

/-- The step and the place that a record is about. -/
def StepRecord.subject (record : StepRecord) : String × Host := (record.stepId, record.host)

namespace HostPlan

/-- The steps of a host plan, each with its host. -/
def subjects (part : HostPlan) : List (String × Host) :=
  part.steps.map fun step => (step.id, part.host)

theorem heldBack_subjects (part : HostPlan) (planId : String) (unmet : List String) :
    (part.heldBack planId unmet).steps.map (·.subject) = part.subjects := by
  simp only [heldBack, Report.ofSteps, List.map_map]
  rfl

end HostPlan

namespace Slice

variable (slice : Slice) (globals : Report)

/-- Whether a host plan has to wait for a global step that did not succeed. -/
def isHeld (part : HostPlan) : Bool := !(slice.unmetGlobals globals part).isEmpty

/-- The host plans that are held back, by the names they are kept under. -/
def held : List (String × HostPlan) :=
  slice.hostPlans.entries.filter fun e => slice.isHeld globals e.2

/-- The host plans that are run, by the names they are kept under. -/
def runnable : List (String × HostPlan) :=
  slice.hostPlans.entries.filter fun e => !slice.isHeld globals e.2

/-- The host plans as their reports are filed, by the names these are filed under. -/
def filings : List (String × HostPlan) :=
  slice.held globals ++ (slice.runnable globals).map fun e => (e.2.host.id, e.2)

/-- Every plan is kept under the id of its host. -/
def Keyed : Prop := ∀ e ∈ slice.hostPlans.entries, e.2.host.id = e.1

variable {slice globals}

/-- A host plan is not held back just when all it waits for has a record of success. -/
theorem isHeld_eq_false_iff {part : HostPlan} : slice.isHeld globals part = false ↔
    ∀ id ∈ slice.requiredGlobals part,
      ∃ record ∈ globals.steps, record.stepId = id ∧ record.status = .succeeded := by
  rw [isHeld, Bool.not_eq_false', List.isEmpty_iff, unmetGlobals, List.filter_eq_nil_iff]
  refine forall_congr' fun id => imp_congr_right fun _ => ?_
  simp only [Bool.not_eq_true, Bool.not_eq_false', List.contains_iff_mem, List.mem_map,
    List.mem_filter, beq_iff_eq]
  exact exists_congr fun record => by rw [and_assoc, and_comm (a := record.status = .succeeded)]

theorem held_append_runnable_perm :
    (slice.held globals ++ slice.runnable globals).Perm slice.hostPlans.entries :=
  List.filter_append_perm _ _

/-- Filing changes names at most: the host plans are those of the slice. -/
theorem filings_values_perm :
    ((slice.filings globals).map (·.2)).Perm slice.hostPlans.values := by
  have hnames : (slice.filings globals).map (·.2) =
      (slice.held globals ++ slice.runnable globals).map (·.2) := by
    simp [filings]
  rw [hnames]
  exact held_append_runnable_perm.map _

theorem Keyed.filings_perm (h : slice.Keyed) :
    (slice.filings globals).Perm slice.hostPlans.entries := by
  have hrun : ((slice.runnable globals).map fun e => (e.2.host.id, e.2)) =
      slice.runnable globals := by
    refine (List.map_congr_left fun e he => ?_).trans (List.map_id _)
    rw [h e (List.mem_filter.mp he).1]
    rfl
  rw [filings, hrun]
  exact held_append_runnable_perm

end Slice

/-- Replacing what entries hold does not change which of them last. -/
theorem Dict.lasting_map {α β : Type} (f : α → β) (es : List (String × α)) :
    lasting (es.map fun e => (e.1, f e.2)) = (lasting es).map fun e => (e.1, f e.2) := by
  induction es with
  | nil => rfl
  | cons e rest ih =>
    have hany : (rest.map fun e => (e.1, f e.2)).any (·.1 == e.1) = rest.any (·.1 == e.1) := by
      rw [List.any_map]
      rfl
    simp only [List.map_cons, lasting, hany, ih]
    split <;> rfl

namespace Runner

variable (r : Runner) (slice : Slice) (planId : String)

/-! ### The parts of a run -/

/-- The report of the global steps. -/
def globals : Report := (r.runGlobals slice planId).1

/-- The report of a host plan: what its steps became, or that it was held back. -/
def partReport (globals : Report) (part : HostPlan) : Report :=
  if slice.isHeld globals part then part.heldBack planId (slice.unmetGlobals globals part)
  else (r.runSteps planId part.host part.steps).1

/-- What is told of the host plans that are held back. -/
def heldTrace : Trace :=
  (slice.held (r.globals slice planId)).flatMap fun e =>
    (e.2.holdBack planId e.1 (slice.unmetGlobals (r.globals slice planId) e.2)).2

/-- What happens on each host that runs. -/
def hostTraces : List Trace :=
  (slice.runnable (r.globals slice planId)).map fun e =>
    (r.runSteps planId e.2.host e.2.steps).2

variable {r slice planId}

theorem globals_subjects :
    (r.globals slice planId).steps.map (·.subject) =
      slice.globalSteps.map fun s => (s.id, Host.fleet) := by
  unfold globals runGlobals
  split
  · rename_i hempty
    rw [List.isEmpty_iff.mp hempty]
    rfl
  · refine (r.runSteps_records planId .fleet _).trans ?_
    rw [List.map_map]
    rfl

theorem partReport_subjects {globals : Report} {part : HostPlan} :
    (r.partReport slice planId globals part).steps.map (·.subject) = part.subjects := by
  unfold partReport
  split
  · exact part.heldBack_subjects _ _
  · exact r.runSteps_records planId part.host part.steps

theorem host_of_mem_globals {record : StepRecord} (h : record ∈ (r.globals slice planId).steps) :
    record.host = .fleet := by
  have hmem := List.mem_map_of_mem (f := StepRecord.subject) h
  rw [globals_subjects] at hmem
  obtain ⟨s, -, hs⟩ := List.mem_map.mp hmem
  exact (Prod.mk.inj hs).2.symm

/-- What is reported for a host plan is about its host and one of its steps. -/
theorem of_mem_partReport {globals : Report} {part : HostPlan} {record : StepRecord}
    (h : record ∈ (r.partReport slice planId globals part).steps) :
    record.host = part.host ∧ ∃ step ∈ part.steps, step.id = record.stepId := by
  have hmem := List.mem_map_of_mem (f := StepRecord.subject) h
  rw [partReport_subjects] at hmem
  obtain ⟨step, hstep, hs⟩ := List.mem_map.mp hmem
  obtain ⟨hid, hhost⟩ := Prod.mk.inj hs
  exact ⟨hhost.symm, step, hstep, hid⟩

theorem partReport_of_held {e : String × HostPlan}
    (he : e ∈ slice.held (r.globals slice planId)) :
    r.partReport slice planId (r.globals slice planId) e.2 =
      (e.2.holdBack planId e.1 (slice.unmetGlobals (r.globals slice planId) e.2)).1 :=
  if_pos (List.mem_filter.mp he).2

theorem partReport_of_runnable {e : String × HostPlan}
    (he : e ∈ slice.runnable (r.globals slice planId)) :
    r.partReport slice planId (r.globals slice planId) e.2 =
      (r.runSteps planId e.2.host e.2.steps).1 :=
  if_neg (by simpa using (List.mem_filter.mp he).2)

/-- What is filed for the host plans, by the names it is filed under. -/
def partReports (r : Runner) (slice : Slice) (planId : String) : Dict Report :=
  Dict.ofList <| (slice.filings (r.globals slice planId)).map fun e =>
    (e.1, r.partReport slice planId (r.globals slice planId) e.2)

/-- A run is made of the global steps and of what is filed for each host plan. -/
theorem runParts_eq (r : Runner) (slice : Slice) (planId : String) :
    r.runParts slice planId =
      ((r.partReports slice planId).values.foldl .merge (r.globals slice planId),
       (r.runGlobals slice planId).2 ++ r.heldTrace slice planId ++
         r.announce (slice.runnable (r.globals slice planId)).length ++
         (r.hostTraces slice planId).flatten) := by
  have hheld : (slice.held (r.globals slice planId)).map (fun e =>
        (e.1, r.partReport slice planId (r.globals slice planId) e.2)) =
      (slice.held (r.globals slice planId)).map fun e => (e.1,
        (e.2.holdBack planId e.1 (slice.unmetGlobals (r.globals slice planId) e.2)).1) :=
    List.map_congr_left fun e he => by rw [partReport_of_held he]
  have hran : (slice.runnable (r.globals slice planId)).map (fun e =>
        (e.2.host.id, r.partReport slice planId (r.globals slice planId) e.2)) =
      (slice.runnable (r.globals slice planId)).map fun e =>
        (e.2.host.id, (r.runSteps planId e.2.host e.2.steps).1) :=
    List.map_congr_left fun e he => by rw [partReport_of_runnable he]
  have hfiled : (slice.filings (r.globals slice planId)).map (fun e =>
        (e.1, r.partReport slice planId (r.globals slice planId) e.2)) =
      (slice.held (r.globals slice planId)).map (fun e => (e.1,
        (e.2.holdBack planId e.1 (slice.unmetGlobals (r.globals slice planId) e.2)).1)) ++
      (slice.runnable (r.globals slice planId)).map fun e =>
        (e.2.host.id, (r.runSteps planId e.2.host e.2.steps).1) := by
    rw [← hheld, ← hran, Slice.filings, List.map_append, List.map_map]
    rfl
  have hholds : (fun e : String × HostPlan => slice.isHeld (r.globals slice planId) e.2) =
      (fun x => !x.2.2.isEmpty) ∘ fun e : String × HostPlan =>
        (e.1, e.2, slice.unmetGlobals (r.globals slice planId) e.2) := rfl
  have hruns : (fun e : String × HostPlan => !slice.isHeld (r.globals slice planId) e.2) =
      (fun x => x.2.2.isEmpty) ∘ fun e : String × HostPlan =>
        (e.1, e.2, slice.unmetGlobals (r.globals slice planId) e.2) :=
    funext fun e => Bool.not_not _
  rw [partReports, hfiled, heldTrace, hostTraces, Slice.held, Slice.runnable, hholds, hruns]
  unfold runParts globals
  simp only [List.filter_map, List.map_map, List.map_append, List.length_map, List.flatMap_map,
    List.flatten_eq_flatMap, List.flatMap_map]
  rfl

theorem runParts_steps (r : Runner) (slice : Slice) (planId : String) :
    (r.runParts slice planId).1.steps = (r.globals slice planId).steps ++
      (r.partReports slice planId).values.flatMap (·.steps) := by
  rw [runParts_eq, Report.foldl_merge_steps]

/-! ### Plans kept under their hosts' ids -/

/-- The filed reports stand in the order of the host plans. -/
theorem partReports_entries_of_keyed (h : slice.Keyed) :
    (r.partReports slice planId).entries = slice.hostPlans.entries.map fun e =>
      (e.1, r.partReport slice planId (r.globals slice planId) e.2) := by
  set filed := (slice.filings (r.globals slice planId)).map fun e =>
    (e.1, r.partReport slice planId (r.globals slice planId) e.2) with hfiled
  have hperm : filed.Perm (slice.hostPlans.entries.map fun e =>
      (e.1, r.partReport slice planId (r.globals slice planId) e.2)) :=
    h.filings_perm.map _
  have hsorted : (slice.hostPlans.entries.map fun e =>
      (e.1, r.partReport slice planId (r.globals slice planId) e.2)).Pairwise
        (fun a b => a.1 < b.1) := by
    rw [List.pairwise_map]
    exact slice.hostPlans.sorted
  have hnodup : (filed.map (·.1)).Nodup :=
    (hperm.map _).nodup_iff.mpr (Dict.nodup_names hsorted)
  exact Dict.eq_of_perm (Dict.sorted _) hsorted
    ((Dict.ofList_perm_of_nodup hnodup).trans hperm)

/-- **The merged report lists the global steps and then the host plans in their order.** -/
theorem runParts_steps_of_keyed (h : slice.Keyed) :
    (r.runParts slice planId).1.steps = (r.globals slice planId).steps ++
      slice.hostPlans.entries.flatMap fun e =>
        (r.partReport slice planId (r.globals slice planId) e.2).steps := by
  rw [runParts_steps, Dict.values, partReports_entries_of_keyed h, List.map_map, List.flatMap_map]
  rfl

/-! ### Refusals -/

theorem dispatch_eq_ok_iff {result : Report × Trace} :
    r.dispatch slice planId = .ok result ↔
      slice.runError? planId = none ∧ result = r.runParts slice planId := by
  unfold dispatch
  split
  · rename_i e herr
    simp [herr]
  · rename_i hnone
    simp [hnone, eq_comm]

theorem dispatch_eq_error_iff {e : RunError} :
    r.dispatch slice planId = .error e ↔ slice.runError? planId = some e := by
  unfold dispatch
  split
  · rename_i found herr
    simp [herr]
  · rename_i hnone
    simp [hnone]

end Runner

end FleetPlan
