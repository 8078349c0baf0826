/-
What a run leaves, but for its times.

Records and reports carry times, and nothing that a run does depends on them.  The
limit on the hosts that run at once does not matter either, as long as one host runs
after another: a step is decided on by the options' filter, the progress before it and
what is in charge of its action.  So a run at another time and with another limit
(`Runner.under`) leaves the same report and, of each host, the same events, once the
times are left out.  The limit is told in one log line, which is about no host.

Leaving times out is one way to look at records.  Two runners that report the same of
every list of steps, looked at in whatever way keeps who succeeded, report the same of a
sliced plan: that is `Corresponds`.
-/
import FleetPlan.Proofs.Agent
import FleetPlan.Proofs.Events

namespace FleetPlan

/-! ### Reports with changed records -/

/-- The report with a change made to each of its records. -/
def Report.mapRecords (f : StepRecord → StepRecord) (report : Report) : Report :=
  { report with steps := report.steps.map f }

namespace StepRecord.KeepsOutcome

variable {f : StepRecord → StepRecord} (hf : KeepsOutcome f)

include hf

theorem aggregateStatus_map (records : List StepRecord) :
    aggregateStatus (records.map f) = aggregateStatus records := by
  simp only [aggregateStatus, List.any_map, Function.comp_def, hf.status]

theorem ofSteps (planId : String) (records : List StepRecord) :
    (Report.ofSteps planId records).mapRecords f = .ofSteps planId (records.map f) := by
  rw [Report.ofSteps, Report.ofSteps, hf.aggregateStatus_map]
  rfl

theorem merge (report other : Report) :
    (report.merge other).mapRecords f = (report.mapRecords f).merge (other.mapRecords f) := by
  simp only [Report.merge, Report.mapRecords, ← List.map_append, hf.aggregateStatus_map]

theorem foldl_merge (reports : List Report) (report : Report) :
    (reports.foldl .merge report).mapRecords f =
      (reports.map (·.mapRecords f)).foldl .merge (report.mapRecords f) := by
  induction reports generalizing report with
  | nil => rfl
  | cons other rest ih => rw [List.foldl_cons, ih, List.map_cons, List.foldl_cons, hf.merge]

/-- What a host plan still waits for is told by the changed records too. -/
theorem unmetGlobals (slice : Slice) (globals : Report) (part : HostPlan) :
    slice.unmetGlobals (globals.mapRecords f) part = slice.unmetGlobals globals part := by
  have hsucceeded : ((globals.steps.map f).filter (·.status == .succeeded)).map (·.stepId) =
      (globals.steps.filter (·.status == .succeeded)).map (·.stepId) := by
    simp only [List.filter_map, List.map_map, Function.comp_def, hf.status, hf.stepId]
  unfold Slice.unmetGlobals
  rw [← hsucceeded]
  rfl

end StepRecord.KeepsOutcome

/-! ### Reports and traces but for their times -/

namespace Report

/-- The report without its times. -/
def untimed (report : Report) : Report :=
  { report with steps := report.steps.map (·.untimed) }

theorem ofSteps_untimed (planId : String) (records : List StepRecord) :
    (ofSteps planId records).untimed = ofSteps planId (records.map (·.untimed)) :=
  StepRecord.keepsOutcome_untimed.ofSteps planId records

theorem foldl_merge_untimed (reports : List Report) (report : Report) :
    (reports.foldl .merge report).untimed =
      (reports.map (·.untimed)).foldl .merge report.untimed :=
  StepRecord.keepsOutcome_untimed.foldl_merge reports report

end Report

/-- The event without the times in it. -/
def RunEvent.untimed : RunEvent → RunEvent
  | .started host n => .started host n
  | .called step c => .called step c
  | .recorded record => .recorded record.untimed
  | .finished host report => .finished host report.untimed
  | .logged l => .logged l

@[simp] theorem RunEvent.host?_untimed (e : RunEvent) : e.untimed.host? = e.host? := by
  cases e <;> rfl

@[simp] theorem RunEvent.call?_untimed (e : RunEvent) : e.untimed.call? = e.call? := by
  cases e <;> rfl

namespace Trace

/-- The trace without the times in it. -/
def untimed (trace : Trace) : Trace := trace.map (·.untimed)

variable {xs ys : Trace} {parts : List Trace}

theorem untimed_append : untimed (xs ++ ys) = untimed xs ++ untimed ys := List.map_append

@[simp] theorem length_untimed (trace : Trace) : trace.untimed.length = trace.length :=
  List.length_map _

theorem untimed_flatten : untimed parts.flatten = (parts.map untimed).flatten := List.map_flatten

/-- Times do not matter for which host an event is about. -/
theorem on_untimed (key : String) (trace : Trace) : trace.untimed.on key = (trace.on key).untimed := by
  rw [on, untimed, List.filter_map]
  exact congrArg _ (List.filter_congr fun e _ => by rw [Function.comp, e.host?_untimed])

theorem calls_untimed (trace : Trace) : trace.untimed.calls = trace.calls := by
  rw [calls, untimed, List.filterMap_map]
  exact List.filterMap_congr fun e _ => e.call?_untimed

end Trace

namespace Runner

/-! ### Runners whose reports differ in their records -/

/-- Runners that report the same of every list of steps, once their records are changed. -/
structure Corresponds (r r' : Runner) (f f' : StepRecord → StepRecord) : Prop where
  keeps : StepRecord.KeepsOutcome f
  keeps' : StepRecord.KeepsOutcome f'
  /-- The records of a host plan that is held back are changed alike. -/
  skipped (stepId : String) (host : Host) (code : StepErrorCode) (message : String) :
    f (.skipped stepId host code message) = f' (.skipped stepId host code message)
  runSteps (planId : String) (host : Host) (steps : List HostStep) :
    (r.runSteps planId host steps).1.mapRecords f = (r'.runSteps planId host steps).1.mapRecords f'

namespace Corresponds

variable {r r' : Runner} {f f' : StepRecord → StepRecord} (h : Corresponds r r' f f')

include h

theorem globals (slice : Slice) (planId : String) :
    (r.globals slice planId).mapRecords f = (r'.globals slice planId).mapRecords f' := by
  unfold Runner.globals runGlobals
  split
  · rfl
  · exact h.runSteps planId .fleet _

theorem unmetGlobals (slice : Slice) (planId : String) (part : HostPlan) :
    slice.unmetGlobals (r.globals slice planId) part =
      slice.unmetGlobals (r'.globals slice planId) part := by
  rw [← h.keeps.unmetGlobals, h.globals, h.keeps'.unmetGlobals]

theorem isHeld (slice : Slice) (planId : String) (part : HostPlan) :
    slice.isHeld (r.globals slice planId) part = slice.isHeld (r'.globals slice planId) part := by
  rw [Slice.isHeld, Slice.isHeld, h.unmetGlobals]

theorem heldBack (part : HostPlan) (planId : String) (unmet : List String) :
    (part.heldBack planId unmet).mapRecords f = (part.heldBack planId unmet).mapRecords f' := by
  unfold HostPlan.heldBack
  rw [h.keeps.ofSteps, h.keeps'.ofSteps, List.map_map, List.map_map]
  exact congrArg _ (List.map_congr_left fun step _ => h.skipped _ _ _ _)

theorem partReport (slice : Slice) (planId : String) (part : HostPlan) :
    (r.partReport slice planId (r.globals slice planId) part).mapRecords f =
      (r'.partReport slice planId (r'.globals slice planId) part).mapRecords f' := by
  unfold Runner.partReport
  rw [h.isHeld, h.unmetGlobals]
  split
  · exact h.heldBack part planId _
  · exact h.runSteps planId part.host part.steps

/-- **The merged reports are the same, once their records are changed.** -/
theorem runParts {slice : Slice} (hkeyed : slice.Keyed) (planId : String) :
    (r.runParts slice planId).1.mapRecords f = (r'.runParts slice planId).1.mapRecords f' := by
  rw [runParts_eq, runParts_eq, h.keeps.foldl_merge, h.keeps'.foldl_merge, h.globals, Dict.values,
    Dict.values, partReports_entries_of_keyed hkeyed, partReports_entries_of_keyed hkeyed,
    List.map_map, List.map_map, List.map_map, List.map_map]
  exact congrArg _ (List.map_congr_left fun e _ => h.partReport slice planId e.2)

end Corresponds

/-! ### Another time and another limit -/

/-- The same executors, asked for the same, at another time and with another limit. -/
def under (r : Runner) (maxParallel : Json.IntIn .count) (now : String) : Runner :=
  ⟨r.registry, { r.options with maxParallel := maxParallel }, now⟩

variable {r : Runner} {m : Json.IntIn .count} {now : String} {c : RunContext} {p : Progress}
variable {slice : Slice} {planId : String}

/-! ### Running a list of steps -/

theorem runStep_under (step : HostStep) :
    ((r.under m now).runStep c p step).1.untimed = (r.runStep c p step).1.untimed ∧
      ((r.under m now).runStep c p step).2 = (r.runStep c p step).2 := by
  unfold runStep
  rw [show (r.under m now).decision p step = r.decision p step from rfl]
  cases r.decision p step with
  | skip code message => exact ⟨rfl, rfl⟩
  | attempt executor =>
    dsimp only [attempt]
    cases executor step c <;> exact ⟨rfl, rfl⟩

theorem runFrom_under (steps : List HostStep) :
    ((r.under m now).runFrom c p steps).1.map (·.untimed) =
        (r.runFrom c p steps).1.map (·.untimed) ∧
      ((r.under m now).runFrom c p steps).2.untimed = (r.runFrom c p steps).2.untimed := by
  induction steps generalizing p with
  | nil => exact ⟨rfl, rfl⟩
  | cons step rest ih =>
    obtain ⟨hrecord, htrace⟩ := @runStep_under r m now c p step
    have hafter : p.after ((r.under m now).runStep c p step).1 = p.after (r.runStep c p step).1 := by
      rw [← p.after_untimed, hrecord, p.after_untimed]
    obtain ⟨hrecords, hlater⟩ := ih (p := p.after (r.runStep c p step).1)
    have hevent : (RunEvent.recorded ((r.under m now).runStep c p step).1).untimed =
        (RunEvent.recorded (r.runStep c p step).1).untimed := congrArg RunEvent.recorded hrecord
    rw [runFrom_cons, runFrom_cons, hafter]
    constructor
    · rw [List.map_cons, List.map_cons, hrecord, hrecords]
    · rw [Trace.untimed_append, Trace.untimed_append, htrace]
      refine congrArg _ ?_
      exact congrArg₂ List.cons hevent hlater

theorem runSteps_under (host : Host) (steps : List HostStep) :
    ((r.under m now).runSteps planId host steps).1.untimed =
        (r.runSteps planId host steps).1.untimed ∧
      ((r.under m now).runSteps planId host steps).2.untimed =
        (r.runSteps planId host steps).2.untimed := by
  obtain ⟨hrecords, htrace⟩ := @runFrom_under r m now ⟨planId, host, r.options.dryRun⟩ .start steps
  have hreport : ((r.under m now).runSteps planId host steps).1.untimed =
      (r.runSteps planId host steps).1.untimed := by
    refine (Report.ofSteps_untimed _ _).trans (Eq.trans ?_ (Report.ofSteps_untimed _ _).symm)
    exact congrArg _ hrecords
  refine ⟨hreport, ?_⟩
  show RunEvent.started host steps.length :: Trace.untimed (_ ++ [.finished host _]) =
    RunEvent.started host steps.length :: Trace.untimed (_ ++ [.finished host _])
  rw [Trace.untimed_append, Trace.untimed_append]
  refine congrArg _ (congrArg₂ _ htrace ?_)
  exact congrArg (fun report => [RunEvent.finished host report]) hreport

/-! ### Running a sliced plan -/

theorem runGlobals_under :
    ((r.under m now).globals slice planId).untimed = (r.globals slice planId).untimed ∧
      ((r.under m now).runGlobals slice planId).2.untimed =
        (r.runGlobals slice planId).2.untimed := by
  unfold globals runGlobals
  split
  · exact ⟨rfl, rfl⟩
  · exact runSteps_under _ _

theorem corresponds_under (r : Runner) (m : Json.IntIn .count) (now : String) :
    Corresponds (r.under m now) r (·.untimed) (·.untimed) where
  keeps := StepRecord.keepsOutcome_untimed
  keeps' := StepRecord.keepsOutcome_untimed
  skipped _ _ _ _ := rfl
  runSteps _ host steps := (runSteps_under host steps).1

theorem held_under :
    slice.held ((r.under m now).globals slice planId) = slice.held (r.globals slice planId) :=
  List.filter_congr fun e _ => (r.corresponds_under m now).isHeld slice planId e.2

theorem runnable_under :
    slice.runnable ((r.under m now).globals slice planId) =
      slice.runnable (r.globals slice planId) :=
  List.filter_congr fun e _ => by rw [(r.corresponds_under m now).isHeld]

theorem heldTrace_under : (r.under m now).heldTrace slice planId = r.heldTrace slice planId := by
  unfold heldTrace
  rw [held_under]
  exact List.flatMap_congr fun e _ => by rw [(r.corresponds_under m now).unmetGlobals]

theorem hostTraces_under :
    ((r.under m now).hostTraces slice planId).map (·.untimed) =
      (r.hostTraces slice planId).map (·.untimed) := by
  unfold hostTraces
  rw [runnable_under, List.map_map, List.map_map]
  exact List.map_congr_left fun e _ => (runSteps_under _ _).2

/-- **The merged report does not depend on the time or on the limit.** -/
theorem runParts_report_under (hkeyed : slice.Keyed) :
    ((r.under m now).runParts slice planId).1.untimed = (r.runParts slice planId).1.untimed :=
  (r.corresponds_under m now).runParts hkeyed planId

/-- What is seen of a host does not depend on them either. -/
theorem runParts_on_under (key : String) :
    (((r.under m now).runParts slice planId).2.on key).untimed =
      ((r.runParts slice planId).2.on key).untimed := by
  have hhosts : Trace.untimed ((r.under m now).hostTraces slice planId).flatten =
      Trace.untimed (r.hostTraces slice planId).flatten := by
    rw [Trace.untimed_flatten, Trace.untimed_flatten, hostTraces_under]
  rw [← Trace.on_untimed, ← Trace.on_untimed, runParts_eq, runParts_eq]
  simp only [Trace.untimed_append, Trace.on_append, runGlobals_under.2, heldTrace_under, hhosts,
    Trace.on_untimed, on_announce]

end Runner

end FleetPlan
