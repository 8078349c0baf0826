/-
What running a list of steps records and calls.

A step lemma says what becomes of one step, and an induction over the list carries it
to the run.  Two facts come out.  Every step has one record, in the order of the list.
And a step is called only when everything it depends on has been called before it and
has succeeded: `Progress.succeeded` holds an id just when a record of success was made
under it, and such a record is made of called steps only.
-/
import FleetPlan.Run.Steps

namespace FleetPlan

/-! ### Calls, and where an event stands in a trace -/

/-- The call that an event is, if it is one. -/
def RunEvent.call? : RunEvent → Option (HostStep × RunContext)
  | .called step c => some (step, c)
  | _ => none

/-- The calls of a trace, in their order. -/
def Trace.calls (trace : Trace) : List (HostStep × RunContext) := trace.filterMap RunEvent.call?

theorem Trace.mem_calls {trace : Trace} {step : HostStep} {c : RunContext} :
    (step, c) ∈ trace.calls ↔ .called step c ∈ trace := by
  rw [calls, List.mem_filterMap]
  constructor
  · rintro ⟨event, hmem, hcall⟩
    cases event <;> simp [RunEvent.call?] at hcall
    obtain ⟨rfl, rfl⟩ := hcall
    exact hmem
  · exact fun hmem => ⟨_, hmem, rfl⟩

theorem Trace.calls_append {xs ys : Trace} : calls (xs ++ ys) = calls xs ++ calls ys :=
  List.filterMap_append ..

/-- Nothing is picked out of log lines when log lines are not looked for. -/
theorem Trace.filterMap_eq_nil_of_logged {β : Type} {trace : Trace} {f : RunEvent → Option β}
    (hf : ∀ l, f (.logged l) = none) (h : ∀ e ∈ trace, ∃ l, e = RunEvent.logged l) :
    trace.filterMap f = [] := by
  rw [List.filterMap_eq_nil_iff]
  intro e he
  obtain ⟨l, rfl⟩ := h e he
  exact hf l

/-- An event of two traces run together stands in the first, or behind all of it. -/
theorem Trace.split_append {xs ys before after : Trace} {e : RunEvent}
    (h : xs ++ ys = before ++ e :: after) :
    (∃ mid, xs = before ++ e :: mid ∧ after = mid ++ ys) ∨
      ∃ mid, before = xs ++ mid ∧ ys = mid ++ e :: after := by
  rcases List.append_eq_append_iff.mp h with ⟨mid, rfl, hys⟩ | ⟨mid, rfl, hys⟩
  · exact .inr ⟨mid, rfl, hys⟩
  · cases mid with
    | nil => exact .inr ⟨[], by simp, by simpa using hys.symm⟩
    | cons f mid =>
      rw [List.cons_append, List.cons.injEq] at hys
      obtain ⟨rfl, rfl⟩ := hys
      exact .inl ⟨mid, rfl, rfl⟩

namespace Progress

theorem mem_after_succeeded {p : Progress} {record : StepRecord} {id : String} :
    id ∈ (p.after record).succeeded ↔
      id ∈ p.succeeded ∨ record.status = .succeeded ∧ id = record.stepId := by
  unfold after
  split
  · rename_i hstatus
    simp [hstatus, or_comm]
  · rename_i hstatus
    simp [hstatus]
  · rename_i hne _
    exact ⟨.inl, fun h => h.elim (fun h => h) fun h => absurd h.1 hne⟩

end Progress

/-- A change to records that leaves what the rest of a run is decided by. -/
structure StepRecord.KeepsOutcome (f : StepRecord → StepRecord) : Prop where
  stepId (record : StepRecord) : (f record).stepId = record.stepId
  status (record : StepRecord) : (f record).status = record.status

theorem StepRecord.KeepsOutcome.progress_after {f : StepRecord → StepRecord} (hf : KeepsOutcome f)
    (p : Progress) (record : StepRecord) : p.after (f record) = p.after record := by
  rw [Progress.after, Progress.after, hf.status, hf.stepId]

namespace Runner

variable {r : Runner} {c : RunContext} {p : Progress} {step : HostStep}

/-! ### One step -/

/-- An attempted step was let through by every check. -/
theorem decision_eq_attempt {executor : Executor} (h : r.decision p step = .attempt executor) :
    p.failed = none ∧ r.options.includes step.id = true ∧
      (∀ d ∈ step.dependsOn, d ∈ p.succeeded) ∧ r.registry.get? step.action = some executor := by
  unfold decision at h
  split at h
  · simp at h
  · rename_i hfailed
    split at h
    · simp at h
    · rename_i hincluded
      split at h
      · simp at h
      · rename_i hfind
        split at h
        · rename_i found hget
          obtain rfl : found = executor := by simpa using h
          refine ⟨hfailed, by simpa using hincluded, fun d hd => ?_, hget⟩
          simpa using List.find?_eq_none.mp hfind d hd
        · simp at h

/-- Decisions that are the same but for what is in charge of an attempted step. -/
inductive Decision.Rel (R : Executor → Executor → Prop) : Decision → Decision → Prop where
  | skip (code : StepErrorCode) (message : String) : Rel R (.skip code message) (.skip code message)
  | attempt {executor executor' : Executor} (h : R executor executor') :
    Rel R (.attempt executor) (.attempt executor')

/-- A step is decided on by the filter, the progress before it and what is in charge of it. -/
theorem decision_rel {R : Executor → Executor → Prop} {r r' : Runner}
    (hfilter : r.options.stepFilter = r'.options.stepFilter)
    (hregistry : ∀ action, Option.Rel R (r.registry.get? action) (r'.registry.get? action))
    (p : Progress) (step : HostStep) : Decision.Rel R (r.decision p step) (r'.decision p step) := by
  have hincludes : r.options.includes step.id = r'.options.includes step.id := by
    rw [RunOptions.includes, RunOptions.includes, hfilter]
  have hfound := hregistry step.action
  unfold decision
  rw [hincludes]
  cases p.failed with
  | some failed => exact .skip _ _
  | none =>
    dsimp only
    split
    · exact .skip _ _
    · cases step.dependsOn.find? (!p.succeeded.contains ·) with
      | some d => exact .skip _ _
      | none =>
        generalize r.registry.get? step.action = found at hfound
        generalize r'.registry.get? step.action = found' at hfound
        cases hfound with
        | none => exact .skip _ _
        | some h => exact .attempt h

/-- A step is attempted or passed over, and only a call puts more than a log line out. -/
theorem runStep_cases (r : Runner) (c : RunContext) (p : Progress) (step : HostStep) :
    (∃ executor told, r.decision p step = .attempt executor ∧
      (∀ e ∈ told, ∃ l, e = RunEvent.logged l) ∧
      r.runStep c p step = (r.recordOf c step (executor step c), .called step c :: told)) ∨
    ∃ code message l, r.decision p step = .skip code message ∧
      r.runStep c p step = (.skipped step.id c.host code message, [.logged l]) := by
  unfold runStep
  split
  · rename_i executor hdecision
    refine .inl ⟨executor, _, hdecision, ?_, rfl⟩
    intro e he
    split at he
    · simp at he
    · exact ⟨_, by simpa using he⟩
  · rename_i code message hdecision
    exact .inr ⟨code, message, _, hdecision, rfl⟩

@[simp] theorem recordOf_stepId {result : Except Failure (List OutputLine)} :
    (r.recordOf c step result).stepId = step.id := by
  cases result <;> rfl

@[simp] theorem recordOf_host {result : Except Failure (List OutputLine)} :
    (r.recordOf c step result).host = c.host := by
  cases result <;> rfl

@[simp] theorem runStep_stepId : (r.runStep c p step).1.stepId = step.id := by
  rcases r.runStep_cases c p step with ⟨_, _, -, -, h⟩ | ⟨_, _, _, -, h⟩
  · rw [h, recordOf_stepId]
  · rw [h]; rfl

@[simp] theorem runStep_host : (r.runStep c p step).1.host = c.host := by
  rcases r.runStep_cases c p step with ⟨_, _, -, -, h⟩ | ⟨_, _, _, -, h⟩
  · rw [h, recordOf_host]
  · rw [h]; rfl

/-- Only a step that was called has succeeded. -/
theorem called_of_runStep_succeeded (h : (r.runStep c p step).1.status = .succeeded) :
    .called step c ∈ (r.runStep c p step).2 := by
  rcases r.runStep_cases c p step with ⟨_, _, -, -, hrun⟩ | ⟨_, _, _, -, hrun⟩
  · rw [hrun]
    exact List.mem_cons_self
  · rw [hrun] at h
    exact StepStatus.noConfusion h

/-- A step is called first of all, and only after its dependencies have succeeded. -/
theorem runStep_called {before after : Trace} {called : HostStep} {c' : RunContext}
    (h : (r.runStep c p step).2 = before ++ .called called c' :: after) :
    called = step ∧ c' = c ∧ ∀ d ∈ step.dependsOn, d ∈ p.succeeded := by
  rcases r.runStep_cases c p step with ⟨executor, told, hdecision, htold, hrun⟩ | ⟨_, _, l, -, hrun⟩
  · rw [hrun] at h
    cases before with
    | nil =>
      obtain ⟨hcalled, -⟩ := List.cons.inj h
      obtain ⟨rfl, rfl⟩ := RunEvent.called.inj hcalled
      exact ⟨rfl, rfl, (decision_eq_attempt hdecision).2.2.1⟩
    | cons e before =>
      obtain ⟨-, htail⟩ := List.cons.inj h
      obtain ⟨l, hl⟩ := htold (.called called c') (by simp [htail])
      exact RunEvent.noConfusion hl
  · rw [hrun] at h
    have hmem : RunEvent.called called c' ∈ [RunEvent.logged l] := by
      rw [show [RunEvent.logged l] = before ++ .called called c' :: after from h]
      simp
    simp at hmem

/-! ### All steps -/

theorem runFrom_cons (rest : List HostStep) :
    r.runFrom c p (step :: rest) =
      ((r.runStep c p step).1 :: (r.runFrom c (p.after (r.runStep c p step).1) rest).1,
       (r.runStep c p step).2 ++ .recorded (r.runStep c p step).1 ::
        (r.runFrom c (p.after (r.runStep c p step).1) rest).2) := rfl

/-- Two runs that record the same of each step, once the records are changed, do so of all steps. -/
theorem runFrom_map_congr {r r' : Runner} {c c' : RunContext} {f f' : StepRecord → StepRecord}
    (hf : StepRecord.KeepsOutcome f) (hf' : StepRecord.KeepsOutcome f')
    (hstep : ∀ p step, f (r.runStep c p step).1 = f' (r'.runStep c' p step).1) (p : Progress)
    (steps : List HostStep) :
    (r.runFrom c p steps).1.map f = (r'.runFrom c' p steps).1.map f' := by
  induction steps generalizing p with
  | nil => rfl
  | cons step rest ih =>
    have hafter : p.after (r.runStep c p step).1 = p.after (r'.runStep c' p step).1 := by
      rw [← hf.progress_after, hstep, hf'.progress_after]
    rw [runFrom_cons, runFrom_cons, List.map_cons, List.map_cons, hstep, hafter, ih]

/-- The calls of the first step come before those of the rest. -/
theorem runFrom_cons_calls (rest : List HostStep) :
    (r.runFrom c p (step :: rest)).2.calls = (r.runStep c p step).2.calls ++
      (r.runFrom c (p.after (r.runStep c p step).1) rest).2.calls := by
  rw [runFrom_cons]
  exact Trace.calls_append

/-- Every step has one record, in the order of the list. -/
theorem runFrom_records (r : Runner) (c : RunContext) (p : Progress) (steps : List HostStep) :
    (r.runFrom c p steps).1.map (fun record => (record.stepId, record.host)) =
      steps.map (fun step => (step.id, c.host)) := by
  induction steps generalizing p with
  | nil => rfl
  | cons step rest ih =>
    rw [runFrom_cons, List.map_cons, List.map_cons, ih, runStep_stepId, runStep_host]

/-- A record of success is that of a step that was called. -/
theorem called_of_runFrom_succeeded {steps : List HostStep} {record : StepRecord}
    (hmem : record ∈ (r.runFrom c p steps).1) (h : record.status = .succeeded) :
    ∃ step ∈ steps, step.id = record.stepId ∧ .called step c ∈ (r.runFrom c p steps).2 := by
  induction steps generalizing p with
  | nil => simp [runFrom] at hmem
  | cons step rest ih =>
    rw [runFrom_cons] at hmem ⊢
    rcases List.mem_cons.mp hmem with rfl | hmem
    · exact ⟨step, List.mem_cons_self, runStep_stepId.symm,
        List.mem_append_left _ (called_of_runStep_succeeded h)⟩
    · obtain ⟨s, hs, hid, hcalled⟩ := ih hmem
      exact ⟨s, List.mem_cons_of_mem _ hs, hid,
        List.mem_append_right _ (List.mem_cons_of_mem _ hcalled)⟩

/--
**A step is called only after what it depends on.**  Each dependency either had
succeeded before the list was begun, or it was called earlier in the trace and has a
record of success.
-/
theorem runFrom_called {steps : List HostStep} {before after : Trace} {called : HostStep}
    {c' : RunContext} (h : (r.runFrom c p steps).2 = before ++ .called called c' :: after) :
    called ∈ steps ∧ c' = c ∧ ∀ d ∈ called.dependsOn, d ∈ p.succeeded ∨
      (∃ s, s.id = d ∧ .called s c ∈ before) ∧
        ∃ record ∈ (r.runFrom c p steps).1, record.stepId = d ∧ record.status = .succeeded := by
  induction steps generalizing p before with
  | nil => simp [runFrom] at h
  | cons step rest ih =>
    rw [runFrom_cons] at h ⊢
    rcases Trace.split_append h with ⟨mid, hstep, -⟩ | ⟨mid, hbefore, hrest⟩
    · obtain ⟨rfl, rfl, hdeps⟩ := runStep_called hstep
      exact ⟨List.mem_cons_self, rfl, fun d hd => .inl (hdeps d hd)⟩
    · cases mid with
      | nil => exact RunEvent.noConfusion (List.cons.inj hrest).1
      | cons e mid =>
        obtain ⟨rfl, hlater⟩ := List.cons.inj hrest
        obtain ⟨hmem, rfl, hdeps⟩ := ih hlater
        refine ⟨List.mem_cons_of_mem _ hmem, rfl, ?_⟩
        intro d hd
        rcases hdeps d hd with hsucceeded | ⟨⟨s, hid, hs⟩, record, hrecord, hdone⟩
        · -- What succeeded up to here had succeeded before, or it is this step.
          rcases Progress.mem_after_succeeded.mp hsucceeded with hearlier | ⟨hstatus, rfl⟩
          · exact .inl hearlier
          · refine .inr ⟨⟨step, runStep_stepId.symm, ?_⟩, _, List.mem_cons_self, rfl, hstatus⟩
            rw [hbefore]
            exact List.mem_append_left _ (called_of_runStep_succeeded hstatus)
        · refine .inr ⟨⟨s, hid, ?_⟩, record, List.mem_cons_of_mem _ hrecord, hdone⟩
          rw [hbefore]
          exact List.mem_append_right _ (List.mem_cons_of_mem _ hs)

/-! ### A run with its frame -/

theorem runSteps_records (r : Runner) (planId : String) (host : Host) (steps : List HostStep) :
    (r.runSteps planId host steps).1.steps.map (fun record => (record.stepId, record.host)) =
      steps.map (fun step => (step.id, host)) :=
  r.runFrom_records _ _ steps

/-- The frame of a run calls nothing. -/
theorem runSteps_calls (r : Runner) (planId : String) (host : Host) (steps : List HostStep) :
    (r.runSteps planId host steps).2.calls =
      (r.runFrom ⟨planId, host, r.options.dryRun⟩ .start steps).2.calls :=
  Trace.calls_append.trans (List.append_nil _)

theorem called_of_runSteps_succeeded {planId : String} {host : Host} {steps : List HostStep}
    {record : StepRecord} (hmem : record ∈ (r.runSteps planId host steps).1.steps)
    (h : record.status = .succeeded) :
    ∃ step ∈ steps, step.id = record.stepId ∧
      .called step ⟨planId, host, r.options.dryRun⟩ ∈ (r.runSteps planId host steps).2 := by
  obtain ⟨step, hstep, hid, hcalled⟩ := called_of_runFrom_succeeded hmem h
  refine ⟨step, hstep, hid, ?_⟩
  exact List.mem_cons_of_mem _ (List.mem_append_left _ hcalled)

theorem runSteps_called {planId : String} {host : Host} {steps : List HostStep}
    {before after : Trace} {called : HostStep} {c : RunContext}
    (h : (r.runSteps planId host steps).2 = before ++ .called called c :: after) :
    called ∈ steps ∧ c = ⟨planId, host, r.options.dryRun⟩ ∧
      ∀ d ∈ called.dependsOn, (∃ s, s.id = d ∧ .called s c ∈ before) ∧
      ∃ record ∈ (r.runSteps planId host steps).1.steps,
        record.stepId = d ∧ record.status = .succeeded := by
  cases before with
  | nil => exact RunEvent.noConfusion (List.cons.inj h).1
  | cons e before =>
    obtain ⟨-, htrace⟩ := List.cons.inj h
    rcases Trace.split_append htrace with ⟨mid, hrun, -⟩ | ⟨mid, -, hfinished⟩
    · obtain ⟨hmem, rfl, hdeps⟩ := runFrom_called hrun
      refine ⟨hmem, rfl, ?_⟩
      intro d hd
      rcases hdeps d hd with hstart | ⟨⟨s, hid, hs⟩, hrecord⟩
      · simp [Progress.start] at hstart
      · exact ⟨⟨s, hid, List.mem_cons_of_mem _ hs⟩, hrecord⟩
    · have hmem := congrArg (RunEvent.called called c ∈ ·) hfinished
      simp at hmem

end Runner

end FleetPlan
