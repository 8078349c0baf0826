/-
A refused run leaves nothing behind.

`Runner.dispatch` answers with a report and the events of the run, or with the reason why
there is no run, so it cannot say what a refusal leaves behind.  Here a run is a program
that tells its events one after another and may stop anywhere among them: lists of steps
are checked in a loop that ends at the first bad one, steps are called while others are
still to come, and the workers for the hosts are asked for when the global steps are
through.  `Performs` says of a program how it ends and what it has told by then, whatever
was told before, and is composed along the program.

The program is the run: they end alike, and what the program tells is the trace of the run
(`performs_dispatch`, `performs_execute`).  So a refusal comes before the first event,
wherever the bad list stands, and only when the workers cannot be had does a program stop
that has told something.
-/
import FleetPlan.Engine
import FleetPlan.Proofs.Messages
import FleetPlan.Proofs.Workers

namespace FleetPlan

/-! ### Programs that tell events -/

/-- Why a program stops. -/
inductive Halt (ε : Type) where
  /-- The run is refused for what was asked for. -/
  | refused (error : ε)
  /-- There are no workers to run the hosts on. -/
  | noWorkers (reason : String)

/-- A program that tells events and may stop. -/
abbrev Performance (ε α : Type) := ExceptT (Halt ε) (StateM Trace) α

/-- Tells events, in their order. -/
def tell {ε : Type} (told : Trace) : Performance ε Unit := modify (· ++ told)

/-- The refusals of a program, seen from outside. -/
def Halt.map {ε ε' : Type} (f : ε → ε') : Halt ε → Halt ε'
  | refused e => refused (f e)
  | noWorkers reason => noWorkers reason

/-- What is said of it, given what is said of refusals. -/
def Halt.message {ε : Type} (say : ε → String) : Halt ε → String
  | refused e => say e
  | noWorkers reason => "failed to create worker pool: " ++ reason

theorem RunError.message_ne_noWorkers (e : RunError) (reason : String) :
    e.message ≠ "failed to create worker pool: " ++ reason := by
  have hhead : e.message.toList.head? ≠ some 'f' := by
    rw [e.toList_message]
    cases e <;> simp [wording, Wording.chars]
  intro h
  rw [h] at hhead
  exact hhead (by simp)

/-- The want of workers is never taken for a refusal, nor one reason for another. -/
theorem Halt.message_injective : Function.Injective (Halt.message RunError.message)
  | refused _, refused _, h => congrArg refused (RunError.message_injective h)
  | refused e, noWorkers reason, h => absurd h (e.message_ne_noWorkers reason)
  | noWorkers reason, refused e, h => absurd h.symm (e.message_ne_noWorkers reason)
  | noWorkers _, noWorkers _, h => congrArg noWorkers ((String.append_right_inj _).mp h)

/-- The end of a program and what it has told by then, whatever was told before. -/
def Performs {ε α : Type} (program : Performance ε α) (result : Except (Halt ε) α)
    (told : Trace) : Prop :=
  ∀ earlier, program.run.run earlier = (result, earlier ++ told)

namespace Performs

variable {ε ε' α β : Type} {told later : Trace}

theorem pure (a : α) : Performs (Pure.pure a : Performance ε α) (.ok a) [] := by
  intro earlier
  rw [List.append_nil]
  rfl

theorem throw (s : Halt ε) : Performs (throw s : Performance ε α) (.error s) [] := by
  intro earlier
  rw [List.append_nil]
  rfl

theorem tell (told : Trace) : Performs (FleetPlan.tell told : Performance ε Unit) (.ok ()) told :=
  fun _ => rfl

/-- One program after another. -/
theorem bind {program : Performance ε α} {next : α → Performance ε β} {a : α}
    {result : Except (Halt ε) β} (h : Performs program (.ok a) told)
    (hnext : Performs (next a) result later) :
    Performs (program >>= next) result (told ++ later) := by
  intro earlier
  have hrun : (program >>= next).run.run earlier = (next a).run.run (earlier ++ told) := by
    change (ExceptT.bindCont next ((program.run.run earlier).1)).run (program.run.run earlier).2 = _
    rw [h earlier]
    rfl
  rw [hrun, hnext, List.append_assoc]

/-- Nothing comes after a program that stops. -/
theorem stop {program : Performance ε α} {s : Halt ε} (h : Performs program (.error s) told)
    (next : α → Performance ε β) : Performs (program >>= next) (.error s) told := by
  intro earlier
  change (ExceptT.bindCont next ((program.run.run earlier).1)).run (program.run.run earlier).2 = _
  rw [h earlier]
  rfl

theorem adapt {program : Performance ε α} {result : Except (Halt ε) α} {f : Halt ε → Halt ε'}
    (h : Performs program result told) :
    Performs (ExceptT.adapt f program) (result.mapError f) told := by
  intro earlier
  change ((program.run.run earlier).1.mapError f, (program.run.run earlier).2) = _
  rw [h earlier]

/-- A program ends in one way. -/
theorem eq {program : Performance ε α} {result : Except (Halt ε) α}
    (h : Performs program result told) {earlier : Trace} {result' : Except (Halt ε) α}
    {later : Trace} :
    program.run.run earlier = (result', later) ↔ result' = result ∧ later = earlier ++ told := by
  rw [h earlier, Prod.mk.injEq, eq_comm, eq_comm (a := later)]

end Performs

namespace Runner

variable (r : Runner)

/-! ### Demands -/

/-- How a check ends that has found this. -/
def checked : Option RunError → Except (Halt RunError) Unit
  | some e => .error (.refused e)
  | none => .ok ()

/-- Demands that a list of steps can be run in its order. -/
def demandOrder (host : Host) (steps : List HostStep) : Performance RunError Unit :=
  match orderError? host steps with
  | some e => throw (.refused e)
  | none => pure ()

/-- Demands that a host plan is for a host and can be run in its order. -/
def demandPart (planId : String) (part : HostPlan) : Performance RunError Unit :=
  if part.host.isGlobal then throw (.refused (.missingHost planId))
  else demandOrder part.host part.steps

/-- Demands it of host plans, one after another. -/
def demandParts (planId : String) : List HostPlan → Performance RunError Unit
  | [] => pure ()
  | part :: rest => do
    demandPart planId part
    demandParts planId rest

theorem performs_demandOrder (host : Host) (steps : List HostStep) :
    Performs (demandOrder host steps) (checked (orderError? host steps)) [] := by
  unfold demandOrder
  cases orderError? host steps with
  | some e => exact .throw _
  | none => exact .pure ()

theorem performs_demandPart (planId : String) (part : HostPlan) :
    Performs (demandPart planId part) (checked
      (if part.host.isGlobal then some (.missingHost planId)
        else orderError? part.host part.steps)) [] := by
  unfold demandPart
  split
  · exact .throw _
  · exact performs_demandOrder _ _

/-- The first host plan that cannot be run is where the loop over them ends. -/
theorem performs_demandParts (planId : String) (parts : List HostPlan) :
    Performs (demandParts planId parts) (checked <| parts.findSome? fun part =>
      if part.host.isGlobal then some (.missingHost planId)
        else orderError? part.host part.steps) [] := by
  induction parts with
  | nil => exact .pure ()
  | cons part rest ih =>
    rw [demandParts, List.findSome?_cons]
    have hpart := performs_demandPart planId part
    cases hfound : (if part.host.isGlobal then some (.missingHost planId)
        else orderError? part.host part.steps : Option RunError) with
    | some e =>
      rw [hfound] at hpart
      exact hpart.stop _
    | none =>
      rw [hfound] at hpart
      exact hpart.bind ih

/-! ### Steps -/

/-- The loop over the steps: each is recorded before the next one is looked at. -/
def performFrom (c : RunContext) : Progress → List HostStep → Performance RunError (List StepRecord)
  | _, [] => pure []
  | p, step :: rest => do
    tell (r.runStep c p step).2
    tell [.recorded (r.runStep c p step).1]
    let records ← performFrom c (p.after (r.runStep c p step).1) rest
    pure ((r.runStep c p step).1 :: records)

/-- Runs steps on a host. -/
def performSteps (planId : String) (host : Host) (steps : List HostStep) :
    Performance RunError Report := do
  tell [.started host steps.length]
  let records ← r.performFrom ⟨planId, host, r.options.dryRun⟩ .start steps
  tell [.finished host (.ofSteps planId records)]
  pure (.ofSteps planId records)

/-- Runs a host plan. -/
def performHostPlan (part : HostPlan) : Performance RunError Report := do
  demandPart part.planId part
  r.performSteps part.planId part.host part.steps

theorem performs_from (c : RunContext) (p : Progress) (steps : List HostStep) :
    Performs (r.performFrom c p steps) (.ok (r.runFrom c p steps).1) (r.runFrom c p steps).2 := by
  induction steps generalizing p with
  | nil => exact .pure []
  | cons step rest ih =>
    rw [runFrom_cons]
    refine (Performs.tell _).bind ((Performs.tell [_]).bind ?_)
    rw [← List.append_nil (r.runFrom c _ rest).2]
    exact (ih _).bind (.pure _)

theorem performs_steps (planId : String) (host : Host) (steps : List HostStep) :
    Performs (r.performSteps planId host steps) (.ok (r.runSteps planId host steps).1)
      (r.runSteps planId host steps).2 := by
  refine (Performs.tell [_]).bind ((r.performs_from _ .start steps).bind ?_)
  exact (Performs.tell [_]).bind (.pure _)

/-- Runs the global steps; without any nothing happens. -/
def performGlobals (slice : Slice) (planId : String) : Performance RunError Report :=
  if slice.globalSteps.isEmpty then pure (.ofSteps planId [])
  else r.performSteps planId .fleet (slice.globalSteps.map .ofStep)

theorem performs_globals (slice : Slice) (planId : String) :
    Performs (r.performGlobals slice planId) (.ok (r.globals slice planId))
      (r.runGlobals slice planId).2 := by
  unfold performGlobals globals runGlobals
  split
  · exact .pure _
  · exact r.performs_steps _ _ _

/-- A host plan runs as it is run, and a refusal comes first. -/
theorem performs_hostPlan (part : HostPlan) : Performs (r.performHostPlan part)
    (((r.runHostPlan part).mapError .refused).map (·.1))
    (match r.runHostPlan part with | .ok (_, trace) => trace | .error _ => []) := by
  have hpart := performs_demandPart part.planId part
  rw [← HostPlan.runError?] at hpart
  unfold runHostPlan
  split
  · rename_i e hfound
    rw [hfound] at hpart
    exact hpart.stop _
  · rename_i hnone
    rw [hnone] at hpart
    exact hpart.bind (r.performs_steps _ _ _)

/-! ### Host plans -/

/-- The loop over the host plans: each is held back or put among those that will run. -/
def performHeld (slice : Slice) (planId : String) (globals : Report) :
    List (String × HostPlan) → Performance RunError (List (String × Report) × List HostPlan)
  | [] => pure ([], [])
  | (key, part) :: rest => do
    let unmet := slice.unmetGlobals globals part
    if unmet.isEmpty then
      let (held, runnable) ← performHeld slice planId globals rest
      pure (held, part :: runnable)
    else
      tell (part.holdBack planId key unmet).2
      let (held, runnable) ← performHeld slice planId globals rest
      pure ((key, (part.holdBack planId key unmet).1) :: held, runnable)

/-- Runs host plans; each report is filed under the id of its host. -/
def performHosts (planId : String) : List HostPlan → Performance RunError (List (String × Report))
  | [] => pure []
  | part :: rest => do
    let report ← r.performSteps planId part.host part.steps
    let reports ← performHosts planId rest
    pure ((part.host.id, report) :: reports)

/-- Runs host plans on workers, which are had from a pool or cannot be had. -/
def performPool (pool : Nat → Option String) (planId : String) (runnable : List HostPlan) :
    Performance RunError (List (String × Report)) :=
  if runnable.isEmpty then pure []
  else do
    tell (r.announce runnable.length)
    match pool (r.workers runnable.length) with
    | some reason => throw (.noWorkers reason)
    | none => r.performHosts planId runnable

/-- Runs a sliced plan. -/
def performDispatch (pool : Nat → Option String) (slice : Slice) (planId : String) :
    Performance RunError Report := do
  demandOrder .fleet (slice.globalSteps.map .ofStep)
  demandParts planId slice.hostPlans.values
  let globals ← r.performGlobals slice planId
  let (held, runnable) ← performHeld slice planId globals slice.hostPlans.entries
  let ran ← r.performPool pool planId runnable
  pure ((Dict.ofList (held ++ ran)).values.foldl .merge globals)

theorem performs_held (slice : Slice) (planId : String) (globals : Report)
    (parts : List (String × HostPlan)) :
    Performs (performHeld slice planId globals parts)
      (.ok ((parts.filter fun e => slice.isHeld globals e.2).map fun e =>
          (e.1, e.2.heldBack planId (slice.unmetGlobals globals e.2)),
        (parts.filter fun e => !slice.isHeld globals e.2).map (·.2)))
      ((parts.filter fun e => slice.isHeld globals e.2).flatMap fun e =>
        (e.2.holdBack planId e.1 (slice.unmetGlobals globals e.2)).2) := by
  induction parts with
  | nil => exact .pure _
  | cons e rest ih =>
    obtain ⟨key, part⟩ := e
    have hempty : (slice.unmetGlobals globals part).isEmpty = !slice.isHeld globals part :=
      (Bool.not_not _).symm
    rw [performHeld]
    cases hheld : slice.isHeld globals part with
    | false =>
      simp only [hempty, hheld, List.filter_cons, Bool.not_false, Bool.false_eq_true, if_true,
        if_false]
      rw [← List.append_nil (List.flatMap _ _)]
      exact ih.bind (.pure _)
    | true =>
      simp only [hempty, hheld, List.filter_cons, Bool.not_true, Bool.false_eq_true, if_true,
        if_false, List.flatMap_cons]
      refine (Performs.tell _).bind ?_
      rw [← List.append_nil (List.flatMap _ _)]
      exact ih.bind (.pure _)

theorem performs_hosts (planId : String) (parts : List HostPlan) :
    Performs (r.performHosts planId parts)
      (.ok (parts.map fun part => (part.host.id, (r.runSteps planId part.host part.steps).1)))
      (parts.flatMap fun part => (r.runSteps planId part.host part.steps).2) := by
  induction parts with
  | nil => exact .pure _
  | cons part rest ih =>
    rw [performHosts, List.flatMap_cons]
    refine (r.performs_steps _ _ _).bind ?_
    rw [← List.append_nil (List.flatMap _ _)]
    exact ih.bind (.pure _)

variable {r} {slice : Slice} {planId : String}

/-- A sliced plan that is refused is refused before anything is told. -/
theorem performs_dispatch_refused (pool : Nat → Option String) {e : RunError}
    (h : r.dispatch slice planId = .error e) :
    Performs (r.performDispatch pool slice planId) (.error (.refused e)) [] := by
  have herr := dispatch_eq_error_iff.mp h
  have hglobals := performs_demandOrder .fleet (slice.globalSteps.map .ofStep)
  have hparts := performs_demandParts planId slice.hostPlans.values
  unfold Slice.runError? at herr
  unfold performDispatch
  split at herr
  · rename_i found hfound
    rw [hfound, herr] at hglobals
    exact hglobals.stop _
  · rename_i hnone
    rw [hnone] at hglobals
    rw [herr] at hparts
    exact hglobals.bind (hparts.stop _)

/-- What a sliced plan comes to that is not refused, up to the workers it needs. -/
theorem performs_dispatch_of_pool {pool : Nat → Option String} {result : Except (Halt RunError) _}
    {told : Trace} (h : slice.runError? planId = none)
    (hpool : Performs (r.performPool pool planId
      ((slice.runnable (r.globals slice planId)).map (·.2))) result told) :
    Performs (r.performDispatch pool slice planId)
      (result.map fun ran => (Dict.ofList (r.heldReports slice planId ++ ran)).values.foldl .merge
        (r.globals slice planId))
      ((r.runGlobals slice planId).2 ++ r.heldTrace slice planId ++ told) := by
  have hglobals := performs_demandOrder .fleet (slice.globalSteps.map .ofStep)
  have hparts := performs_demandParts planId slice.hostPlans.values
  unfold Slice.runError? at h
  split at h
  · cases h
  · rename_i hnone
    rw [hnone] at hglobals
    rw [h] at hparts
    unfold performDispatch
    rw [List.append_assoc]
    refine hglobals.bind (hparts.bind ((r.performs_globals slice planId).bind
      ((performs_held slice planId (r.globals slice planId) slice.hostPlans.entries).bind ?_)))
    cases result with
    | error s => exact hpool.stop _
    | ok ran =>
      rw [← List.append_nil told]
      exact hpool.bind (.pure _)

/-- What is filed for the host plans, by whether they are held back or run. -/
theorem partReports_eq : r.partReports slice planId =
    Dict.ofList (r.heldReports slice planId ++
      ((slice.runnable (r.globals slice planId)).map (·.2)).map fun part =>
        (part.host.id, (r.runSteps planId part.host part.steps).1)) := by
  rw [partReports, Slice.filings, List.map_append, heldReports, List.map_map, List.map_map]
  refine congrArg Dict.ofList (congrArg₂ (· ++ ·) ?_ ?_)
  · exact List.map_congr_left fun e he => congrArg (e.1, ·) (partReport_of_held he)
  · refine List.map_congr_left fun e he => ?_
    have hreport := partReport_of_runnable he
    exact congrArg (e.2.host.id, ·) hreport

/-- A sliced plan whose workers can be had runs as it is run. -/
theorem performs_dispatch {pool : Nat → Option String} {report : Report} {trace : Trace}
    (h : r.dispatch slice planId = .ok (report, trace))
    (hpool : slice.runnable (r.globals slice planId) ≠ [] →
      pool (r.workers (slice.runnable (r.globals slice planId)).length) = none) :
    Performs (r.performDispatch pool slice planId) (.ok report) trace := by
  obtain ⟨herr, hresult⟩ := dispatch_eq_ok_iff.mp h
  rw [runParts_eq, partReports_eq, List.append_assoc _ (r.announce _)] at hresult
  obtain ⟨rfl, rfl⟩ := Prod.mk.inj hresult
  have hran : Performs (r.performPool pool planId
      ((slice.runnable (r.globals slice planId)).map (·.2)))
      (.ok (((slice.runnable (r.globals slice planId)).map (·.2)).map fun part =>
        (part.host.id, (r.runSteps planId part.host part.steps).1)))
      (r.announce (slice.runnable (r.globals slice planId)).length ++
        (r.hostTraces slice planId).flatten) := by
    unfold performPool
    split
    · rename_i hempty
      have hnil : slice.runnable (r.globals slice planId) = [] := by simpa using hempty
      rw [hostTraces, hnil]
      exact .pure _
    · rename_i hsome
      rw [List.length_map]
      refine (Performs.tell _).bind ?_
      rw [hpool fun hnil => hsome (by rw [hnil]; rfl)]
      have hhosts := r.performs_hosts planId ((slice.runnable (r.globals slice planId)).map (·.2))
      rwa [List.flatMap_map, List.flatMap_def] at hhosts
  exact performs_dispatch_of_pool herr hran

/-- One whose workers cannot be had ends there, when the global steps are through. -/
theorem performs_dispatch_noWorkers {pool : Nat → Option String} {reason : String}
    (h : slice.runError? planId = none) (hrunnable : slice.runnable (r.globals slice planId) ≠ [])
    (hpool : pool (r.workers (slice.runnable (r.globals slice planId)).length) = some reason) :
    Performs (r.performDispatch pool slice planId) (.error (.noWorkers reason))
      ((r.runGlobals slice planId).2 ++ r.heldTrace slice planId ++
        r.announce (slice.runnable (r.globals slice planId)).length) := by
  have hnone : Performs (r.performPool pool planId
      ((slice.runnable (r.globals slice planId)).map (·.2))) (.error (.noWorkers reason))
      (r.announce (slice.runnable (r.globals slice planId)).length ++ []) := by
    unfold performPool
    rw [if_neg (by simpa using hrunnable), List.length_map]
    refine (Performs.tell _).bind ?_
    rw [hpool]
    exact .throw _
  rw [List.append_nil] at hnone
  exact performs_dispatch_of_pool h hnone

/-- A sliced plan that is not refused at first is not refused on the way. -/
theorem performs_dispatch_not_refused (pool : Nat → Option String) {report : Report}
    {trace : Trace} (h : r.dispatch slice planId = .ok (report, trace)) : ∃ result told,
      Performs (r.performDispatch pool slice planId) result told ∧
        ∀ e, result ≠ .error (.refused e) := by
  by_cases hpool : slice.runnable (r.globals slice planId) ≠ [] →
      pool (r.workers (slice.runnable (r.globals slice planId)).length) = none
  · exact ⟨_, _, performs_dispatch h hpool, fun e he => nomatch he⟩
  · obtain ⟨hrunnable, hsome⟩ := Classical.not_imp.mp hpool
    obtain ⟨reason, hreason⟩ := Option.ne_none_iff_exists'.mp hsome
    have herr := (dispatch_eq_ok_iff.mp h).1
    exact ⟨_, _, performs_dispatch_noWorkers herr hrunnable hreason, fun e he => nomatch he⟩

end Runner

/-- A trace of log records: no step was called, and no observer was told anything. -/
def Trace.Quiet (trace : Trace) : Prop := ∀ event ∈ trace, ∃ record, event = .logged record

namespace Engine

variable {engine : Engine}

/-! ### Plans -/

/-- Cuts a plan and runs its parts. -/
def performPlan (engine : Engine) (pool : Nat → Option String) (now : String) (request : ExecuteRequest) :
    Performance EngineError ExecuteResponse :=
  match checkVersion request.plan with
  | .error e => throw (.refused e)
  | .ok _ =>
    match request.plan.slice with
    | .error e => throw (.refused (.slice e))
    | .ok slice => do
      tell [.logged (slice.cutRecord request.plan.id)]
      let runner : Runner := ⟨engine.registry, request.options, now⟩
      let report ← ExceptT.adapt (Halt.map .run) (runner.performDispatch pool slice request.plan.id)
      let report := if request.options.dryRun then report.markDryRun else report
      tell [.logged
        ⟨.info, .engine, "Plan " ++ request.plan.id ++ " finished: " ++ report.status.name⟩]
      pure ⟨report⟩

/-- A plan that is refused is refused before anything but log records is told. -/
theorem performs_execute_refused (pool : Nat → Option String) {now : String}
    {request : ExecuteRequest} {e : EngineError} (h : (engine.execute now request).1 = .error e) :
    (engine.execute now request).2.Quiet ∧
      Performs (engine.performPlan pool now request) (.error (.refused e))
        (engine.execute now request).2 := by
  unfold execute at h ⊢
  unfold performPlan
  dsimp only at h ⊢
  cases hversion : checkVersion request.plan with
  | error found =>
    rw [hversion] at h
    cases h
    exact ⟨fun _ hmem => absurd hmem List.not_mem_nil, .throw _⟩
  | ok _ =>
    rw [hversion] at h
    cases hslice : request.plan.slice with
    | error found =>
      rw [hslice] at h
      cases h
      exact ⟨fun _ hmem => absurd hmem List.not_mem_nil, .throw _⟩
    | ok slice =>
      rw [hslice] at h
      dsimp only at h ⊢
      cases hrun : Runner.dispatch ⟨engine.registry, request.options, now⟩ slice
          request.plan.id with
      | error found =>
        rw [hrun] at h
        cases h
        have hdispatch := Runner.performs_dispatch_refused pool hrun
        exact ⟨fun _ hmem => ⟨_, List.mem_singleton.mp hmem⟩,
          (Performs.tell [_]).bind (hdispatch.adapt.stop _)⟩
      | ok result =>
        rw [hrun] at h
        cases h

/-- A plan that is not refused has been cut, and its slice is run. -/
theorem exists_dispatch_of_execute_ok {now : String} {request : ExecuteRequest}
    {response : ExecuteResponse} (h : (engine.execute now request).1 = .ok response) :
    ∃ slice report trace, checkVersion request.plan = .ok () ∧ request.plan.slice = .ok slice ∧
      Runner.dispatch ⟨engine.registry, request.options, now⟩ slice request.plan.id =
        .ok (report, trace) := by
  unfold execute at h
  dsimp only at h
  cases hversion : checkVersion request.plan with
  | error found => rw [hversion] at h; cases h
  | ok _ =>
    rw [hversion] at h
    cases hslice : request.plan.slice with
    | error found => rw [hslice] at h; cases h
    | ok slice =>
      rw [hslice] at h
      dsimp only at h
      cases hrun : Runner.dispatch ⟨engine.registry, request.options, now⟩ slice
          request.plan.id with
      | error found => rw [hrun] at h; cases h
      | ok result => exact ⟨slice, result.1, result.2, rfl, rfl, hrun⟩

/-- A plan whose workers can be had runs as it is run. -/
theorem performs_execute {pool : Nat → Option String} (hpool : ∀ n, pool n = none) {now : String}
    {request : ExecuteRequest} {response : ExecuteResponse}
    (h : (engine.execute now request).1 = .ok response) :
    Performs (engine.performPlan pool now request) (.ok response)
      (engine.execute now request).2 := by
  obtain ⟨slice, report, trace, hversion, hslice, hrun⟩ := exists_dispatch_of_execute_ok h
  simp only [execute, hversion, hslice, hrun, Except.ok.injEq] at h ⊢
  subst h
  simp only [performPlan, hversion, hslice]
  have hdispatch := Runner.performs_dispatch hrun fun _ => hpool _
  exact (Performs.tell [_]).bind (hdispatch.adapt.bind ((Performs.tell [_]).bind (.pure _)))

/-- A plan that is not refused at first is not refused on the way. -/
theorem performs_execute_not_refused (pool : Nat → Option String) {now : String}
    {request : ExecuteRequest} {response : ExecuteResponse}
    (h : (engine.execute now request).1 = .ok response) : ∃ result told,
      Performs (engine.performPlan pool now request) result told ∧
        ∀ e, result ≠ .error (.refused e) := by
  obtain ⟨slice, report, trace, hversion, hslice, hrun⟩ := exists_dispatch_of_execute_ok h
  obtain ⟨result, told, hdispatch, hresult⟩ := Runner.performs_dispatch_not_refused pool hrun
  simp only [performPlan, hversion, hslice]
  cases result with
  | ok report =>
    exact ⟨_, _, (Performs.tell [_]).bind (hdispatch.adapt.bind
      ((Performs.tell [_]).bind (.pure _))), fun e he => nomatch he⟩
  | error s =>
    refine ⟨_, _, (Performs.tell [_]).bind (hdispatch.adapt.stop _), fun e he => ?_⟩
    cases s with
    | refused found => exact hresult found rfl
    | noWorkers reason => exact nomatch he

end Engine

/--
**A refused run leaves nothing behind.**  Take any runner and engine, whatever their
executors do, any workers, and anything that was told before.  A host plan, a sliced plan
or a plan is performed up to a refusal just when it is refused at all; and then no step has
been called and no observer told of anything, on any host or for the fleet.  All that a plan
may leave is the log record of its having been cut.
-/
theorem refusal_leaves_no_trace (runner : Runner) (engine : Engine) (pool : Nat → Option String)
    (now : String) (earlier later : Trace) :
    (∀ part e, (runner.performHostPlan part).run.run earlier = (.error (.refused e), later) ↔
      runner.runHostPlan part = .error e ∧ later = earlier) ∧
    (∀ slice planId e,
      (runner.performDispatch pool slice planId).run.run earlier = (.error (.refused e), later) ↔
        runner.dispatch slice planId = .error e ∧ later = earlier) ∧
    ∀ request e,
      (engine.performPlan pool now request).run.run earlier = (.error (.refused e), later) ↔
        (engine.execute now request).1 = .error e ∧
          later = earlier ++ (engine.execute now request).2 ∧
          (engine.execute now request).2.Quiet := by
  refine ⟨fun part e => ?_, fun slice planId e => ?_, fun request e => ?_⟩
  · rw [(runner.performs_hostPlan part).eq]
    cases runner.runHostPlan part with
    | ok result => simp [Except.mapError, Except.map]
    | error found => simp [Except.mapError, Except.map, eq_comm]
  · cases hrun : runner.dispatch slice planId with
    | ok result =>
      obtain ⟨_, _, hdispatch, hresult⟩ := Runner.performs_dispatch_not_refused pool hrun
      rw [hdispatch.eq]
      exact iff_of_false (fun h => hresult e h.1.symm) fun h => nomatch h.1
    | error found =>
      rw [(Runner.performs_dispatch_refused pool hrun).eq]
      simp [eq_comm]
  · cases hrun : (engine.execute now request).1 with
    | ok response =>
      obtain ⟨_, _, hplan, hresult⟩ := Engine.performs_execute_not_refused pool hrun
      rw [hplan.eq]
      exact iff_of_false (fun h => hresult e h.1.symm) fun h => nomatch h.1
    | error found =>
      obtain ⟨hquiet, hplan⟩ := Engine.performs_execute_refused pool hrun
      rw [hplan.eq]
      simp [hquiet, eq_comm]

end FleetPlan
