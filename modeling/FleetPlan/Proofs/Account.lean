/-
The report of a run against its calls.

A run is handed a list of jobs: the global steps, and then each host's steps with their
host.  `Accounts` says that a list of records accounts for the jobs, given the calls that
were made: there is one record for each job, in the order of the jobs, and each record is
`Told` truthfully.  A success was called once and answered with its output, a failure was
called once and answered with an error, and a step that was skipped carries a code and
was never called.

One step accounts for itself, whatever progress was made before it.  Accounts of
different steps can be put one behind the other, and this is all that the loop over a
list, the global steps and the host plans have to do.  A sliced plan has every step once,
so its merged report is such an account (`runParts_accounts`).
-/
import FleetPlan.Proofs.Agent
import FleetPlan.Proofs.Events
import FleetPlan.Proofs.Partition
import FleetPlan.Proofs.Records

namespace FleetPlan

/-- The status of a merged report follows from its records, as that of its parts does. -/
theorem Report.foldl_merge_status {g : Report} (h : g.status = aggregateStatus g.steps)
    (rs : List Report) :
    (rs.foldl .merge g).status = aggregateStatus (rs.foldl .merge g).steps := by
  induction rs generalizing g with
  | nil => exact h
  | cons r rest ih => exact ih rfl

theorem aggregateStatus_eq_failed_iff {records : List StepRecord} :
    aggregateStatus records = .failed ↔ ∃ record ∈ records, record.status = .failed := by
  unfold aggregateStatus
  split
  · rename_i hany
    simpa using hany
  · rename_i hnone
    have hnot : ¬∃ record ∈ records, record.status = .failed := by simpa using hnone
    simp only [hnot, iff_false]
    split <;> simp

theorem aggregateStatus_eq_succeeded_iff {records : List StepRecord} :
    aggregateStatus records = .succeeded ↔ ∀ record ∈ records, record.status = .succeeded := by
  unfold aggregateStatus
  split
  · rename_i hany
    obtain ⟨record, hmem, hfailed⟩ := List.any_eq_true.mp hany
    have hstatus : record.status = .failed := by simpa using hfailed
    exact ⟨fun h => absurd h (by decide), fun h => absurd (hstatus.symm.trans (h _ hmem)) (by decide)⟩
  · split
    · rename_i hany
      obtain ⟨record, hmem, hne⟩ := List.any_eq_true.mp hany
      exact ⟨fun h => absurd h (by decide), fun h => absurd (h _ hmem) (by simpa using hne)⟩
    · rename_i hnone
      simpa using hnone

/-- A step together with what its executor is told. -/
abbrev Job := HostStep × RunContext

/-- The step and the place that a job is about. -/
def Job.subject (job : Job) : String × Host := (job.1.id, job.2.host)

namespace Runner

variable {r : Runner} {c : RunContext} {p : Progress} {step : HostStep}

/-- What a call is answered with, if something is in charge of the step. -/
def answer? (r : Runner) (job : Job) : Option (Except Failure (List OutputLine)) :=
  (r.registry.get? job.1.action).map fun executor => executor job.1 job.2

/-- A record says what became of a job, given the calls of its step. -/
inductive Told (r : Runner) (job : Job) (record : StepRecord) : List Job → Prop
  | succeeded {output : List OutputLine} (hstatus : record.status = .succeeded)
      (hanswer : r.answer? job = some (.ok output)) : Told r job record [job]
  | failed {failure : Failure} (hstatus : record.status = .failed)
      (hanswer : r.answer? job = some (.error failure)) : Told r job record [job]
  | skipped {code : StepErrorCode} (hstatus : record.status = .skipped)
      (hcode : record.code? = some code.name) : Told r job record []

/-- A list of records accounts for jobs, given the calls that were made. -/
structure Accounts (r : Runner) (jobs : List Job) (records : List StepRecord)
    (calls : List Job) : Prop where
  /-- Each job has its record, in the order of the jobs. -/
  subjects : records.map (·.subject) = jobs.map (·.subject)
  /-- Each record is told by the calls of its step. -/
  told : ∀ record ∈ records, ∃ job ∈ jobs, record.subject = job.subject ∧
    Told r job record (calls.filter (·.1.id == record.stepId))
  /-- Nothing else is called. -/
  calls : calls ⊆ jobs

namespace Accounts

variable {jobs jobs' : List Job} {records records' : List StepRecord} {calls calls' : List Job}

theorem nil : Accounts r [] [] [] :=
  ⟨rfl, fun _ hrecord => absurd hrecord List.not_mem_nil, List.nil_subset _⟩

/-- No call is that of a step that is not among the jobs. -/
theorem filter_eq_nil (h : Accounts r jobs records calls) {id : String}
    (hid : ∀ job ∈ jobs, job.1.id ≠ id) : calls.filter (·.1.id == id) = [] := by
  rw [List.filter_eq_nil_iff]
  exact fun call hcall => by simpa using hid call (h.calls hcall)

/-- Accounts of different steps can be put one behind the other. -/
theorem append (h : Accounts r jobs records calls) (h' : Accounts r jobs' records' calls')
    (hids : ((jobs ++ jobs').map (·.1.id)).Nodup) :
    Accounts r (jobs ++ jobs') (records ++ records') (calls ++ calls') := by
  rw [List.map_append, List.nodup_append] at hids
  have hdisjoint : ∀ job ∈ jobs, ∀ job' ∈ jobs', job.1.id ≠ job'.1.id := fun job hjob job' hjob' =>
    hids.2.2 _ (List.mem_map_of_mem hjob) _ (List.mem_map_of_mem hjob')
  refine ⟨by rw [List.map_append, List.map_append, h.subjects, h'.subjects], ?_, ?_⟩
  · -- The calls of a step are all in the account that has its job.
    intro record hrecord
    rw [List.filter_append]
    rcases List.mem_append.mp hrecord with hrecord | hrecord
    · obtain ⟨job, hjob, hsubject, htold⟩ := h.told record hrecord
      have hid : record.stepId = job.1.id := congrArg Prod.fst hsubject
      rw [h'.filter_eq_nil fun job' hjob' => hid ▸ (hdisjoint job hjob job' hjob').symm,
        List.append_nil]
      exact ⟨job, List.mem_append_left _ hjob, hsubject, htold⟩
    · obtain ⟨job', hjob', hsubject, htold⟩ := h'.told record hrecord
      have hid : record.stepId = job'.1.id := congrArg Prod.fst hsubject
      rw [h.filter_eq_nil fun job hjob => hid ▸ hdisjoint job hjob job' hjob', List.nil_append]
      exact ⟨job', List.mem_append_right _ hjob', hsubject, htold⟩
  · exact List.append_subset.mpr
      ⟨List.subset_append_of_subset_left _ h.calls, List.subset_append_of_subset_right _ h'.calls⟩

theorem flatMap {ι : Type} {es : List ι} {f : ι → List Job} {g : ι → List StepRecord}
    {k : ι → List Job} (h : ∀ e ∈ es, Accounts r (f e) (g e) (k e))
    (hids : ((es.flatMap f).map (·.1.id)).Nodup) :
    Accounts r (es.flatMap f) (es.flatMap g) (es.flatMap k) := by
  induction es with
  | nil => exact nil
  | cons e rest ih =>
    rw [List.flatMap_cons, List.map_append] at hids
    have hrest := ih (fun e he => h e (List.mem_cons_of_mem _ he)) (List.nodup_append.mp hids).2.1
    refine (h e List.mem_cons_self).append hrest ?_
    rwa [List.map_append]

/-- The record of a job is told by the calls of its step. -/
theorem exists_record (h : Accounts r jobs records calls) (hids : (jobs.map (·.1.id)).Nodup)
    {job : Job} (hjob : job ∈ jobs) : ∃ record ∈ records, record.subject = job.subject ∧
      Told r job record (calls.filter (·.1.id == job.1.id)) := by
  have hsubject := List.mem_map_of_mem (f := Job.subject) hjob
  rw [← h.subjects] at hsubject
  obtain ⟨record, hrecord, hsubject⟩ := List.mem_map.mp hsubject
  obtain ⟨job', hjob', hsubject', htold⟩ := h.told record hrecord
  have hid : record.stepId = job.1.id := congrArg Prod.fst hsubject
  obtain rfl := List.inj_on_of_nodup_map hids hjob' hjob
    (congrArg Prod.fst (hsubject'.symm.trans hsubject))
  exact ⟨record, hrecord, hsubject, hid ▸ htold⟩

end Accounts

/-! ### One step, and all steps -/

/-- What becomes of a step is told by its own calls, whatever became of others. -/
theorem runStep_accounts (r : Runner) (c : RunContext) (p : Progress) (step : HostStep) :
    Accounts r [(step, c)] [(r.runStep c p step).1] (r.runStep c p step).2.calls := by
  rcases r.runStep_cases c p step with
    ⟨executor, told, hdecision, htold, hrun⟩ | ⟨code, message, l, -, hrun⟩
  · have hanswer : r.answer? (step, c) = some (executor step c) := by
      rw [answer?, (decision_eq_attempt hdecision).2.2.2]
      rfl
    have htold : Trace.calls told = [] := Trace.filterMap_eq_nil_of_logged (fun _ => rfl) htold
    have hcalls : Trace.calls (.called step c :: told) = [(step, c)] := by
      rw [← htold]
      rfl
    rw [hrun, hcalls]
    have hsubject : (r.recordOf c step (executor step c)).subject = (step.id, c.host) :=
      Prod.ext recordOf_stepId recordOf_host
    refine ⟨congrArg (fun subject => [subject]) hsubject, ?_, List.Subset.refl _⟩
    intro record hrecord
    obtain rfl := List.mem_singleton.mp hrecord
    refine ⟨_, List.mem_cons_self, hsubject, ?_⟩
    rw [List.filter_eq_self.mpr fun job hjob => by simp [List.mem_singleton.mp hjob]]
    cases hresult : executor step c with
    | ok output => exact .succeeded rfl (hanswer.trans (congrArg some hresult))
    | error failure => exact .failed rfl (hanswer.trans (congrArg some hresult))
  · rw [hrun]
    refine ⟨rfl, ?_, List.nil_subset _⟩
    intro record hrecord
    obtain rfl := List.mem_singleton.mp hrecord
    exact ⟨_, List.mem_cons_self, rfl, .skipped rfl rfl⟩

theorem runFrom_accounts (r : Runner) (c : RunContext) (p : Progress) {steps : List HostStep}
    (hids : (steps.map (·.id)).Nodup) :
    Accounts r (steps.map fun step => (step, c)) (r.runFrom c p steps).1
      (r.runFrom c p steps).2.calls := by
  induction steps generalizing p with
  | nil => exact .nil
  | cons step rest ih =>
    have hrest := ih (p.after (r.runStep c p step).1) (List.nodup_cons.mp hids).2
    rw [runFrom_cons_calls]
    refine (r.runStep_accounts c p step).append hrest ?_
    simpa [List.map_map, Function.comp_def] using hids

/-- A run of different steps accounts for each of them. -/
theorem runSteps_accounts (r : Runner) (planId : String) (host : Host) {steps : List HostStep}
    (hids : (steps.map (·.id)).Nodup) :
    Accounts r (steps.map fun step => (step, ⟨planId, host, r.options.dryRun⟩))
      (r.runSteps planId host steps).1.steps (r.runSteps planId host steps).2.calls := by
  rw [runSteps_calls]
  exact r.runFrom_accounts _ .start hids

/-! ### A sliced plan -/

variable {slice : Slice} {planId : String}

theorem globals_status (r : Runner) (slice : Slice) (planId : String) :
    (r.globals slice planId).status = aggregateStatus (r.globals slice planId).steps := by
  unfold globals runGlobals
  split <;> rfl

/-- The status of a merged report is that of its records. -/
theorem runParts_status (r : Runner) (slice : Slice) (planId : String) :
    (r.runParts slice planId).1.status = aggregateStatus (r.runParts slice planId).1.steps := by
  rw [runParts_eq]
  exact Report.foldl_merge_status (r.globals_status slice planId) _

/-- What a run of a sliced plan is to do: the global steps, and then each host's. -/
def jobs (r : Runner) (slice : Slice) (planId : String) : List Job :=
  (slice.globalSteps.map fun s => (.ofStep s, ⟨planId, .fleet, r.options.dryRun⟩)) ++
    slice.hostPlans.entries.flatMap fun e =>
      e.2.steps.map fun step => (step, ⟨planId, e.2.host, r.options.dryRun⟩)

theorem jobs_subjects : (r.jobs slice planId).map (·.subject) = slice.subjects := by
  rw [jobs, List.map_append, List.map_map, List.map_flatMap, Slice.subjects, Dict.values,
    List.flatMap_map]
  simp only [List.map_map]
  rfl

theorem jobs_ids : (r.jobs slice planId).map (·.1.id) = slice.globalSteps.map (·.id) ++
    slice.hostPlans.entries.flatMap fun e => e.2.steps.map (·.id) := by
  rw [jobs, List.map_append, List.map_map, List.map_flatMap]
  simp only [List.map_map]
  rfl

/-- What is called on a host. -/
def partCalls (r : Runner) (slice : Slice) (planId : String) (part : HostPlan) : List Job :=
  if slice.isHeld (r.globals slice planId) part then []
  else (r.runSteps planId part.host part.steps).2.calls

theorem calls_runParts : (r.runParts slice planId).2.calls =
    (r.runGlobals slice planId).2.calls ++
      slice.hostPlans.entries.flatMap fun e => r.partCalls slice planId e.2 := by
  have hhosts : Trace.calls (r.hostTraces slice planId).flatten =
      slice.hostPlans.entries.flatMap fun e => r.partCalls slice planId e.2 := by
    rw [Trace.calls_flatten, hostTraces, List.map_map, ← List.flatMap_def, Slice.runnable]
    induction slice.hostPlans.entries with
    | nil => rfl
    | cons e rest ih =>
      rw [List.flatMap_cons, ← ih, partCalls, List.filter_cons]
      cases slice.isHeld (r.globals slice planId) e.2 <;> rfl
  rw [runParts_eq, Trace.calls_append, Trace.calls_append, Trace.calls_append, calls_heldTrace,
    calls_announce, hhosts, List.append_nil, List.append_nil]

theorem partReport_accounts {part : HostPlan} (hids : (part.steps.map (·.id)).Nodup) :
    Accounts r (part.steps.map fun step => (step, ⟨planId, part.host, r.options.dryRun⟩))
      (r.partReport slice planId (r.globals slice planId) part).steps
      (r.partCalls slice planId part) := by
  unfold partReport partCalls
  split
  · refine ⟨?_, ?_, List.nil_subset _⟩
    · rw [part.heldBack_subjects, List.map_map]
      rfl
    · intro record hrecord
      obtain ⟨step, hstep, rfl⟩ := List.mem_map.mp hrecord
      exact ⟨_, List.mem_map_of_mem hstep, rfl, @Told.skipped _ _ _ .globalDependencyUnmet rfl rfl⟩
  · exact r.runSteps_accounts planId part.host hids

theorem globals_accounts (hids : (slice.globalSteps.map (·.id)).Nodup) :
    Accounts r (slice.globalSteps.map fun s => (.ofStep s, ⟨planId, .fleet, r.options.dryRun⟩))
      (r.globals slice planId).steps (r.runGlobals slice planId).2.calls := by
  unfold globals runGlobals
  split
  · rename_i hempty
    rw [List.isEmpty_iff.mp hempty]
    exact .nil
  · have hids' : ((slice.globalSteps.map HostStep.ofStep).map (·.id)).Nodup := by
      rwa [List.map_map]
    have hrun := r.runSteps_accounts planId .fleet hids'
    rwa [List.map_map] at hrun

/-- **The merged report accounts for a run.** -/
theorem runParts_accounts (hkeyed : slice.Keyed)
    (hids : ((r.jobs slice planId).map (·.1.id)).Nodup) :
    Accounts r (r.jobs slice planId) (r.runParts slice planId).1.steps
      (r.runParts slice planId).2.calls := by
  have hparts := hids
  rw [jobs_ids, List.nodup_append] at hparts
  obtain ⟨hglobals, hhosts, -⟩ := hparts
  rw [runParts_steps_of_keyed hkeyed, calls_runParts]
  refine (globals_accounts hglobals).append (.flatMap (fun e he => partReport_accounts ?_) ?_) hids
  · exact (List.nodup_flatMap.mp hhosts).1 e he
  · rw [jobs, List.map_append] at hids
    exact (List.nodup_append.mp hids).2.1

/-- In all schedules the calls of a step are the same. -/
theorem Schedule.callsOf_eq {trace : Trace} (h : r.Schedule slice planId trace)
    (hids : ((r.jobs slice planId).map (·.1.id)).Nodup) (id : String) :
    trace.callsOf id = (r.runParts slice planId).2.callsOf id := by
  rw [jobs_ids, List.nodup_append] at hids
  obtain ⟨hparts, hdisjoint⟩ := List.nodup_flatMap.mp hids.2.1
  rw [Trace.callsOf_eq_filterMap, Trace.callsOf_eq_filterMap]
  refine h.filterMap_eq _ ?_
  rw [hostTraces, List.pairwise_map]
  refine (hdisjoint.filter _).imp_of_mem fun {a b} ha hb hab => ?_
  have hnil (e : String × HostPlan) (he : e ∈ slice.runnable (r.globals slice planId))
      (hnot : id ∉ e.2.steps.map (·.id)) :
      (r.runSteps planId e.2.host e.2.steps).2.filterMap (fun e => e.call?.filter (·.1.id == id)) =
        [] := by
    rw [← Trace.callsOf_eq_filterMap]
    have haccount := r.runSteps_accounts planId e.2.host (hparts e (List.mem_filter.mp he).1)
    refine haccount.filter_eq_nil fun job hjob hid => hnot ?_
    obtain ⟨step, hstep, rfl⟩ := List.mem_map.mp hjob
    exact List.mem_map.mpr ⟨step, hstep, hid⟩
  by_cases hin : id ∈ a.2.steps.map (·.id)
  · exact .inr (hnil b hb fun hin' => hab hin hin')
  · exact .inl (hnil a ha hin)

namespace Told

variable {job : Job} {record : StepRecord} {calls : List Job}

theorem succeeded_iff (h : Told r job record calls) : record.status = .succeeded ↔
    ∃ output, calls = [job] ∧ r.answer? job = some (.ok output) := by
  cases h with
  | succeeded hstatus hanswer => exact ⟨fun _ => ⟨_, rfl, hanswer⟩, fun _ => hstatus⟩
  | failed hstatus hanswer => simp [hstatus, hanswer]
  | skipped hstatus hcode => simp [hstatus]

theorem failed_iff (h : Told r job record calls) : record.status = .failed ↔
    ∃ failure, calls = [job] ∧ r.answer? job = some (.error failure) := by
  cases h with
  | succeeded hstatus hanswer => simp [hstatus, hanswer]
  | failed hstatus hanswer => exact ⟨fun _ => ⟨_, rfl, hanswer⟩, fun _ => hstatus⟩
  | skipped hstatus hcode => simp [hstatus]

theorem skipped_of_ne (h : Told r job record calls) (hsucceeded : record.status ≠ .succeeded)
    (hfailed : record.status ≠ .failed) :
    record.status = .skipped ∧ (∃ code : StepErrorCode, record.code? = some code.name) ∧
      calls = [] := by
  cases h with
  | succeeded hstatus _ => exact absurd hstatus hsucceeded
  | failed hstatus _ => exact absurd hstatus hfailed
  | skipped hstatus hcode => exact ⟨hstatus, ⟨_, hcode⟩, rfl⟩

theorem succeeded_of_mem (h : Told r job record calls) {called : Job} (hmem : called ∈ calls)
    {output : List OutputLine} (hanswer : r.answer? called = some (.ok output)) :
    record.status = .succeeded := by
  cases h with
  | succeeded hstatus _ => exact hstatus
  | failed hstatus herror =>
    obtain rfl := List.mem_singleton.mp hmem
    exact absurd (hanswer.symm.trans herror) (by simp)
  | skipped hstatus hcode => exact absurd hmem List.not_mem_nil

theorem failed_of_mem (h : Told r job record calls) {called : Job} (hmem : called ∈ calls)
    {failure : Failure} (hanswer : r.answer? called = some (.error failure)) :
    record.status = .failed := by
  cases h with
  | succeeded hstatus hok =>
    obtain rfl := List.mem_singleton.mp hmem
    exact absurd (hanswer.symm.trans hok) (by simp)
  | failed hstatus _ => exact hstatus
  | skipped hstatus hcode => exact absurd hmem List.not_mem_nil

end Told

end Runner

/-! ### A plan -/

/-- A step as it is handed to the executor. -/
def Plan.given (plan : Plan) (s : Step) : HostStep :=
  if s.isGlobal then .ofStep s else plan.hostStep s

@[simp] theorem Plan.given_id (plan : Plan) (s : Step) : (plan.given s).id = s.id := by
  unfold given
  split <;> rfl

namespace Runner

variable {r : Runner} {plan : Plan} {s : Step}

/-- A step's call on a host. -/
def jobOf (r : Runner) (plan : Plan) (s : Step) (host : Host) : Job :=
  (plan.given s, ⟨plan.id, host, r.options.dryRun⟩)

/-- The step is called once in the trace, on the host, and this is the answer. -/
def AnsweredOnce (r : Runner) (plan : Plan) (s : Step) (host : Host) (trace : Trace)
    (answer : Except Failure (List OutputLine)) : Prop :=
  trace.callsOf s.id = [r.jobOf plan s host] ∧ r.answer? (r.jobOf plan s host) = some answer

/-- The record of a step says what happened in a trace. -/
structure Honest (r : Runner) (plan : Plan) (s : Step) (trace : Trace) (record : StepRecord) :
    Prop where
  succeeded : record.status = .succeeded ↔
    ∃ output, r.AnsweredOnce plan s record.host trace (.ok output)
  failed : record.status = .failed ↔
    ∃ failure, r.AnsweredOnce plan s record.host trace (.error failure)
  /-- What neither succeeded nor failed was not called, and the record says why. -/
  skipped : record.status ≠ .succeeded → record.status ≠ .failed →
    record.status = .skipped ∧ (∃ code : StepErrorCode, record.code? = some code.name) ∧
      trace.callsOf s.id = []

/-- Every step of a plan is among the jobs, on a host of its own host id. -/
theorem exists_jobOf (hs : s ∈ plan.steps) :
    ∃ host, host.id = s.host.id ∧ r.jobOf plan s host ∈ r.jobs plan.cut plan.id := by
  unfold jobOf jobs
  by_cases hglobal : s.isGlobal = true
  · refine ⟨.fleet, (Plan.isGlobal_iff.mp hglobal).symm, List.mem_append_left _ ?_⟩
    rw [Plan.given, if_pos hglobal]
    exact List.mem_map.mpr ⟨s, Plan.mem_globalSteps.mpr ⟨hs, hglobal⟩, rfl⟩
  · obtain ⟨part, hentry, hpart⟩ := Plan.exists_hostPart hs (by simpa using hglobal)
    refine ⟨part.host, hpart.host_id, List.mem_append_right _ ?_⟩
    rw [Plan.given, if_neg hglobal]
    refine List.mem_flatMap.mpr ⟨_, hentry, List.mem_map.mpr ⟨plan.hostStep s, ?_, rfl⟩⟩
    exact hpart.mem_steps_iff.mpr ⟨s, hs, rfl, rfl⟩

/-- The jobs are the steps of the plan, each on a host of its own host id. -/
theorem jobs_perm :
    ((r.jobs plan.cut plan.id).map fun job => (job.1.id, job.2.host.id)).Perm
      (plan.steps.map fun s => (s.id, s.host.id)) := by
  refine List.Perm.trans (List.Perm.of_eq ?_) plan.filed_cut_perm
  rw [jobs, Slice.filed, List.map_append, List.map_map, List.map_flatMap]
  refine congrArg₂ _ rfl (List.flatMap_congr fun e he => ?_)
  rw [List.map_map, ← plan.cut_keyed e he]
  rfl

theorem nodup_jobs (hplan : plan.Sliceable) :
    ((r.jobs plan.cut plan.id).map (·.1.id)).Nodup := by
  have hids := (@jobs_perm r plan).map Prod.fst
  rw [List.map_map, List.map_map] at hids
  exact hids.nodup_iff.mpr hplan.nodup

/-- A record that is told by the calls of its step is honest in every schedule. -/
theorem honest_of_told {host : Host} {record : StepRecord} {calls : List Job}
    {trace : Trace} (hhost : record.host = host)
    (htold : Told r (r.jobOf plan s host) record calls) (hcalls : trace.callsOf s.id = calls) :
    r.Honest plan s trace record := by
  subst hhost hcalls
  exact ⟨htold.succeeded_iff, htold.failed_iff, htold.skipped_of_ne⟩

/-- Every step has one record, which is honest in every schedule. -/
theorem exists_honest (hplan : plan.Sliceable) (hs : s ∈ plan.steps) :
    ∃ record, (r.runParts plan.cut plan.id).1.steps.filter (·.stepId == s.id) = [record] ∧
      record.host.id = s.host.id ∧
      ∀ trace, r.Schedule plan.cut plan.id trace → r.Honest plan s trace record := by
  have hids := nodup_jobs (r := r) hplan
  have haccount := runParts_accounts plan.cut_keyed hids
  have hnodup : ((r.runParts plan.cut plan.id).1.steps.map (·.stepId)).Nodup := by
    have hsubjects := congrArg (List.map Prod.fst) haccount.subjects
    rw [List.map_map, List.map_map] at hsubjects
    exact hsubjects ▸ hids
  obtain ⟨host, hhost, hjob⟩ := exists_jobOf (r := r) hs
  obtain ⟨record, hrecord, hsubject, htold⟩ := haccount.exists_record hids hjob
  have hid : record.stepId = s.id := (congrArg Prod.fst hsubject).trans (plan.given_id s)
  have hat : record.host = host := congrArg Prod.snd hsubject
  refine ⟨record, hid ▸ filter_eq_singleton_of_nodup hnodup hrecord, hat ▸ hhost, ?_⟩
  intro trace hsched
  refine honest_of_told hat htold ?_
  rw [hsched.callsOf_eq hids, jobOf, plan.given_id]
  rfl

/-- A run has failed just when a call was answered with an error. -/
theorem status_eq_failed_iff (hplan : plan.Sliceable) {trace : Trace}
    (hsched : r.Schedule plan.cut plan.id trace) :
    (r.runParts plan.cut plan.id).1.status = .failed ↔
      ∃ job ∈ trace.calls, ∃ failure, r.answer? job = some (.error failure) := by
  have hids := nodup_jobs (r := r) hplan
  have haccount := runParts_accounts plan.cut_keyed hids
  have hcalls := fun id => hsched.callsOf_eq hids id
  rw [runParts_status, aggregateStatus_eq_failed_iff]
  constructor
  · rintro ⟨record, hrecord, hstatus⟩
    obtain ⟨job, -, -, htold⟩ := haccount.told record hrecord
    obtain ⟨failure, hjob, hanswer⟩ := htold.failed_iff.mp hstatus
    have hmem : job ∈ trace.callsOf record.stepId := by
      rw [hcalls, Trace.callsOf, hjob]
      exact List.mem_singleton_self job
    exact ⟨job, (List.mem_filter.mp hmem).1, failure, hanswer⟩
  · rintro ⟨job, hmem, failure, hanswer⟩
    have hcalled : job ∈ (r.runParts plan.cut plan.id).2.callsOf job.1.id := by
      rw [← hcalls]
      exact List.mem_filter.mpr ⟨hmem, beq_self_eq_true _⟩
    have hjob := haccount.calls (List.mem_filter.mp hcalled).1
    obtain ⟨record, hrecord, -, htold⟩ := haccount.exists_record hids hjob
    exact ⟨record, hrecord, htold.failed_of_mem hcalled hanswer⟩

/-- A run has succeeded just when every step was called once and answered with its output. -/
theorem status_eq_succeeded_iff (hplan : plan.Sliceable) {trace : Trace}
    (hsched : r.Schedule plan.cut plan.id trace) :
    (r.runParts plan.cut plan.id).1.status = .succeeded ↔
      ∀ s ∈ plan.steps, ∃ host output, r.AnsweredOnce plan s host trace (.ok output) := by
  have hids := nodup_jobs (r := r) hplan
  have haccount := runParts_accounts plan.cut_keyed hids
  rw [runParts_status, aggregateStatus_eq_succeeded_iff]
  constructor
  · intro hall s hs
    obtain ⟨record, hfound, -, hhonest⟩ := exists_honest (r := r) hplan hs
    have hrecord : record ∈ (r.runParts plan.cut plan.id).1.steps :=
      (List.mem_filter.mp (hfound ▸ List.mem_singleton_self record)).1
    obtain ⟨output, hanswered⟩ := (hhonest trace hsched).succeeded.mp (hall record hrecord)
    exact ⟨record.host, output, hanswered⟩
  · intro hall record hrecord
    obtain ⟨job, hjob, hsubject, htold⟩ := haccount.told record hrecord
    -- The record is that of a step of the plan, whose only call was answered with an output.
    have hmem := jobs_perm.subset (List.mem_map_of_mem hjob)
    obtain ⟨s, hs, heq⟩ := List.mem_map.mp hmem
    have hid : s.id = record.stepId :=
      (congrArg Prod.fst heq).trans (congrArg Prod.fst hsubject).symm
    obtain ⟨host, output, honce, hanswer⟩ := hall s hs
    rw [hsched.callsOf_eq hids, Trace.callsOf, hid] at honce
    rw [honce] at htold
    exact htold.succeeded_of_mem (List.mem_singleton_self _) hanswer

/--
**The report of a sliced plan is complete, in order and honest.**  It lists the global
steps and then the hosts by their ids, the steps of each by index and id, and these are
the steps of the plan.  Every step has one record, found by its id, which says what
happened in whatever schedule the run took.  The run has failed just when a call was
answered with an error, and it has succeeded just when every step was called once and
answered with its output.
-/
theorem dispatch_report_honest {slice : Slice} {report : Report} {trace : Trace}
    (hslice : plan.slice = .ok slice) (hrun : r.dispatch slice plan.id = .ok (report, trace)) :
    (report.steps.map (fun record => (record.stepId, record.host)) =
        slice.globalSteps.map (fun s => (s.id, Host.fleet)) ++
          slice.hostPlans.entries.flatMap fun e => e.2.steps.map fun step => (step.id, e.2.host)) ∧
      slice.globalSteps.Pairwise Step.Before ∧ slice.hostPlans.keys.Pairwise (· < ·) ∧
      (∀ e ∈ slice.hostPlans.entries,
        e.2.host.id = e.1 ∧ e.2.steps.Pairwise HostStep.Before) ∧
      (report.steps.map fun record => (record.stepId, record.host.id)).Perm
        (plan.steps.map fun s => (s.id, s.host.id)) ∧
      (∀ s ∈ plan.steps, ∃ record, report.step? s.id = some record ∧
        report.steps.filter (·.stepId == s.id) = [record] ∧ record.host.id = s.host.id ∧
        ∀ trace', r.Schedule slice plan.id trace' → r.Honest plan s trace' record) ∧
      ∀ trace', r.Schedule slice plan.id trace' →
        (report.status = .failed ↔
          ∃ job ∈ trace'.calls, ∃ failure, r.answer? job = some (.error failure)) ∧
        (report.status = .succeeded ↔
          ∀ s ∈ plan.steps, ∃ host output, r.AnsweredOnce plan s host trace' (.ok output)) := by
  obtain ⟨hplan, rfl⟩ := Plan.slice_eq_ok_iff.mp hslice
  obtain ⟨-, hresult⟩ := dispatch_eq_ok_iff.mp hrun
  obtain rfl : report = (r.runParts plan.cut plan.id).1 := congrArg Prod.fst hresult
  have haccount := runParts_accounts plan.cut_keyed (nodup_jobs (r := r) hplan)
  have hsubjects := haccount.subjects.trans jobs_subjects
  have hglobals : (plan.globalSteps.map (·.id)).Nodup :=
    ((List.mergeSort_perm _ _).map _).nodup_iff.mpr
      (hplan.nodup.sublist (List.filter_sublist.map _))
  refine ⟨?_, ?_, ?_, ?_, ?_, ?_, ?_⟩
  · rw [Slice.subjects, Dict.values, List.flatMap_map] at hsubjects
    exact hsubjects
  · exact Step.pairwise_before (Step.pairwise_sort _) hglobals
  · rw [Dict.keys, List.pairwise_map]
    exact plan.cut.hostPlans.sorted
  · intro e he
    have hpart : Plan.HostPart plan e.1 e.2 := Plan.hostPart_of_mem he
    exact ⟨hpart.host_id, HostStep.pairwise_before hpart.sorted (hpart.nodup_ids hplan)⟩
  · have hpairs := congrArg (List.map fun subject : String × Host => (subject.1, subject.2.id))
      haccount.subjects
    rw [List.map_map, List.map_map] at hpairs
    exact (List.Perm.of_eq hpairs).trans jobs_perm
  · intro s hs
    obtain ⟨record, hfound, hhost, hhonest⟩ := exists_honest (r := r) hplan hs
    refine ⟨record, ?_, hfound, hhost, hhonest⟩
    rw [Report.step?, ← List.head?_filter, hfound]
    rfl
  · exact fun trace' hsched =>
      ⟨status_eq_failed_iff hplan hsched, status_eq_succeeded_iff hplan hsched⟩

/-- A run that has failed on one of two hosts; the record of the step there is honest. -/
theorem dispatch_report_honest_of_twoHosts : ∃ slice report trace record,
    twoHosts.slice = .ok slice ∧
      dispatch ⟨failingOnK, .default, "1"⟩ slice twoHosts.id = .ok (report, trace) ∧
      report.status = .failed ∧
      (∃ job ∈ trace.calls, ∃ failure,
        answer? ⟨failingOnK, .default, "1"⟩ job = some (.error failure)) ∧
      report.step? "b" = some record ∧ record.host.id = "k" ∧
      Honest ⟨failingOnK, .default, "1"⟩ twoHosts (.bare "b" .zero .noop (.named "k")) trace
        record := by
  have hslice : twoHosts.slice = .ok twoHosts.cut :=
    Plan.slice_eq_ok_iff.mpr ⟨Plan.sliceError?_eq_none_iff.mp (by decide +kernel), rfl⟩
  have hrun : dispatch ⟨failingOnK, .default, "1"⟩ twoHosts.cut twoHosts.id =
      .ok (runParts ⟨failingOnK, .default, "1"⟩ twoHosts.cut twoHosts.id) :=
    dispatch_eq_ok_iff.mpr ⟨by cbv, rfl⟩
  have hfailed : (runParts ⟨failingOnK, .default, "1"⟩ twoHosts.cut twoHosts.id).1.status =
      .failed := by cbv
  have hsched := schedule_runParts ⟨failingOnK, .default, "1"⟩ twoHosts.cut twoHosts.id
  have hstep : Step.bare "b" .zero .noop (.named "k") ∈ twoHosts.steps :=
    List.mem_cons_of_mem _ (List.mem_cons_of_mem _ List.mem_cons_self)
  obtain ⟨-, -, -, -, -, hrecords, hstatus⟩ := dispatch_report_honest hslice hrun
  obtain ⟨record, hfound, -, hhost, hhonest⟩ := hrecords _ hstep
  exact ⟨_, _, _, record, hslice, hrun, hfailed, (hstatus _ hsched).1.mp hfailed, hfound, hhost,
    hhonest _ hsched⟩

end Runner

end FleetPlan
