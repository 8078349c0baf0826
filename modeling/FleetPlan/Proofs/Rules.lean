/-
What becomes of a step, told by the records before it.

The loop over a list of steps carries two things along, the ids that succeeded and the step
that failed.  `Becomes` does without them: it is a list of rules, one for each thing that may
become of a step, and their premises are about the records of the steps before it, the
filter, the registry and the executor's answer.  A rule applies only where those above it do
not, so the rules leave no choice.

What the loop carries along reflects the records made so far (`Progress.Reflects`): a step
keeps this up, and where it holds the rules allow just the record that the step makes.  The
run is then told position by position, and its calls are those of the steps that were not
skipped.  Ids may be repeated throughout.
-/
import FleetPlan.Proofs.Order

namespace FleetPlan

/-! ### Rules -/

/-- The failures in a list of records. -/
def failures (records : List StepRecord) : List StepRecord := records.filter (·.status == .failed)

/-- One of the records is that of a success of a step of this id. -/
def Done (records : List StepRecord) (id : String) : Prop :=
  ∃ record ∈ records, record.stepId = id ∧ record.status = .succeeded

/-- A step of this id is asked for: it is named, or nothing is. -/
def RunOptions.AsksFor (options : RunOptions) (id : String) : Prop :=
  options.stepFilter = [] ∨ id ∈ options.stepFilter

namespace Runner

/-- What becomes of a step behind these records. -/
inductive Becomes (r : Runner) (c : RunContext) (earlier : List StepRecord) (step : HostStep) :
    StepRecord → Prop
  /-- A step has failed, one and no other. -/
  | halted {failed : StepRecord} (hfailed : failures earlier = [failed]) :
      Becomes r c earlier step <| .skipped step.id c.host .halted
        ("step " ++ Text.quoted failed.stepId ++ " failed earlier on this host")
  | filtered (hgoing : failures earlier = []) (hnot : ¬r.options.AsksFor step.id) :
      Becomes r c earlier step <| .skipped step.id c.host .filtered "excluded by step filter"
  /-- The first dependency that has not succeeded is named. -/
  | waiting {before after : List String} {d : String} (hgoing : failures earlier = [])
      (hasked : r.options.AsksFor step.id) (hsplit : step.dependsOn = before ++ d :: after)
      (hbefore : ∀ e ∈ before, Done earlier e) (hmissing : ¬Done earlier d) :
      Becomes r c earlier step <| .skipped step.id c.host .dependencyNotCompleted
        ("dependency " ++ Text.quoted d ++ " did not complete")
  | unattended (hgoing : failures earlier = []) (hasked : r.options.AsksFor step.id)
      (hdeps : ∀ d ∈ step.dependsOn, Done earlier d)
      (hnone : r.registry.get? step.action = none) :
      Becomes r c earlier step <| .skipped step.id c.host .noExecutor
        ("no executor registered for action " ++ Text.quoted step.action.name)
  | succeeded {executor : Executor} {output : List OutputLine} (hgoing : failures earlier = [])
      (hasked : r.options.AsksFor step.id) (hdeps : ∀ d ∈ step.dependsOn, Done earlier d)
      (hget : r.registry.get? step.action = some executor)
      (hanswer : executor step c = .ok output) :
      Becomes r c earlier step
        ⟨step.id, c.host, .succeeded, r.now, r.now, none, output, .empty⟩
  | failed {executor : Executor} {failure : Failure} (hgoing : failures earlier = [])
      (hasked : r.options.AsksFor step.id) (hdeps : ∀ d ∈ step.dependsOn, Done earlier d)
      (hget : r.registry.get? step.action = some executor)
      (hanswer : executor step c = .error failure) :
      Becomes r c earlier step
        ⟨step.id, c.host, .failed, r.now, r.now,
          some ⟨StepErrorCode.executionError.name, failure.line⟩,
          [⟨r.now, .stderr, failure.line⟩], .empty⟩

end Runner

/-! ### What the loop carries along -/

/-- What has become of the steps so far is what the records say. -/
structure Progress.Reflects (p : Progress) (records : List StepRecord) : Prop where
  succeeded : ∀ id, id ∈ p.succeeded ↔ Done records id
  failed : (failures records).map (·.stepId) = p.failed.toList

namespace Progress.Reflects

variable {p : Progress} {records : List StepRecord} {record : StepRecord}

theorem start : Progress.start.Reflects [] := by
  refine ⟨?_, rfl⟩
  intro id
  simp [Progress.start, Done]

theorem failed_eq_none_iff (h : p.Reflects records) : p.failed = none ↔ failures records = [] := by
  have hfailed := h.failed
  cases hp : p.failed with
  | none => simpa [hp] using hfailed
  | some id =>
    rw [hp] at hfailed
    have hne : failures records ≠ [] := by
      intro hnil
      simp [hnil] at hfailed
    simp [hne]

theorem failed_eq_of_failures (h : p.Reflects records) (hfailed : failures records = [record]) :
    p.failed = some record.stepId := by
  have hids := h.failed
  rw [hfailed] at hids
  cases hp : p.failed <;> simp_all

/-- A record is reflected when it is made, and no second failure is made. -/
theorem after (h : p.Reflects records) (hfirst : record.status = .failed → p.failed = none) :
    (p.after record).Reflects (records ++ [record]) := by
  constructor
  · intro id
    rw [mem_after_succeeded, h.succeeded]
    simp only [Done, List.mem_append, List.mem_singleton]
    constructor
    · rintro (⟨found, hfound, hid, hstatus⟩ | ⟨hstatus, rfl⟩)
      · exact ⟨found, .inl hfound, hid, hstatus⟩
      · exact ⟨record, .inr rfl, rfl, hstatus⟩
    · rintro ⟨found, hfound | rfl, rfl, hstatus⟩
      · exact .inl ⟨found, hfound, rfl, hstatus⟩
      · exact .inr ⟨hstatus, rfl⟩
  · have hfailures : failures (records ++ [record]) = failures records ++ failures [record] :=
      List.filter_append ..
    rw [hfailures, List.map_append, h.failed]
    by_cases hstatus : record.status = .failed
    · simp [failures, hstatus, hfirst hstatus, Progress.after]
    · have hkeeps : (p.after record).failed = p.failed := by
        unfold Progress.after
        split
        · rfl
        · contradiction
        · rfl
      simp [failures, hstatus, hkeeps]

end Progress.Reflects

theorem RunOptions.includes_iff {options : RunOptions} {id : String} :
    options.includes id = true ↔ options.AsksFor id := by
  simp [includes, AsksFor]

namespace Runner

variable {r : Runner} {c : RunContext} {p : Progress} {step : HostStep} {earlier : List StepRecord}
variable {record : StepRecord}

/-! ### One step -/

/-- No dependency is found missing just when all have succeeded. -/
theorem find?_eq_none_iff_done (hp : p.Reflects earlier) {deps : List String} :
    deps.find? (!p.succeeded.contains ·) = none ↔ ∀ d ∈ deps, Done earlier d := by
  rw [List.find?_eq_none]
  simp only [← hp.succeeded]
  simp

/-- The dependency that is found missing is the first that has not succeeded. -/
theorem find?_eq_some_iff_done (hp : p.Reflects earlier) {deps : List String} {d : String} :
    deps.find? (!p.succeeded.contains ·) = some d ↔
      ∃ before after, deps = before ++ d :: after ∧ (∀ e ∈ before, Done earlier e) ∧
        ¬Done earlier d := by
  rw [List.find?_eq_some_iff_append]
  simp only [← hp.succeeded]
  constructor
  · rintro ⟨hmissing, before, after, hsplit, hbefore⟩
    exact ⟨before, after, hsplit, by simpa using hbefore, by simpa using hmissing⟩
  · rintro ⟨before, after, hsplit, hbefore, hmissing⟩
    exact ⟨by simpa using hmissing, before, after, hsplit, by simpa using hbefore⟩

/-- Some rule applies, whatever was recorded, as long as no two steps have failed. -/
theorem exists_becomes (r : Runner) (c : RunContext) (hp : p.Reflects earlier) (step : HostStep) :
    ∃ record, r.Becomes c earlier step record := by
  cases hfailed : p.failed with
  | some id =>
    have hids := hp.failed
    rw [hfailed] at hids
    obtain ⟨failed, hfailures, -⟩ := List.map_eq_singleton_iff.mp hids
    exact ⟨_, .halted hfailures⟩
  | none =>
    have hgoing := hp.failed_eq_none_iff.mp hfailed
    by_cases hasked : r.options.AsksFor step.id
    · cases hfind : step.dependsOn.find? (!p.succeeded.contains ·) with
      | some d =>
        obtain ⟨before, after, hsplit, hbefore, hmissing⟩ := (find?_eq_some_iff_done hp).mp hfind
        exact ⟨_, .waiting hgoing hasked hsplit hbefore hmissing⟩
      | none =>
        have hdeps := (find?_eq_none_iff_done hp).mp hfind
        cases hget : r.registry.get? step.action with
        | none => exact ⟨_, .unattended hgoing hasked hdeps hget⟩
        | some executor =>
          cases hanswer : executor step c with
          | ok output => exact ⟨_, .succeeded hgoing hasked hdeps hget hanswer⟩
          | error failure => exact ⟨_, .failed hgoing hasked hdeps hget hanswer⟩
    · exact ⟨_, .filtered hgoing hasked⟩

/-- A rule allows the record that the step makes. -/
theorem Becomes.eq_runStep (hp : p.Reflects earlier) (h : r.Becomes c earlier step record) :
    (r.runStep c p step).1 = record := by
  cases h with
  | halted hfailed =>
    have hp' := hp.failed_eq_of_failures hfailed
    simp [runStep, decision, skip, hp']
  | filtered hgoing hnot =>
    have hp' := hp.failed_eq_none_iff.mpr hgoing
    rw [← RunOptions.includes_iff] at hnot
    simp [runStep, decision, skip, hp', hnot]
  | waiting hgoing hasked hsplit hbefore hmissing =>
    have hp' := hp.failed_eq_none_iff.mpr hgoing
    have hfind := (find?_eq_some_iff_done hp).mpr ⟨_, _, hsplit, hbefore, hmissing⟩
    rw [← RunOptions.includes_iff] at hasked
    simp only [runStep, decision, skip, hp', hasked, hfind, Bool.not_true, Bool.false_eq_true,
      if_false]
  | unattended hgoing hasked hdeps hnone =>
    have hp' := hp.failed_eq_none_iff.mpr hgoing
    have hfind := (find?_eq_none_iff_done hp).mpr hdeps
    rw [← RunOptions.includes_iff] at hasked
    simp only [runStep, decision, skip, hp', hasked, hfind, hnone, Bool.not_true,
      Bool.false_eq_true, if_false]
  | succeeded hgoing hasked hdeps hget hanswer =>
    have hp' := hp.failed_eq_none_iff.mpr hgoing
    have hfind := (find?_eq_none_iff_done hp).mpr hdeps
    rw [← RunOptions.includes_iff] at hasked
    simp only [runStep, decision, hp', hasked, hfind, hget, Bool.not_true, Bool.false_eq_true,
      if_false, attempt, hanswer]
    rfl
  | failed hgoing hasked hdeps hget hanswer =>
    have hp' := hp.failed_eq_none_iff.mpr hgoing
    have hfind := (find?_eq_none_iff_done hp).mpr hdeps
    rw [← RunOptions.includes_iff] at hasked
    simp only [runStep, decision, hp', hasked, hfind, hget, Bool.not_true, Bool.false_eq_true,
      if_false, attempt, hanswer]
    rfl

/-- **The rules allow one record, the one that the step makes.** -/
theorem becomes_iff (hp : p.Reflects earlier) :
    r.Becomes c earlier step record ↔ (r.runStep c p step).1 = record := by
  constructor
  · exact Becomes.eq_runStep hp
  · intro h
    obtain ⟨record', hbecomes⟩ := r.exists_becomes c hp step
    rw [← h, hbecomes.eq_runStep hp]
    exact hbecomes

/-- A step fails only where none has failed. -/
theorem failed_of_runStep (h : (r.runStep c p step).1.status = .failed) : p.failed = none := by
  rcases r.runStep_cases c p step with ⟨executor, _, hdecision, -, -⟩ | ⟨_, _, _, -, hrun⟩
  · exact (decision_eq_attempt hdecision).1
  · rw [hrun] at h
    cases h

/-- A step is called just when it is not skipped, and then once. -/
theorem runStep_calls : (r.runStep c p step).2.calls =
    if (r.runStep c p step).1.status != .skipped then [(step, c)] else [] := by
  rcases r.runStep_cases c p step with ⟨executor, told, -, htold, hrun⟩ | ⟨_, _, l, -, hrun⟩
  · have hcalls : Trace.calls told = [] := Trace.filterMap_eq_nil_of_logged (fun _ => rfl) htold
    have hattempted : (r.recordOf c step (executor step c)).status ≠ .skipped := by
      cases executor step c <;> exact fun h => StepStatus.noConfusion h
    rw [hrun, if_pos (by simpa using hattempted)]
    exact congrArg (List.cons _) hcalls
  · rw [hrun]
    rfl

/-! ### All steps -/

/-- A list of steps is told by the rules, position by position. -/
theorem runFrom_becomes (hp : p.Reflects earlier) {steps : List HostStep} {i : Nat}
    (hstep : steps[i]? = some step) : (r.runFrom c p steps).1[i]? = some record ↔
      r.Becomes c (earlier ++ (r.runFrom c p steps).1.take i) step record := by
  induction steps generalizing p earlier i with
  | nil => simp at hstep
  | cons first rest ih =>
    rw [runFrom_cons]
    cases i with
    | zero =>
      obtain rfl : first = step := by simpa using hstep
      simpa using (becomes_iff hp).symm
    | succ i =>
      have hrest : (p.after (r.runStep c p first).1).Reflects
          (earlier ++ [(r.runStep c p first).1]) := hp.after failed_of_runStep
      have hlater := ih hrest (i := i) (by simpa using hstep)
      simpa using hlater

/-- The calls are those of the steps that are not skipped, in the order of the list. -/
theorem runFrom_calls (r : Runner) (c : RunContext) (p : Progress) (steps : List HostStep) :
    (r.runFrom c p steps).2.calls =
      ((steps.zip (r.runFrom c p steps).1).filter fun e => e.2.status != .skipped).map
        fun e => (e.1, c) := by
  induction steps generalizing p with
  | nil => rfl
  | cons step rest ih =>
    rw [runFrom_cons_calls, runStep_calls, ih, runFrom_cons, List.zip_cons_cons, List.filter_cons]
    split <;> rfl

/-- A record is that of a success, of a failure or of a step that was skipped. -/
theorem status_of_runStep (r : Runner) (c : RunContext) (p : Progress) (step : HostStep) :
    (r.runStep c p step).1.status = .succeeded ∨ (r.runStep c p step).1.status = .failed ∨
      (r.runStep c p step).1.status = .skipped := by
  rcases r.runStep_cases c p step with ⟨executor, _, -, -, hrun⟩ | ⟨_, _, _, -, hrun⟩
  · rw [hrun]
    cases executor step c with
    | ok output => exact .inl rfl
    | error failure => exact .inr (.inl rfl)
  · rw [hrun]
    exact .inr (.inr rfl)

theorem status_of_mem_runFrom {steps : List HostStep} (h : record ∈ (r.runFrom c p steps).1) :
    record.status = .succeeded ∨ record.status = .failed ∨ record.status = .skipped := by
  induction steps generalizing p with
  | nil => simp [runFrom] at h
  | cons step rest ih =>
    rw [runFrom_cons] at h
    rcases List.mem_cons.mp h with rfl | h
    · exact r.status_of_runStep c p step
    · exact ih h

/-- In a list that can be run each dependency has a record before its step. -/
theorem exists_record_of_dependency {host : Host} {steps : List HostStep}
    (horder : orderError? host steps = none) {i : Nat} (hstep : steps[i]? = some step) {d : String}
    (hd : d ∈ step.dependsOn) : ∃ record ∈ (r.runFrom c p steps).1.take i, record.stepId = d := by
  obtain ⟨hi, hstep⟩ := List.getElem?_eq_some_iff.mp hstep
  have hsplit : steps = steps.take i ++ step :: steps.drop (i + 1) := by
    rw [← hstep, List.cons_getElem_drop_succ, List.take_append_drop]
  obtain ⟨-, hbefore⟩ := before_of_orderErrorFrom?_eq_none horder hsplit hd
  have hids := congrArg (List.map Prod.fst) (r.runFrom_records c p steps)
  simp only [List.map_map, Function.comp_def] at hids
  have hmem : d ∈ ((r.runFrom c p steps).1.take i).map (·.stepId) := by
    rw [List.map_take, hids, ← List.map_take]
    exact hbefore.resolve_right List.not_mem_nil
  exact List.mem_map.mp hmem

/-- No more than one step fails. -/
theorem length_failures_le (hp : p.Reflects earlier) (steps : List HostStep) :
    (failures (earlier ++ (r.runFrom c p steps).1)).length ≤ 1 := by
  induction steps generalizing p earlier with
  | nil =>
    have hlength := congrArg List.length hp.failed
    rw [List.length_map] at hlength
    show (failures (earlier ++ [])).length ≤ 1
    rw [List.append_nil, hlength]
    cases p.failed <;> simp
  | cons step rest ih =>
    have hrest : (p.after (r.runStep c p step).1).Reflects
        (earlier ++ [(r.runStep c p step).1]) := hp.after failed_of_runStep
    have hlater := ih hrest
    rw [runFrom_cons]
    simpa using hlater

/--
**A run is told by the rules.**  Take a host plan for a host whose steps can be run in their
order.  It is run, whatever is asked for and whatever the executors do, and has one record for
each step, in the order of the list.  At each position the record is the one that the rules
allow behind the records before it, and no more than one of all records is a failure.  A
dependency that has not succeeded, where nothing has failed, has records before its step and
all of them are of steps that were skipped.  And what was called are the steps that were not
skipped, each once and in the order of the list.
-/
theorem runHostPlan_by_rules (r : Runner) {plan : HostPlan} (hhost : plan.host.id ≠ "")
    (horder : orderError? plan.host plan.steps = none) :
    ∃ report trace, r.runHostPlan plan = .ok (report, trace) ∧
      report.steps.map (·.subject) = plan.subjects ∧
      (∀ i step record, plan.steps[i]? = some step →
        (report.steps[i]? = some record ↔
          r.Becomes ⟨plan.planId, plan.host, r.options.dryRun⟩ (report.steps.take i) step
            record)) ∧
      (failures report.steps).length ≤ 1 ∧
      (∀ i step, plan.steps[i]? = some step → failures (report.steps.take i) = [] →
        ∀ d ∈ step.dependsOn, ¬Done (report.steps.take i) d →
          (∃ record ∈ report.steps.take i, record.stepId = d) ∧
            ∀ record ∈ report.steps.take i, record.stepId = d → record.status = .skipped) ∧
      trace.calls = ((plan.steps.zip report.steps).filter fun e => e.2.status != .skipped).map
        fun e => (e.1, ⟨plan.planId, plan.host, r.options.dryRun⟩) := by
  set c : RunContext := ⟨plan.planId, plan.host, r.options.dryRun⟩
  have haccepted : plan.runError? = none := by
    unfold HostPlan.runError?
    rw [if_neg (by simpa [Host.isGlobal] using hhost), horder]
  have hrun : r.runHostPlan plan = .ok (r.runSteps plan.planId plan.host plan.steps) := by
    unfold runHostPlan
    rw [haccepted]
  refine ⟨_, _, hrun, r.runSteps_records _ _ _, ?_, ?_, ?_, ?_⟩
  · intro i step record hstep
    exact runFrom_becomes .start hstep
  · exact length_failures_le .start plan.steps
  · intro i step hstep hgoing d hd hmissing
    refine ⟨exists_record_of_dependency horder hstep hd, ?_⟩
    intro record hmem hid
    rcases status_of_mem_runFrom (List.mem_of_mem_take hmem) with hdone | hfailed | hskipped
    · exact absurd ⟨record, hmem, hid, hdone⟩ hmissing
    · have hmem : record ∈ failures _ := List.mem_filter.mpr ⟨hmem, by simpa using hfailed⟩
      rw [hgoing] at hmem
      exact absurd hmem List.not_mem_nil
    · exact hskipped
  · have hcalls := r.runSteps_calls plan.planId plan.host plan.steps
    exact hcalls.trans (r.runFrom_calls c .start plan.steps)

/-- A host plan in which something else becomes of each step; two steps share an id. -/
def oneOfEach : HostPlan :=
  ⟨schemaVersion, "p", .named "h",
    [step "a" .noop [], step "b" .noop ["a"], step "b" .delete [], step "c" .noop ["a", "b"],
      step "d" .delete ["a"], step "e" .build ["a"], step "f" .noop ["b"]], .empty⟩
where
  step (id : String) (action : Action) (dependsOn : List String) : HostStep :=
    { HostStep.ofStep (.bare id .zero action .fleet) with dependsOn := dependsOn }

/-- A runner that fails to build, deletes nothing and leaves out one step. -/
def partly : Runner where
  registry := ⟨fun
    | .noop => some fun _ _ => .ok []
    | .build => some fun _ _ => .error ⟨"down", []⟩
    | _ => none⟩
  options := { RunOptions.default with stepFilter := ["a", "c", "d", "e", "f"] }
  now := ""

/-- The step that waits for one that was left out is skipped, and the last one is not reached. -/
theorem runHostPlan_by_rules_of_oneOfEach : ∃ report trace,
    partly.runHostPlan oneOfEach = .ok (report, trace) ∧
      report.steps.map (·.code?) = [none, some "FILTERED", some "FILTERED",
        some "DEPENDENCY_NOT_COMPLETED", some "NO_EXECUTOR", some "EXECUTION_ERROR",
        some "HALTED"] ∧
      partly.Becomes ⟨"p", .named "h", false⟩ (report.steps.take 3)
        (oneOfEach.step "c" .noop ["a", "b"])
        (.skipped "c" (.named "h") .dependencyNotCompleted "dependency \"b\" did not complete") ∧
      (∀ record ∈ report.steps.take 3, record.stepId = "b" → record.status = .skipped) ∧
      partly.Becomes ⟨"p", .named "h", false⟩ (report.steps.take 6)
        (oneOfEach.step "f" .noop ["b"])
        (.skipped "f" (.named "h") .halted "step \"e\" failed earlier on this host") ∧
      trace.calls.map (·.1.id) = ["a", "e"] := by
  have horder : orderError? oneOfEach.host oneOfEach.steps = none := by decide +kernel
  obtain ⟨report, trace, hrun, -, hrules, -, hskipped, -⟩ :=
    partly.runHostPlan_by_rules (show oneOfEach.host.id ≠ "" by decide) horder
  have hvalue : partly.runHostPlan oneOfEach = .ok (partly.runSteps "p" (.named "h")
      oneOfEach.steps) := by cbv
  obtain ⟨rfl, rfl⟩ := Prod.mk.inj (Except.ok.inj (hrun.symm.trans hvalue))
  refine ⟨_, _, hrun, by cbv, (hrules 3 _ _ rfl).mp (by cbv), ?_, (hrules 6 _ _ rfl).mp (by cbv),
    by cbv⟩
  refine (hskipped 3 _ rfl (by cbv) "b" (by decide) ?_).2
  have hnone : ((partly.runSteps "p" (.named "h") oneOfEach.steps).1.steps.take 3).all
    (fun record => !(record.stepId == "b" && record.status == .succeeded)) = true := by cbv
  rintro ⟨record, hmem, hid, hdone⟩
  have hnot := List.all_eq_true.mp hnone record hmem
  simp [hid, hdone] at hnot

end Runner

end FleetPlan
