/-
Workers that take host plans and run them side by side.

Here a run is made of small moves.  A `Task` is a host plan on its way: it waits, it is
between two steps, its executor is at work, or it is through.  A move of a task leaves
one event, and a move of the `Pool` is a move of any one task, where a task may be taken
only while a worker is free.  An executor answers at a time of its own, so that the times
in a run are arbitrary.  What the tasks report is collected as they finish, in whatever
order that is.

Each task has a list of events ahead of it that does not depend on the others
(`Task.ahead`), and a move takes the first event of one of these lists (`Move.ahead`).
So a run of the pool is an interleaving of what its tasks would leave on their own, every
run ends, and the reports it collects are the same up to order; filing them by name
takes the order away.  `dispatch_on_workers` says this of the whole run.
-/
import FleetPlan.Proofs.Gating
import FleetPlan.Proofs.Untimed

namespace FleetPlan

/-! ### Tasks -/

/-- A host plan on its way. -/
inductive Task where
  /-- No worker has taken it. -/
  | waiting (part : HostPlan)
  /-- Between two steps, with what is still to be told of the last one. -/
  | running (part : HostPlan) (progress : Progress) (records : List StepRecord) (queued : Trace)
      (rest : List HostStep)
  /-- An executor is at work on a step. -/
  | calling (part : HostPlan) (progress : Progress) (records : List StepRecord)
      (executor : Executor) (step : HostStep) (rest : List HostStep)
  | through

namespace Task

def isWaiting : Task → Bool
  | .waiting _ => true
  | _ => false

/-- A worker is busy with the task. -/
def isBusy : Task → Bool
  | .running .. => true
  | .calling .. => true
  | _ => false

def isThrough : Task → Bool
  | .through => true
  | _ => false

end Task

/-- What is filed when a list of steps is through, under its host's id. -/
def RunEvent.filing? : RunEvent → Option (String × Report)
  | .finished host report => some (host.id, report)
  | _ => none

namespace Runner

variable (r : Runner) (planId : String)

/-- What executors are told on a host. -/
def context (host : Host) : RunContext := ⟨planId, host, r.options.dryRun⟩

/-- One move of a task, and the event that it leaves. -/
inductive Move : Task → RunEvent → Task → Prop
  | take {part : HostPlan} :
      Move (.waiting part) (.started part.host part.steps.length)
        (.running part .start [] [] part.steps)
  | tell {part : HostPlan} {p : Progress} {records : List StepRecord} {e : RunEvent}
      {queued : Trace} {rest : List HostStep} :
      Move (.running part p records (e :: queued) rest) e (.running part p records queued rest)
  | skip {part : HostPlan} {p : Progress} {records : List StepRecord} {step : HostStep}
      {rest : List HostStep} {code : StepErrorCode} {message : String} {record : StepRecord}
      {e : RunEvent} {queued : Trace} (hdecision : r.decision p step = .skip code message)
      (hskip : skip (r.context planId part.host) step code message = (record, e :: queued)) :
      Move (.running part p records [] (step :: rest)) e
        (.running part (p.after record) (records ++ [record]) (queued ++ [.recorded record]) rest)
  | call {part : HostPlan} {p : Progress} {records : List StepRecord} {step : HostStep}
      {rest : List HostStep} {executor : Executor}
      (hdecision : r.decision p step = .attempt executor) :
      Move (.running part p records [] (step :: rest)) (.called step (r.context planId part.host))
        (.calling part p records executor step rest)
  /-- The executor answers, at whatever time it is then. -/
  | answer {part : HostPlan} {p : Progress} {records : List StepRecord} {executor : Executor}
      {step : HostStep} {rest : List HostStep} {record : StepRecord} {e : RunEvent} {queued : Trace}
      (hrecord : record.untimed = (r.recordOf (r.context planId part.host) step
        (executor step (r.context planId part.host))).untimed)
      (htold : (r.attempt (r.context planId part.host) step executor).2.tail ++
        [.recorded record] = e :: queued) :
      Move (.calling part p records executor step rest) e
        (.running part (p.after record) (records ++ [record]) queued rest)
  | finish {part : HostPlan} {p : Progress} {records : List StepRecord} :
      Move (.running part p records [] []) (.finished part.host (.ofSteps planId records)) .through

/-! ### The pool -/

/-- Where a run stands: the host plans on their way, and the reports filed so far. -/
structure Pool where
  tasks : List Task
  filed : List (String × Report)

namespace Pool

/-- Nothing has been taken yet. -/
def start (parts : List HostPlan) : Pool := ⟨parts.map .waiting, []⟩

def Finished (pool : Pool) : Prop := ∀ t ∈ pool.tasks, t.isThrough = true

end Pool

/-- One move of a pool: any task moves, but a task is taken only while a worker is free. -/
inductive PoolMove (workers : Nat) : Pool → RunEvent → Pool → Prop
  | move {left right : List Task} {t t' : Task} {e : RunEvent} {filed : List (String × Report)}
      (h : r.Move planId t e t')
      (hfree : t.isWaiting = true → (left ++ t :: right).countP (·.isBusy) < workers) :
      PoolMove workers ⟨left ++ t :: right, filed⟩ e
        ⟨left ++ t' :: right, filed ++ e.filing?.toList⟩

/-- A run of a pool, as far as it has come. -/
inductive PoolRun (workers : Nat) : Pool → Trace → Pool → Prop
  | refl {pool : Pool} : PoolRun workers pool [] pool
  | head {pool pool' pool'' : Pool} {e : RunEvent} {events : Trace}
      (h : r.PoolMove planId workers pool e pool')
      (hrest : PoolRun workers pool' events pool'') : PoolRun workers pool (e :: events) pool''

end Runner

/-! ### What a task has ahead of it -/

namespace Runner

variable {r : Runner} {planId : String}

/-- What the rest of a list of steps leaves. -/
def remaining (r : Runner) (planId : String) (host : Host) (p : Progress)
    (records : List StepRecord) (rest : List HostStep) : Trace :=
  (r.runFrom (r.context planId host) p rest).2 ++
    [.finished host (.ofSteps planId (records ++ (r.runFrom (r.context planId host) p rest).1))]

theorem remaining_cons {host : Host} {p : Progress} {records : List StepRecord} {step : HostStep}
    {rest : List HostStep} {record : StepRecord} {trace : Trace}
    (hstep : r.runStep (r.context planId host) p step = (record, trace)) :
    r.remaining planId host p records (step :: rest) =
      trace ++ .recorded record ::
        r.remaining planId host (p.after record) (records ++ [record]) rest := by
  unfold remaining
  rw [runFrom_cons, hstep]
  simp

theorem remaining_untimed {host : Host} {p : Progress} {records records' : List StepRecord}
    {rest : List HostStep} (h : records.map (·.untimed) = records'.map (·.untimed)) :
    (r.remaining planId host p records rest).untimed =
      (r.remaining planId host p records' rest).untimed := by
  have hreport (later : List StepRecord) : (Report.ofSteps planId (records ++ later)).untimed =
      (Report.ofSteps planId (records' ++ later)).untimed := by
    rw [Report.ofSteps_untimed, Report.ofSteps_untimed, List.map_append, List.map_append, h]
  unfold remaining
  rw [Trace.untimed_append, Trace.untimed_append]
  refine congrArg _ ?_
  exact congrArg (fun report => [RunEvent.finished host report]) (hreport _)

end Runner

/-- The events that a task would leave if it were alone from now on. -/
def Task.ahead (r : Runner) (planId : String) : Task → Trace
  | .waiting part => (r.runSteps planId part.host part.steps).2
  | .running part p records queued rest => queued ++ r.remaining planId part.host p records rest
  | .calling part p records executor step rest =>
    let c := r.context planId part.host
    let record := r.recordOf c step (executor step c)
    (r.attempt c step executor).2.tail ++ .recorded record ::
      r.remaining planId part.host (p.after record) (records ++ [record]) rest
  | .through => []

namespace Runner

variable {r : Runner} {planId : String} {workers : Nat} {pool pool' : Pool} {events : Trace}

/-- A move takes the first of the events that a task has ahead of it, but for the times. -/
theorem Move.ahead {t t' : Task} {e : RunEvent} (h : r.Move planId t e t') :
    (t.ahead r planId).untimed = e.untimed :: (t'.ahead r planId).untimed := by
  cases h with
  | take => rfl
  | tell => rfl
  | @skip part p records step rest code message record e queued hdecision hskip =>
    have hstep : r.runStep (r.context planId part.host) p step = (record, e :: queued) := by
      rw [runStep, hdecision]
      exact hskip
    show Trace.untimed (r.remaining planId part.host p records (step :: rest)) =
      Trace.untimed (e :: (queued ++ [.recorded record] ++
        r.remaining planId part.host (p.after record) (records ++ [record]) rest))
    rw [remaining_cons hstep, List.append_assoc]
    rfl
  | @call part p records step rest executor hdecision =>
    have hstep : r.runStep (r.context planId part.host) p step =
        r.attempt (r.context planId part.host) step executor := by
      rw [runStep, hdecision]
    show Trace.untimed (r.remaining planId part.host p records (step :: rest)) = _
    rw [remaining_cons hstep]
    rfl
  | @answer part p records executor step rest record e queued hrecord htold =>
    set c := r.context planId part.host
    set expected := r.recordOf c step (executor step c)
    have hafter : p.after expected = p.after record := by
      rw [← p.after_untimed, ← hrecord, p.after_untimed]
    have hrecords : (records ++ [expected]).map (·.untimed) =
        (records ++ [record]).map (·.untimed) := by
      rw [List.map_append, List.map_append]
      exact congrArg (fun record => records.map (·.untimed) ++ [record]) hrecord.symm
    show Trace.untimed ((r.attempt c step executor).2.tail ++ ([.recorded expected] ++
        r.remaining planId part.host (p.after expected) (records ++ [expected]) rest)) =
      Trace.untimed (e :: queued ++
        r.remaining planId part.host (p.after record) (records ++ [record]) rest)
    rw [← htold, hafter, List.append_assoc, Trace.untimed_append, Trace.untimed_append,
      Trace.untimed_append, Trace.untimed_append, remaining_untimed hrecords]
    refine congrArg _ (congrArg₂ _ ?_ rfl)
    exact congrArg (fun record => [RunEvent.recorded record]) hrecord.symm
  | @finish part p records =>
    show Trace.untimed [.finished part.host (.ofSteps planId (records ++ []))] = _
    rw [List.append_nil]
    rfl

/-- What all tasks have ahead of them, but for the times. -/
def Pool.ahead (r : Runner) (planId : String) (pool : Pool) : List Trace :=
  pool.tasks.map fun t => (t.ahead r planId).untimed

theorem ahead_eq_nil {t : Task} (h : t.isThrough = true) : t.ahead r planId = [] := by
  cases t <;> first | rfl | exact Bool.noConfusion h

/-- **A run takes what the tasks have ahead of them, in an order of its own.** -/
theorem PoolRun.interleaving (h : r.PoolRun planId workers pool events pool')
    (hfinished : pool'.Finished) : Interleaving (pool.ahead r planId) events.untimed := by
  induction h with
  | refl =>
    refine .done fun part hpart => ?_
    obtain ⟨t, ht, rfl⟩ := List.mem_map.mp hpart
    rw [ahead_eq_nil (hfinished t ht)]
    rfl
  | head h hrest ih =>
    cases h with
    | @move left right t t' e filed h hfree =>
      have hlater := ih hfinished
      rw [Pool.ahead, List.map_append, List.map_cons] at hlater ⊢
      rw [h.ahead]
      exact .next hlater

/-- The reports are filed as the tasks finish. -/
theorem PoolRun.filed (h : r.PoolRun planId workers pool events pool') :
    pool'.filed = pool.filed ++ events.filterMap RunEvent.filing? := by
  induction h with
  | refl => rw [List.filterMap_nil, List.append_nil]
  | @head pool pool' pool'' e events h hrest ih =>
    cases h with
    | @move left right t t' e filed h hfree =>
      rw [ih, List.append_assoc]
      refine congrArg _ ?_
      cases hfiling : e.filing? with
      | none => rw [List.filterMap_cons_none hfiling]; rfl
      | some filing => rw [List.filterMap_cons_some hfiling]; rfl

/-! ### Every run ends -/

/-- How many events there are ahead of all tasks. -/
def Pool.size (r : Runner) (planId : String) (pool : Pool) : Nat :=
  (pool.ahead r planId).flatten.length

/-- A move uses up one event. -/
theorem PoolMove.size {e : RunEvent} (h : r.PoolMove planId workers pool e pool') :
    pool.size r planId = pool'.size r planId + 1 := by
  cases h with
  | move h hfree =>
    simp only [Pool.size, Pool.ahead, List.map_append, List.map_cons, h.ahead, List.length_flatten,
      List.sum_append, List.sum_cons, List.length_cons]
    omega

theorem PoolRun.size (h : r.PoolRun planId workers pool events pool') :
    pool.size r planId = events.length + pool'.size r planId := by
  induction h with
  | refl => simp
  | head h hrest ih => rw [h.size, ih, List.length_cons]; omega

/-- A task that a worker is busy with can move. -/
theorem exists_move_of_isBusy (r : Runner) (planId : String) {t : Task} (h : t.isBusy = true) :
    ∃ e t', r.Move planId t e t' := by
  cases t with
  | waiting part => exact Bool.noConfusion h
  | through => exact Bool.noConfusion h
  | running part p records queued rest =>
    cases queued with
    | cons e queued => exact ⟨_, _, .tell⟩
    | nil =>
      cases rest with
      | nil => exact ⟨_, _, .finish⟩
      | cons step rest =>
        cases hdecision : r.decision p step with
        | skip code message => exact ⟨_, _, .skip hdecision rfl⟩
        | attempt executor => exact ⟨_, _, .call hdecision⟩
  | calling part p records executor step rest =>
    set c := r.context planId part.host
    obtain ⟨e, queued, htold⟩ := List.exists_cons_of_ne_nil (List.append_ne_nil_of_right_ne_nil
      (r.attempt c step executor).2.tail
      (List.cons_ne_nil (RunEvent.recorded (r.recordOf c step (executor step c))) []))
    exact ⟨_, _, .answer rfl htold⟩

/-- A pool with a worker can move until all tasks are through. -/
theorem exists_poolMove (r : Runner) (planId : String) (hworkers : 0 < workers)
    (h : ¬pool.Finished) : ∃ e pool', r.PoolMove planId workers pool e pool' := by
  obtain ⟨tasks, filed⟩ := pool
  by_cases hbusy : ∃ t ∈ tasks, t.isBusy = true
  · obtain ⟨t, ht, hbusy⟩ := hbusy
    obtain ⟨left, right, rfl⟩ := List.append_of_mem ht
    obtain ⟨e, t', hmove⟩ := exists_move_of_isBusy r planId hbusy
    refine ⟨_, _, .move hmove fun hwaiting => ?_⟩
    cases t <;> first | exact Bool.noConfusion hbusy | exact Bool.noConfusion hwaiting
  · -- Nobody is at work, so a worker is free for a task that waits.
    obtain ⟨t, ht, hnot⟩ : ∃ t ∈ tasks, ¬t.isThrough = true := by
      simpa [Pool.Finished] using h
    obtain ⟨left, right, rfl⟩ := List.append_of_mem ht
    have hidle : (left ++ t :: right).countP (·.isBusy) = 0 :=
      List.countP_eq_zero.mpr fun t ht hbusy' => hbusy ⟨t, ht, hbusy'⟩
    cases t with
    | waiting part => exact ⟨_, _, .move .take fun _ => hidle ▸ hworkers⟩
    | running => exact absurd ⟨_, ht, rfl⟩ hbusy
    | calling => exact absurd ⟨_, ht, rfl⟩ hbusy
    | through => exact absurd rfl hnot

/-- Every run can be brought to its end. -/
theorem exists_finished (r : Runner) (planId : String) (hworkers : 0 < workers) (pool : Pool) :
    ∃ events pool', r.PoolRun planId workers pool events pool' ∧ pool'.Finished := by
  by_cases hfinished : pool.Finished
  · exact ⟨_, _, .refl, hfinished⟩
  · obtain ⟨e, pool', hmove⟩ := r.exists_poolMove planId hworkers hfinished
    have hless := hmove.size
    obtain ⟨events, pool'', hrun, hfinished⟩ := exists_finished r planId hworkers pool'
    exact ⟨_, _, .head hmove hrun, hfinished⟩
termination_by pool.size r planId

/-! ### A run of a sliced plan on workers -/

variable {slice : Slice}

/-- The hosts of a sliced plan as far as their runs have come, and the events they left. -/
def Underway (r : Runner) (slice : Slice) (planId : String) (events : Trace) (pool : Pool) : Prop :=
  r.PoolRun planId (r.workers (slice.runnable (r.globals slice planId)).length)
    (.start ((slice.runnable (r.globals slice planId)).map (·.2))) events pool

/-- The reports of the host plans that are held back, under the names these are kept under. -/
def heldReports (r : Runner) (slice : Slice) (planId : String) : List (String × Report) :=
  (slice.held (r.globals slice planId)).map fun e =>
    (e.1, e.2.heldBack planId (slice.unmetGlobals (r.globals slice planId) e.2))

/--
What a run of a sliced plan may come to.  The global steps run alone, hosts that wait in
vain are held back, and then the pool runs to its end.
-/
def Outcome (r : Runner) (slice : Slice) (planId : String) (report : Report) (trace : Trace) :
    Prop :=
  ∃ events pool, r.Underway slice planId events pool ∧ pool.Finished ∧
    report = (Dict.ofList (r.heldReports slice planId ++ pool.filed)).values.foldl .merge
      (r.globals slice planId) ∧
    trace = (r.runGlobals slice planId).2 ++ r.heldTrace slice planId ++
      r.announce (slice.runnable (r.globals slice planId)).length ++ events

theorem workers_pos {n : Nat} (h : 0 < n) : 0 < r.workers n := by
  unfold workers
  dsimp only
  split <;> omega

theorem start_ahead : (Pool.start ((slice.runnable (r.globals slice planId)).map (·.2))).ahead r
    planId = (r.hostTraces slice planId).map (·.untimed) := by
  rw [Pool.ahead, Pool.start, hostTraces, List.map_map, List.map_map, List.map_map]
  rfl

/-- A run that has come to its end is an interleaving of what the hosts leave on their own. -/
theorem Underway.interleaving {pool : Pool} (h : r.Underway slice planId events pool)
    (hfinished : pool.Finished) :
    Interleaving ((r.hostTraces slice planId).map (·.untimed)) events.untimed :=
  start_ahead ▸ PoolRun.interleaving h hfinished

/-! ### What is filed -/

theorem filings_untimed (trace : Trace) : trace.untimed.filterMap RunEvent.filing? =
    (trace.filterMap RunEvent.filing?).map fun e => (e.1, e.2.untimed) := by
  rw [Trace.untimed, List.filterMap_map, List.map_filterMap]
  refine List.filterMap_congr fun e _ => ?_
  cases e <;> rfl

theorem filings_runFrom {c : RunContext} {p : Progress} (steps : List HostStep) :
    (r.runFrom c p steps).2.filterMap RunEvent.filing? = [] := by
  induction steps generalizing p with
  | nil => rfl
  | cons step rest ih =>
    have hstep : (r.runStep c p step).2.filterMap RunEvent.filing? = [] := by
      rcases r.runStep_cases c p step with ⟨_, told, -, htold, hrun⟩ | ⟨_, _, l, -, hrun⟩
      · rw [hrun]
        show told.filterMap RunEvent.filing? = []
        exact Trace.filterMap_eq_nil_of_logged (fun _ => rfl) htold
      · rw [hrun]
        rfl
    rw [runFrom_cons, List.filterMap_append, hstep]
    exact ih

/-- A list of steps that is run has its report filed, once. -/
theorem filings_runSteps (host : Host) (steps : List HostStep) :
    (r.runSteps planId host steps).2.filterMap RunEvent.filing? =
      [(host.id, (r.runSteps planId host steps).1)] := by
  show List.filterMap RunEvent.filing? ((r.runFrom _ .start steps).2 ++ [.finished host _]) = _
  rw [List.filterMap_append, filings_runFrom, List.nil_append]
  rfl

/-- What is filed for a host plan, but for the times. -/
def untimedFiling (r : Runner) (slice : Slice) (planId : String) (e : String × HostPlan) :
    String × Report :=
  (e.1, (r.partReport slice planId (r.globals slice planId) e.2).untimed)

/-- The hosts that run have their reports filed, in whatever order. -/
theorem Underway.filed_perm {pool : Pool} (h : r.Underway slice planId events pool)
    (hfinished : pool.Finished) :
    (pool.filed.map fun e => (e.1, e.2.untimed)).Perm
      ((slice.runnable (r.globals slice planId)).map fun e =>
        r.untimedFiling slice planId (e.2.host.id, e.2)) := by
  have hfiled : pool.filed = events.filterMap RunEvent.filing? := PoolRun.filed h
  have hhosts : ((r.hostTraces slice planId).map (·.untimed)).map
        (·.filterMap RunEvent.filing?) =
      (slice.runnable (r.globals slice planId)).map fun e =>
        [r.untimedFiling slice planId (e.2.host.id, e.2)] := by
    rw [hostTraces, List.map_map, List.map_map]
    refine List.map_congr_left fun e he => ?_
    show List.filterMap _ (Trace.untimed _) = _
    rw [filings_untimed, filings_runSteps, untimedFiling, partReport_of_runnable he]
    rfl
  have hperm := ((h.interleaving hfinished).filterMap RunEvent.filing?).perm
  rw [hhosts, ← List.flatMap_def, ← List.map_eq_flatMap, filings_untimed, ← hfiled] at hperm
  exact hperm

/-- Filing by name takes away the order in which the hosts came to their ends. -/
theorem Underway.filed_entries (hkeyed : slice.Keyed) {pool : Pool}
    (h : r.Underway slice planId events pool) (hfinished : pool.Finished) :
    (Dict.ofList (r.heldReports slice planId ++ pool.filed)).entries.map
        (fun e => (e.1, e.2.untimed)) =
      slice.hostPlans.entries.map (r.untimedFiling slice planId) := by
  set filed := r.heldReports slice planId ++ pool.filed
  have hheld : (r.heldReports slice planId).map (fun e => (e.1, e.2.untimed)) =
      (slice.held (r.globals slice planId)).map (r.untimedFiling slice planId) := by
    rw [heldReports, List.map_map]
    refine List.map_congr_left fun e he => ?_
    rw [untimedFiling, partReport_of_held he]
    rfl
  have hperm : (filed.map fun e => (e.1, e.2.untimed)).Perm
      (slice.hostPlans.entries.map (r.untimedFiling slice planId)) := by
    have hfilings : (slice.filings (r.globals slice planId)).Perm slice.hostPlans.entries :=
      hkeyed.filings_perm
    refine List.Perm.trans ?_ (hfilings.map _)
    rw [List.map_append, hheld, Slice.filings, List.map_append, List.map_map]
    exact (h.filed_perm hfinished).append_left _
  have hsorted : (slice.hostPlans.entries.map (r.untimedFiling slice planId)).Pairwise
      (fun a b => a.1 < b.1) := List.pairwise_map.mpr slice.hostPlans.sorted
  have hnodup : (filed.map (·.1)).Nodup := by
    have hnames := (hperm.map (·.1)).nodup_iff.mpr (Dict.nodup_names hsorted)
    rwa [List.map_map] at hnames
  refine Dict.eq_of_perm (List.pairwise_map.mpr (Dict.sorted _)) hsorted ?_
  exact ((Dict.ofList_perm_of_nodup hnodup).map _).trans hperm

/-! ### What all outcomes share -/

variable {report : Report} {trace : Trace}

theorem Outcome.report_untimed (h : r.Outcome slice planId report trace) (hkeyed : slice.Keyed) :
    report.untimed = (r.runParts slice planId).1.untimed := by
  obtain ⟨events, pool, hrun, hfinished, rfl, -⟩ := h
  have hvalues (d : Dict Report) :
      d.values.map (·.untimed) = (d.entries.map fun e => (e.1, e.2.untimed)).map (·.2) := by
    rw [Dict.values, List.map_map, List.map_map]
    rfl
  rw [runParts_eq, Report.foldl_merge_untimed, Report.foldl_merge_untimed, hvalues, hvalues,
    hrun.filed_entries hkeyed hfinished, partReports_entries_of_keyed hkeyed]
  simp only [List.map_map]
  rfl

/-- What is seen of a host in the pool is what is seen of it when one host runs after another. -/
theorem Underway.on_untimed (h : r.Underway slice planId events pool) (hfinished : pool.Finished)
    (hkeyed : slice.Keyed) (key : String) : (events.on key).untimed =
      (Trace.on key (r.hostTraces slice planId).flatten).untimed := by
  have hpairs : ((r.hostTraces slice planId).map (·.untimed)).Pairwise fun xs ys =>
      xs.on key = [] ∨ ys.on key = [] := by
    rw [List.pairwise_map]
    refine (hostTraces_on hkeyed key).imp fun {xs ys} hone => ?_
    rw [Trace.on_untimed, Trace.on_untimed]
    exact hone.imp (congrArg Trace.untimed) (congrArg Trace.untimed)
  rw [← Trace.on_untimed, ← Trace.on_untimed, Trace.untimed_flatten, Trace.on_eq_filterMap,
    Trace.on_eq_filterMap]
  refine (h.interleaving hfinished).filterMap_eq _ ?_
  simp only [← Trace.on_eq_filterMap]
  exact hpairs

/-- Every outcome shows of a host what is seen of it when one host runs after another. -/
theorem Outcome.on_untimed (h : r.Outcome slice planId report trace) (hkeyed : slice.Keyed)
    (key : String) : (trace.on key).untimed = ((r.runParts slice planId).2.on key).untimed := by
  obtain ⟨events, pool, hrun, hfinished, -, rfl⟩ := h
  rw [runParts_eq]
  simp only [Trace.on_append, Trace.untimed_append, hrun.on_untimed hfinished hkeyed key]

/-- Hosts that run leave no event about the fleet. -/
theorem Underway.on_fleet (h : r.Underway slice planId events pool) (hfinished : pool.Finished)
    (hkeyed : slice.Keyed) (herr : slice.runError? planId = none) : events.on "" = [] := by
  have hhosts : Trace.on "" (r.hostTraces slice planId).flatten = [] := by
    rw [Trace.on_flatten, List.flatten_eq_nil_iff]
    intro xs hxs
    rw [hostTraces, List.map_map] at hxs
    obtain ⟨e, he, rfl⟩ := List.mem_map.mp hxs
    exact (onlyOn_runSteps _ _).on_eq_nil (Slice.host_id_ne herr (List.mem_filter.mp he).1)
  have hevents := h.on_untimed hfinished hkeyed ""
  rw [hhosts] at hevents
  exact List.map_eq_nil_iff.mp hevents

/-- What concerns the fleet comes first, and what is seen of hosts that run comes behind it. -/
theorem Outcome.fleet_first (h : r.Outcome slice planId report trace) (hkeyed : slice.Keyed)
    (herr : slice.runError? planId = none) : ∃ before after, trace = before ++ after ∧
      after.on "" = [] ∧ ∀ e ∈ slice.runnable (r.globals slice planId), before.on e.1 = [] := by
  obtain ⟨events, pool, hrun, hfinished, -, rfl⟩ := h
  refine ⟨_, events, rfl, hrun.on_fleet hfinished hkeyed herr, ?_⟩
  exact fun e he => on_before_hosts hkeyed herr (show (e.1, e.2) ∈ _ from he) _

/-! ### Runs that are under way -/

theorem PoolRun.append {pool'' : Pool} {more : Trace}
    (h : r.PoolRun planId workers pool events pool')
    (hmore : r.PoolRun planId workers pool' more pool'') :
    r.PoolRun planId workers pool (events ++ more) pool'' := by
  induction h with
  | refl => exact hmore
  | head h _ ih => exact .head h (ih hmore)

/-- No run leaves more events than its hosts do on their own. -/
theorem Underway.length_le (h : r.Underway slice planId events pool) :
    events.length ≤ (r.hostTraces slice planId).flatten.length := by
  have hsize := PoolRun.size h
  rw [Pool.size, start_ahead, ← Trace.untimed_flatten, Trace.length_untimed] at hsize
  omega

/-- Without tasks there is nothing to move. -/
theorem PoolRun.tasks_eq_nil (h : r.PoolRun planId workers pool events pool')
    (hnil : pool.tasks = []) : pool'.tasks = [] := by
  induction h with
  | refl => exact hnil
  | head h _ _ =>
    cases h with
    | move => exact absurd hnil (List.append_ne_nil_of_right_ne_nil _ (List.cons_ne_nil _ _))

/-- A run that is under way can be brought to its end. -/
theorem Underway.exists_finished (h : r.Underway slice planId events pool) :
    ∃ more pool', r.Underway slice planId (events ++ more) pool' ∧ pool'.Finished := by
  rcases Nat.eq_zero_or_pos (slice.runnable (r.globals slice planId)).length with hzero | hpos
  · have hnil : pool.tasks = [] := by
      refine PoolRun.tasks_eq_nil h ?_
      rw [List.eq_nil_of_length_eq_zero hzero]
      rfl
    refine ⟨[], pool, PoolRun.append h .refl, fun t ht => ?_⟩
    rw [hnil] at ht
    exact absurd ht List.not_mem_nil
  · obtain ⟨more, pool', hmore, hfinished⟩ :=
      r.exists_finished planId (workers_pos hpos) pool
    exact ⟨more, pool', PoolRun.append h hmore, hfinished⟩

/--
**What a run comes to does not depend on how the hosts take turns.**  Take a slice that is
run, whose host plans are kept under their hosts' ids, and run it on workers at any time
and with any limit on the hosts that run at once.  Every run that is begun can be brought
to its end, within a bounded number of moves.  And wherever it ends, the merged report is
the same but for its times; of each host the events are the same but for their times and
come in the same order, and so do the calls; and all that concerns the fleet comes before
anything that is seen of a host that runs.
-/
theorem dispatch_on_workers (hkeyed : slice.Keyed)
    (hrun : r.dispatch slice planId = .ok (report, trace)) (maxParallel : Json.IntIn .count)
    (now : String) :
    (∀ events pool, (r.under maxParallel now).Underway slice planId events pool →
      events.length ≤ (r.hostTraces slice planId).flatten.length ∧
        ∃ more pool', (r.under maxParallel now).Underway slice planId (events ++ more) pool' ∧
          pool'.Finished) ∧
    ∀ report' trace', (r.under maxParallel now).Outcome slice planId report' trace' →
      report'.untimed = report.untimed ∧
        (∀ key, (trace'.on key).untimed = (trace.on key).untimed ∧
          (trace'.on key).calls = (trace.on key).calls) ∧
        ∃ before after, trace' = before ++ after ∧ after.on "" = [] ∧
          ∀ e ∈ slice.runnable (r.globals slice planId), before.on e.1 = [] := by
  obtain ⟨herr, hresult⟩ := dispatch_eq_ok_iff.mp hrun
  obtain rfl : report = (r.runParts slice planId).1 := congrArg Prod.fst hresult
  obtain rfl : trace = (r.runParts slice planId).2 := congrArg Prod.snd hresult
  constructor
  · intro events pool hunderway
    have hlength : ((r.under maxParallel now).hostTraces slice planId).flatten.length =
        (r.hostTraces slice planId).flatten.length := by
      rw [← Trace.length_untimed, Trace.untimed_flatten, hostTraces_under,
        ← Trace.untimed_flatten, Trace.length_untimed]
    exact ⟨hunderway.length_le.trans_eq hlength, hunderway.exists_finished⟩
  · intro report' trace' houtcome
    have hon (key : String) : (trace'.on key).untimed =
        ((r.runParts slice planId).2.on key).untimed :=
      (houtcome.on_untimed hkeyed key).trans (runParts_on_under key)
    refine ⟨(houtcome.report_untimed hkeyed).trans (runParts_report_under hkeyed), ?_, ?_⟩
    · intro key
      refine ⟨hon key, ?_⟩
      rw [← Trace.calls_untimed, hon key, Trace.calls_untimed]
    · have hfirst := houtcome.fleet_first hkeyed herr
      rwa [runnable_under] at hfirst

/-- The plan for two hosts on one worker, at another time. -/
theorem dispatch_on_workers_of_twoHosts : ∃ slice report trace report' trace',
    slice.Keyed ∧ dispatch ⟨failingOnK, .default, "1"⟩ slice "p" = .ok (report, trace) ∧
      Outcome (under ⟨failingOnK, .default, "1"⟩ ⟨1, by decide⟩ "2") slice "p" report' trace' ∧
      report'.untimed = report.untimed ∧ (trace'.on "k").calls = (trace.on "k").calls := by
  have hrun : dispatch ⟨failingOnK, .default, "1"⟩ twoHosts.cut "p" =
      .ok (runParts ⟨failingOnK, .default, "1"⟩ twoHosts.cut "p") :=
    dispatch_eq_ok_iff.mpr ⟨by cbv, rfl⟩
  obtain ⟨hends, hsame⟩ := dispatch_on_workers twoHosts.cut_keyed hrun ⟨1, by decide⟩ "2"
  obtain ⟨-, more, pool, hunderway, hfinished⟩ := hends [] _ .refl
  obtain ⟨hreport, hon, -⟩ := hsame _ _ ⟨_, pool, hunderway, hfinished, rfl, rfl⟩
  exact ⟨_, _, _, _, _, twoHosts.cut_keyed, hrun, ⟨_, pool, hunderway, hfinished, rfl, rfl⟩, hreport,
    (hon "k").2⟩

end Runner

end FleetPlan
