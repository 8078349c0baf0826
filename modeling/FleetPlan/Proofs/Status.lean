/-
What the status of a report says.

A report may be read with any status, but making one of steps and merging another into it
both derive the status from the records, so a wrong one lasts no longer than to the first of
them.  Derived, it is the worst of what the records say by themselves (`RunStatus.ofStep`).
The worst of two lists together is the worse of their worsts, and neither how merges are
grouped nor the order in which host reports are merged makes a difference to it.
-/
import FleetPlan.Proofs.Account

namespace FleetPlan

/-! ### The worse of two statuses -/

namespace RunStatus

/-- How bad a status is. -/
def rank : RunStatus → Nat
  | succeeded => 0
  | incomplete => 1
  | failed => 2

def worse (a b : RunStatus) : RunStatus := if a.rank ≤ b.rank then b else a

/-- What one step makes of a run. -/
def ofStep : StepStatus → RunStatus
  | .succeeded => succeeded
  | .failed => failed
  | .pending | .running | .skipped => incomplete

theorem succeeded_worse (a : RunStatus) : succeeded.worse a = a := by cases a <;> rfl

theorem worse_assoc (a b c : RunStatus) : (a.worse b).worse c = a.worse (b.worse c) := by
  cases a <;> cases b <;> cases c <;> rfl

end RunStatus

theorem aggregateStatus_cons (record : StepRecord) (records : List StepRecord) :
    aggregateStatus (record :: records) =
      (RunStatus.ofStep record.status).worse (aggregateStatus records) := by
  rw [aggregateStatus, aggregateStatus, List.any_cons, List.any_cons]
  cases record.status <;> cases records.any (·.status == .failed) <;>
    cases records.any (·.status != .succeeded) <;> rfl

/-- The status of records together is the worse of the statuses of their parts. -/
theorem aggregateStatus_append (xs ys : List StepRecord) :
    aggregateStatus (xs ++ ys) = (aggregateStatus xs).worse (aggregateStatus ys) := by
  induction xs with
  | nil => exact (RunStatus.succeeded_worse _).symm
  | cons x xs ih =>
    rw [List.cons_append, aggregateStatus_cons, ih, aggregateStatus_cons, RunStatus.worse_assoc]

theorem aggregateStatus_eq_of_perm {xs ys : List StepRecord} (h : xs.Perm ys) :
    aggregateStatus xs = aggregateStatus ys := by
  unfold aggregateStatus
  rw [h.any_eq, h.any_eq]

namespace Report

/-! ### Counts -/

/-- Each status is counted under one heading. -/
theorem counted_once (status : StepStatus) :
    (if [StepStatus.succeeded].contains status then 1 else 0) +
      (if [StepStatus.failed].contains status then 1 else 0) +
      (if [StepStatus.skipped].contains status then 1 else 0) +
      (if [StepStatus.pending, .running].contains status then 1 else 0) = 1 := by
  cases status <;> rfl

theorem summary_total (r : Report) : r.summary.total = r.steps.length := by
  simp only [summary, ReportSummary.total, countOf]
  induction r.steps with
  | nil => rfl
  | cons record records ih =>
    rw [List.length_cons, ← ih, ← counted_once record.status]
    simp only [List.countP_cons]
    omega

theorem summary_failed_pos_iff (r : Report) :
    0 < r.summary.failed ↔ ∃ record ∈ r.steps, record.status = .failed := by
  simp only [summary, countOf, List.countP_pos_iff, List.contains_iff_mem, List.mem_singleton]

theorem summary_succeeded_eq_total_iff (r : Report) :
    r.summary.succeeded = r.summary.total ↔ ∀ record ∈ r.steps, record.status = .succeeded := by
  rw [summary_total]
  simp only [summary, countOf, List.countP_eq_length, List.contains_iff_mem, List.mem_singleton]

/-- The status is that of the records, and agrees with how many came to which. -/
structure Derived (r : Report) : Prop where
  status : r.status = aggregateStatus r.steps
  total : r.summary.total = r.steps.length
  failed_iff : r.status = .failed ↔ 0 < r.summary.failed
  succeeded_iff : r.status = .succeeded ↔ r.summary.succeeded = r.summary.total

theorem derived_of_status {r : Report} (h : r.status = aggregateStatus r.steps) : r.Derived where
  status := h
  total := r.summary_total
  failed_iff := by rw [h, aggregateStatus_eq_failed_iff, summary_failed_pos_iff]
  succeeded_iff := by rw [h, aggregateStatus_eq_succeeded_iff, summary_succeeded_eq_total_iff]

/-! ### Updates -/

/-- What can be done to a report. -/
inductive Update where
  /-- Another report takes its place, made of steps. -/
  | ofSteps (planId : String) (steps : List StepRecord)
  | merge (other : Report)

def update (r : Report) : Update → Report
  | .ofSteps planId steps => .ofSteps planId steps
  | .merge other => r.merge other

theorem derived_update (r : Report) (u : Update) : (r.update u).Derived := by
  cases u with
  | ofSteps planId steps => exact derived_of_status rfl
  | merge other => exact derived_of_status rfl

/-- However a report was read, from the first update on its status is derived. -/
theorem derived_of_updates (r : Report) {updates : List Update} (h : updates ≠ []) :
    (updates.foldl update r).Derived := by
  rw [← List.dropLast_append_getLast h, List.foldl_concat]
  exact derived_update _ _

/-- A report that is another one, with the steps of more reports behind its own. -/
structure Extends (r base : Report) (others : List Report) : Prop where
  planId : r.planId = base.planId
  annotations : r.annotations = base.annotations
  steps : r.steps = base.steps ++ others.flatMap (·.steps)

theorem Extends.merge {r base : Report} {others : List Report} (h : r.Extends base others)
    (other : Report) : (r.merge other).Extends base (others ++ [other]) where
  planId := h.planId
  annotations := h.annotations
  steps := by
    rw [List.flatMap_append, List.flatMap_singleton, ← List.append_assoc, ← h.steps]
    rfl

/-- What became of a report by updates: it was made anew at the last one that does so, or never,
and what was merged since then stands behind it in order. -/
inductive Updated (loaded : Report) : List Update → Report → Prop
  | kept {r : Report} (others : List Report) (h : r.Extends loaded others) :
    Updated loaded (others.map .merge) r
  | renewed {r : Report} (before : List Update) (planId : String) (steps : List StepRecord)
      (others : List Report) (h : r.Extends (.ofSteps planId steps) others) :
    Updated loaded (before ++ .ofSteps planId steps :: others.map .merge) r

theorem Extends.refl (r : Report) : r.Extends r [] := ⟨rfl, rfl, (List.append_nil _).symm⟩

theorem Updated.update {loaded r : Report} {updates : List Update} (h : Updated loaded updates r)
    (u : Update) : Updated loaded (updates ++ [u]) (r.update u) := by
  cases u with
  | ofSteps planId steps => exact .renewed updates planId steps [] (.refl _)
  | merge other =>
    cases h with
    | kept others h =>
      have hkept := Updated.kept _ (h.merge other)
      rwa [List.map_append] at hkept
    | renewed before planId steps others h =>
      have hrenewed : Updated loaded _ _ := .renewed before planId steps _ (h.merge other)
      rwa [List.map_append, ← List.cons_append, ← List.append_assoc] at hrenewed

theorem updated_foldl (loaded : Report) (updates : List Update) :
    Updated loaded updates (updates.foldl update loaded) := by
  induction updates using List.reverseRecOn with
  | nil => exact .kept [] (.refl _)
  | append_singleton updates u ih =>
    rw [List.foldl_concat]
    exact ih.update u

/-! ### Grouping -/

theorem merge_assoc (a b c : Report) : (a.merge b).merge c = a.merge (b.merge c) := by
  simp only [merge, List.append_assoc]

theorem merge_foldl (a b : Report) (rs : List Report) :
    a.merge (rs.foldl .merge b) = rs.foldl .merge (a.merge b) := by
  induction rs generalizing b with
  | nil => rfl
  | cons r rs ih => rw [List.foldl_cons, List.foldl_cons, ih, merge_assoc]

/-- Reports to be merged, in groups. -/
inductive Grouping where
  | single (r : Report)
  | group (first second : Grouping)

namespace Grouping

def merged : Grouping → Report
  | single r => r
  | group first second => first.merged.merge second.merged

/-- The report that the others are merged into. -/
def base : Grouping → Report
  | single r => r
  | group first _ => first.base

/-- The reports behind the first, in order. -/
def others : Grouping → List Report
  | single _ => []
  | group first second => first.others ++ second.base :: second.others

/-- **It does not matter how merges are grouped.** -/
theorem merged_eq (g : Grouping) : g.merged = g.others.foldl .merge g.base := by
  induction g with
  | single r => rfl
  | group first second hfirst hsecond =>
    rw [merged, hfirst, hsecond, base, others, List.foldl_append, List.foldl_cons, merge_foldl]

end Grouping

end Report

/-! ### Host reports -/

namespace Runner

/-- The order in which host reports are merged does not show in the status. -/
theorem status_foldl_merge_of_perm (r : Runner) (slice : Slice) (planId : String)
    {reports : List Report} (h : reports.Perm (r.partReports slice planId).values) :
    (reports.foldl .merge (r.globals slice planId)).status =
      (r.runParts slice planId).1.status := by
  rw [runParts_status, runParts_steps, Report.foldl_merge_status (r.globals_status slice planId),
    Report.foldl_merge_steps]
  exact aggregateStatus_eq_of_perm ((h.flatMap_right _).append_left _)

end Runner

/--
**The status of a report is always derived from its steps.**  Whatever status a report was
read with, after any updates it is the one of the records, which are those of the last report
made of steps, or of the one that was read, and of the reports merged since then, in order;
plan id and annotations are left by merging as they are.  The status of records together is
the worse of those of their parts.  Merges may be grouped in any way, and host reports merged
in any order, with the same outcome.
-/
theorem Report.status_derived (loaded : Report) (updates : List Report.Update) :
    (updates ≠ [] → (updates.foldl update loaded).Derived) ∧
    Updated loaded updates (updates.foldl update loaded) ∧
    aggregateStatus [] = .succeeded ∧
    (∀ xs ys, aggregateStatus (xs ++ ys) = (aggregateStatus xs).worse (aggregateStatus ys)) ∧
    (∀ g : Grouping, g.merged = g.others.foldl .merge g.base) ∧
    ∀ (r : Runner) (slice : Slice) (planId : String) (report : Report) (trace : Trace),
      r.dispatch slice planId = .ok (report, trace) →
        ∀ reports : List Report, reports.Perm (r.partReports slice planId).values →
          (reports.foldl .merge (r.globals slice planId)).status = report.status := by
  refine ⟨derived_of_updates loaded, updated_foldl loaded updates, rfl, aggregateStatus_append,
    Grouping.merged_eq, ?_⟩
  intro r slice planId report trace hrun reports hperm
  obtain ⟨-, hresult⟩ := Runner.dispatch_eq_ok_iff.mp hrun
  obtain rfl : report = (r.runParts slice planId).1 := congrArg Prod.fst hresult
  exact r.status_foldl_merge_of_perm slice planId hperm

/-- A report that says it succeeded while its step is still pending. -/
def Report.stale : Report := ⟨"p", .succeeded, [.pending "s" (.named "h")], .empty⟩

namespace Runner

/-- A stale status is gone after one merge; and of the reports of two hosts the one of the
failure shows, in either order. -/
theorem status_derived_of_stale :
    Report.stale.status ≠ aggregateStatus Report.stale.steps ∧
      (Report.stale.merge (.ofSteps "q" [])).Derived ∧ ∃ report trace,
        dispatch ⟨failingOnK, .default, "1"⟩ twoHosts.cut "p" = .ok (report, trace) ∧
        report.status = .failed ∧
        ((partReports ⟨failingOnK, .default, "1"⟩ twoHosts.cut "p").values.reverse.foldl .merge
          (globals ⟨failingOnK, .default, "1"⟩ twoHosts.cut "p")).status = report.status := by
  have hrun : dispatch ⟨failingOnK, .default, "1"⟩ twoHosts.cut "p" =
      .ok (runParts ⟨failingOnK, .default, "1"⟩ twoHosts.cut "p") :=
    dispatch_eq_ok_iff.mpr ⟨by cbv, rfl⟩
  have hfailed : (runParts ⟨failingOnK, .default, "1"⟩ twoHosts.cut "p").1.status = .failed := by
    cbv
  obtain ⟨hderived, -, -, -, -, horder⟩ :=
    Report.status_derived .stale [.merge (.ofSteps "q" [])]
  refine ⟨by decide, hderived (List.cons_ne_nil _ _), _, _, hrun, hfailed, ?_⟩
  exact horder _ _ _ _ _ hrun _ (List.reverse_perm _)

end Runner

end FleetPlan
