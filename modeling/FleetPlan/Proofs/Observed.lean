/-
What observers are told of a run.

Observers hear that a list of steps is begun, what became of each step, and that the list
is through; calls and log lines are not for them.  Two parts of a run tell them about a
host: the loop over its steps, which does so as it goes along, and a host plan that is held
back, of which everything is told at once.  Both tell a `Trace.bracket`.

For the loop this is shown move by move.  What a task has still to tell is said by
`Task.Tells` for every point it may have come to, and a move takes the first of it
(`Move.tells`); so a task that comes through has told one bracket.  A run of the pool is an
interleaving of what its tasks leave (`PoolRun.exists_leaves`), and the reports are filed
with the records that were told, so the merged report and the observers have the same.
-/
import FleetPlan.Proofs.Workers

namespace FleetPlan

/-! ### Observers -/

/-- Observers are told of an event. -/
def RunEvent.isObserved : RunEvent → Bool
  | .started _ _ => true
  | .recorded _ => true
  | .finished _ _ => true
  | .called _ _ => false
  | .logged _ => false

namespace Trace

/-- What observers are told. -/
def observed (trace : Trace) : Trace := trace.filter (·.isObserved)

/-- What is told of a list of steps: how many there are, what became of each, and the report. -/
def bracket (planId : String) (host : Host) (steps : Nat) (records : List StepRecord) : Trace :=
  .started host steps :: (records.map .recorded ++ [.finished host (.ofSteps planId records)])

variable {xs ys : Trace}

theorem observed_append : observed (xs ++ ys) = observed xs ++ observed ys := List.filter_append ..

theorem observed_on (key : String) (trace : Trace) :
    trace.observed.on key = (trace.on key).observed := by
  simp only [observed, on, List.filter_filter, Bool.and_comm]

theorem observed_eq_nil_of_logged (h : ∀ e ∈ xs, ∃ l, e = RunEvent.logged l) :
    observed xs = [] := by
  rw [observed, List.filter_eq_nil_iff]
  intro e he
  obtain ⟨l, rfl⟩ := h e he
  exact Bool.false_ne_true

theorem observed_records (records : List StepRecord) :
    observed (records.map .recorded) = records.map .recorded := by
  rw [observed, List.filter_eq_self]
  intro e he
  obtain ⟨record, -, rfl⟩ := List.mem_map.mp he
  rfl

/-- Reports are filed when observers are told of them. -/
theorem filings_observed (trace : Trace) :
    trace.observed.filterMap RunEvent.filing? = trace.filterMap RunEvent.filing? := by
  rw [observed, List.filterMap_filter]
  refine List.filterMap_congr fun e _ => ?_
  cases e <;> rfl

end Trace

/-! ### Brackets -/

/-- Records are those of a list of steps on a host. -/
def RecordsOf (host : Host) (steps : List HostStep) (records : List StepRecord) : Prop :=
  records.map (·.subject) = steps.map fun step => (step.id, host)

section

variable {planId : String} {host : Host} {steps : List HostStep} {n : Nat}
variable {records : List StepRecord}

theorem RecordsOf.host_eq (h : RecordsOf host steps records) {record : StepRecord}
    (hmem : record ∈ records) : record.host = host := by
  have hsubject := List.mem_map_of_mem (f := StepRecord.subject) hmem
  rw [h] at hsubject
  obtain ⟨step, -, hstep⟩ := List.mem_map.mp hsubject
  exact (Prod.mk.inj hstep).2.symm

/-- A bracket is about its host. -/
theorem onlyOn_bracket (h : RecordsOf host steps records) :
    Runner.OnlyOn host (Trace.bracket planId host n records) := by
  intro e he target htarget
  rcases List.mem_cons.mp he with rfl | he
  · exact (Option.some.inj htarget).symm
  · rcases List.mem_append.mp he with hrecord | hfinished
    · obtain ⟨record, hmem, rfl⟩ := List.mem_map.mp hrecord
      rw [← Option.some.inj htarget, h.host_eq hmem]
    · obtain rfl := List.mem_singleton.mp hfinished
      exact (Option.some.inj htarget).symm

/-- All of a bracket is seen of its host. -/
theorem bracket_on (h : RecordsOf host steps records) :
    (Trace.bracket planId host n records).on host.id = Trace.bracket planId host n records := by
  have hrecords : Trace.on host.id (records.map .recorded) = records.map .recorded := by
    rw [Trace.on, List.filter_eq_self]
    intro e he
    obtain ⟨record, hmem, rfl⟩ := List.mem_map.mp he
    simp [RunEvent.host?, h.host_eq hmem]
  have hends (e : RunEvent) (he : e.host? = some host) (xs : Trace) :
      Trace.on host.id (e :: xs) = e :: Trace.on host.id xs := by
    rw [Trace.on, List.filter_cons_of_pos (by simp [he])]
    rfl
  rw [Trace.bracket, hends _ rfl, Trace.on_append, hrecords, hends _ rfl]
  rfl

/-- A bracket has its report filed. -/
theorem filings_bracket (planId : String) (host : Host) (n : Nat) (records : List StepRecord) :
    (Trace.bracket planId host n records).filterMap RunEvent.filing? =
      [(host.id, .ofSteps planId records)] := by
  have hrecords : (records.map RunEvent.recorded).filterMap RunEvent.filing? = [] := by
    rw [List.filterMap_eq_nil_iff]
    intro e he
    obtain ⟨record, -, rfl⟩ := List.mem_map.mp he
    rfl
  rw [Trace.bracket, List.filterMap_cons_none rfl, List.filterMap_append, hrecords]
  rfl

end

namespace Runner

variable {r : Runner} {planId : String}

/-! ### The loop, all at once -/

theorem runStep_observed (r : Runner) (c : RunContext) (p : Progress) (step : HostStep) :
    (r.runStep c p step).2.observed = [] := by
  rcases r.runStep_cases c p step with ⟨_, told, -, htold, hrun⟩ | ⟨_, _, l, -, hrun⟩
  · rw [hrun]
    show Trace.observed told = []
    exact Trace.observed_eq_nil_of_logged htold
  · rw [hrun]
    rfl

/-- Observers are told of every record. -/
theorem runFrom_observed (r : Runner) (c : RunContext) (p : Progress) (steps : List HostStep) :
    (r.runFrom c p steps).2.observed = (r.runFrom c p steps).1.map .recorded := by
  induction steps generalizing p with
  | nil => rfl
  | cons step rest ih =>
    rw [runFrom_cons, Trace.observed_append, runStep_observed]
    exact congrArg (List.cons _) (ih _)

/-- A list of steps that is run is told as a bracket. -/
theorem runSteps_observed (r : Runner) (planId : String) (host : Host) (steps : List HostStep) :
    (r.runSteps planId host steps).2.observed =
      .bracket planId host steps.length (r.runSteps planId host steps).1.steps := by
  have htold := r.runFrom_observed ⟨planId, host, r.options.dryRun⟩ .start steps
  show Trace.observed ([.started host steps.length] ++
    (r.runFrom _ .start steps).2 ++ [.finished host _]) = _
  rw [Trace.observed_append, Trace.observed_append, htold]
  rfl

/-- So is a host plan that is held back. -/
theorem holdBack_observed (part : HostPlan) (planId key : String) (unmet : List String) :
    (part.holdBack planId key unmet).2.observed =
      .bracket planId part.host part.steps.length (part.heldBack planId unmet).steps := by
  have hlength : (part.heldBack planId unmet).steps.length = part.steps.length :=
    List.length_map _
  rw [HostPlan.holdBack, Trace.observed_append, Trace.observed_append, Trace.observed_records,
    hlength]
  rfl

end Runner

/-! ### The loop, move by move -/

/-- What is told of a list of steps when some of its records have been told already. -/
def Trace.closing (planId : String) (host : Host) (records later : List StepRecord) : Trace :=
  later.map .recorded ++ [.finished host (.ofSteps planId (records ++ later))]

/-- What a task may tell observers from where it stands until it is through. -/
def Task.Tells (planId : String) : Task → Trace → Prop
  | .waiting part, told => ∃ records, RecordsOf part.host part.steps records ∧
      told = .bracket planId part.host part.steps.length records
  | .running part _ records queued rest, told => ∃ later, RecordsOf part.host rest later ∧
      told = queued.observed ++ .closing planId part.host records later
  | .calling part _ records _ step rest, told => ∃ later, RecordsOf part.host (step :: rest) later ∧
      told = .closing planId part.host records later
  | .through, told => told = []

theorem StepRecord.subject_untimed (record : StepRecord) :
    record.untimed.subject = record.subject := rfl

namespace Runner

variable {r : Runner} {planId : String} {workers : Nat} {pool pool' : Pool} {events : Trace}

/-- A task comes through, leaving these events. -/
inductive Leaves (r : Runner) (planId : String) : Task → Trace → Prop
  | through : Leaves r planId .through []
  | move {t t' : Task} {e : RunEvent} {trace : Trace} (h : r.Move planId t e t')
      (hrest : Leaves r planId t' trace) : Leaves r planId t (e :: trace)

/-- A record is told as the first of those that are left. -/
theorem recordsOf_cons {host : Host} {step : HostStep} {rest : List HostStep} {record : StepRecord}
    {later : List StepRecord} (hrecord : record.subject = (step.id, host))
    (hlater : RecordsOf host rest later) : RecordsOf host (step :: rest) (record :: later) := by
  unfold RecordsOf
  rw [List.map_cons, List.map_cons, hrecord, hlater]

theorem closing_cons (planId : String) (host : Host) (records later : List StepRecord)
    (record : StepRecord) : Trace.closing planId host records (record :: later) =
      .recorded record :: Trace.closing planId host (records ++ [record]) later := by
  simp [Trace.closing]

/-- **A move tells the first of what a task has to tell.** -/
theorem Move.tells {t t' : Task} {e : RunEvent} {told : Trace} (h : r.Move planId t e t')
    (htells : t'.Tells planId told) : t.Tells planId (Trace.observed [e] ++ told) := by
  cases h with
  | take =>
    obtain ⟨later, hlater, rfl⟩ := htells
    exact ⟨later, hlater, rfl⟩
  | @tell part p records e queued rest =>
    obtain ⟨later, hlater, rfl⟩ := htells
    refine ⟨later, hlater, ?_⟩
    rw [← List.append_assoc, ← Trace.observed_append]
    rfl
  | @skip part p records step rest code message record e queued hdecision hskip =>
    obtain ⟨later, hlater, rfl⟩ := htells
    obtain ⟨rfl, hlogged⟩ := Prod.mk.inj hskip
    obtain ⟨rfl, rfl⟩ := List.cons.inj hlogged
    have hsubject : (StepRecord.skipped step.id part.host code message).subject =
        (step.id, part.host) := rfl
    refine ⟨_ :: later, recordsOf_cons hsubject hlater, ?_⟩
    rw [closing_cons]
    rfl
  | call =>
    obtain ⟨later, hlater, rfl⟩ := htells
    exact ⟨later, hlater, rfl⟩
  | @answer part p records executor step rest record e queued hrecord htold =>
    obtain ⟨later, hlater, rfl⟩ := htells
    set c := r.context planId part.host
    have hsubject : record.subject = (step.id, part.host) := by
      rw [← record.subject_untimed, hrecord, StepRecord.subject_untimed, StepRecord.subject,
        recordOf_stepId, recordOf_host]
      rfl
    have hlogged : Trace.observed (r.attempt c step executor).2.tail = [] := by
      refine Trace.observed_eq_nil_of_logged fun e he => ?_
      cases hanswer : executor step c with
      | ok output => simp [attempt, hanswer] at he
      | error failure => exact ⟨_, by simpa [attempt, hanswer] using he⟩
    refine ⟨record :: later, recordsOf_cons hsubject hlater, ?_⟩
    rw [closing_cons, ← List.append_assoc, ← Trace.observed_append, List.singleton_append, ← htold,
      Trace.observed_append, hlogged]
    rfl
  | finish =>
    obtain rfl : told = [] := htells
    exact ⟨[], rfl, by simp [Trace.closing, Trace.observed, RunEvent.isObserved]⟩

/-- A task that comes through has told what it had to tell. -/
theorem Leaves.tells {t : Task} {trace : Trace} (h : r.Leaves planId t trace) :
    t.Tells planId trace.observed := by
  induction h with
  | through => rfl
  | @move t t' e trace hmove hrest ih =>
    have htells := hmove.tells ih
    rwa [← Trace.observed_append] at htells

/-! ### The pool -/

/-- **A run that comes to its end is an interleaving of what its tasks leave.** -/
theorem PoolRun.exists_leaves (h : r.PoolRun planId workers pool events pool')
    (hfinished : pool'.Finished) :
    ∃ parts, List.Forall₂ (r.Leaves planId) pool.tasks parts ∧ Interleaving parts events := by
  induction h with
  | @refl pool =>
    refine ⟨pool.tasks.map fun _ => [], ?_, .done (by simp)⟩
    rw [List.forall₂_map_right_iff, List.forall₂_same]
    intro t ht
    have hthrough := hfinished t ht
    cases t <;> first | exact .through | exact Bool.noConfusion hthrough
  | @head pool pool' pool'' e events h hrest ih =>
    cases h with
    | @move left right t t' e filed h hfree =>
      obtain ⟨parts, hparts, hmerge⟩ := ih hfinished
      -- The task that moved stands at the same place in the list as what it leaves.
      have hleft := (List.forall₂_take_append parts left (t' :: right) hparts.flip).flip
      have hright := (List.forall₂_drop_append parts left (t' :: right) hparts.flip).flip
      obtain ⟨part, behind, hpart, hbehind, hdrop⟩ := List.forall₂_cons_left_iff.mp hright
      have hsplit : parts = parts.take left.length ++ part :: behind := by
        rw [← hdrop, List.take_append_drop]
      rw [hsplit] at hmerge
      refine ⟨_, ?_, .next hmerge⟩
      exact List.rel_append hleft (.cons (.move h hpart) hbehind)

end Runner

/-! ### A run of a sliced plan -/

/-- Parts may be gone through before all others. -/
theorem Interleaving.flatten_append {α : Type} {parts : List (List α)} {whole : List α}
    (first : List (List α)) (h : Interleaving parts whole) :
    Interleaving (first ++ parts) (first.flatten ++ whole) := by
  induction first with
  | nil => exact h
  | cons part first ih =>
    rw [List.cons_append, List.flatten_cons, List.append_assoc]
    exact ih.cons part

/-- What observers hear of a host plan: the records of its steps. -/
structure Hearing where
  /-- What the host plan is kept under. -/
  key : String
  part : HostPlan
  records : List StepRecord
  of_steps : RecordsOf part.host part.steps records

namespace Hearing

variable (planId : String) (x : Hearing)

def entry : String × HostPlan := (x.key, x.part)

def bracket : Trace := .bracket planId x.part.host x.part.steps.length x.records

def filing : String × Report := (x.key, .ofSteps planId x.records)

/-- Brackets that are told of host plans, one by one, are hearings of them. -/
theorem exists_of_tells {planId : String} {es : List (String × HostPlan)} {tolds : List Trace}
    (h : List.Forall₂ (fun e told => (Task.waiting e.2).Tells planId told) es tolds) :
    ∃ heard : List Hearing, heard.map entry = es ∧ heard.map (bracket planId) = tolds := by
  induction h with
  | nil => exact ⟨[], rfl, rfl⟩
  | @cons e _ _ _ htells _ ih =>
    obtain ⟨records, hrecords, rfl⟩ := htells
    obtain ⟨heard, rfl, rfl⟩ := ih
    exact ⟨⟨e.1, e.2, records, hrecords⟩ :: heard, rfl, rfl⟩

end Hearing

/-- What is told of the host plans of a slice, in whatever order, and the report they end in. -/
structure Slice.Heard (slice : Slice) (planId : String) (globals report : Report) (hosts : Trace)
    (heard : List Hearing) : Prop where
  entries : (heard.map (·.entry)).Perm slice.hostPlans.entries
  hosts : Interleaving (heard.map (·.bracket planId)) hosts
  report : report = (Dict.ofList (heard.map (·.filing planId))).values.foldl .merge globals

namespace Slice.Heard

variable {slice : Slice} {planId key : String} {globals report : Report} {hosts : Trace}
variable {heard : List Hearing} {x : Hearing}

theorem nodup (h : slice.Heard planId globals report hosts heard) : (heard.map (·.key)).Nodup := by
  have hkeys : (slice.hostPlans.entries.map (·.1)).Nodup := slice.hostPlans.nodup_keys
  have hnames := (h.entries.map (·.1)).nodup_iff.mpr hkeys
  rwa [List.map_map] at hnames

theorem mem_entries (h : slice.Heard planId globals report hosts heard) (hx : x ∈ heard) :
    (x.key, x.part) ∈ slice.hostPlans.entries := h.entries.subset (List.mem_map_of_mem hx)

theorem host_id (h : slice.Heard planId globals report hosts heard) (hkeyed : slice.Keyed)
    (hx : x ∈ heard) : x.part.host.id = x.key := hkeyed _ (h.mem_entries hx)

/-- Of another name's host a bracket tells nothing. -/
theorem bracket_on_eq_nil (h : slice.Heard planId globals report hosts heard)
    (hkeyed : slice.Keyed) (hx : x ∈ heard) (hne : x.key ≠ key) :
    (x.bracket planId).on key = [] :=
  (onlyOn_bracket x.of_steps).on_eq_nil (h.host_id hkeyed hx ▸ hne)

/-- What is told of one host is told in the order of the list. -/
theorem hosts_on (h : slice.Heard planId globals report hosts heard) (hkeyed : slice.Keyed)
    (key : String) : hosts.on key = heard.flatMap fun x => (x.bracket planId).on key := by
  have hpairs : (heard.map (·.bracket planId)).Pairwise fun xs ys =>
      xs.on key = [] ∨ ys.on key = [] := by
    rw [List.pairwise_map]
    refine (List.pairwise_map.mp h.nodup).imp_of_mem fun {x y} hx hy hne => ?_
    by_cases hkey : x.key = key
    · exact .inr (h.bracket_on_eq_nil hkeyed hy (hkey ▸ hne.symm))
    · exact .inl (h.bracket_on_eq_nil hkeyed hx hkey)
  simp only [Trace.on_eq_filterMap] at hpairs ⊢
  rw [h.hosts.filterMap_eq _ hpairs, List.filterMap_flatten, List.map_map, ← List.flatMap_def]
  rfl

/-- Of the host of a plan its own bracket is told. -/
theorem on_of_mem (h : slice.Heard planId globals report hosts heard) (hkeyed : slice.Keyed)
    (hx : x ∈ heard) : hosts.on x.key = x.bracket planId := by
  rw [h.hosts_on hkeyed, flatMap_eq_of_nodup h.nodup hx fun y hy hne =>
    h.bracket_on_eq_nil hkeyed hy hne, ← h.host_id hkeyed hx]
  exact bracket_on x.of_steps

/-- Of a host without a plan nothing is told. -/
theorem on_of_not_mem (h : slice.Heard planId globals report hosts heard) (hkeyed : slice.Keyed)
    (hkey : ∀ x ∈ heard, x.key ≠ key) : hosts.on key = [] := by
  rw [h.hosts_on hkeyed, List.flatMap_eq_nil_iff]
  exact fun x hx => h.bracket_on_eq_nil hkeyed hx (hkey x hx)

theorem nodup_filings (h : slice.Heard planId globals report hosts heard) :
    ((heard.map (·.filing planId)).map (·.1)).Nodup := by
  rw [List.map_map]
  exact h.nodup

/-- The merged report has of a host what the global steps and the host plan of that name have. -/
theorem records_on (h : slice.Heard planId globals report hosts heard) (hkeyed : slice.Keyed)
    (key : String) : report.steps.filter (·.host.id == key) =
      globals.steps.filter (·.host.id == key) ++
        (Dict.ofList (heard.map (·.filing planId))).entries.flatMap fun e =>
          if e.1 = key then e.2.steps else [] := by
  rw [h.report, Report.foldl_merge_steps, Dict.values, List.flatMap_map, List.filter_append,
    List.filter_flatMap]
  refine congrArg _ (List.flatMap_congr fun e he => ?_)
  obtain ⟨x, hx, rfl⟩ := List.mem_map.mp ((Dict.mem_ofList_of_nodup h.nodup_filings).mp he)
  have hhost : ∀ record ∈ x.records, record.host.id = x.key := fun record hmem => by
    rw [x.of_steps.host_eq hmem, h.host_id hkeyed hx]
  by_cases hkey : x.key = key
  · rw [if_pos (show (x.filing planId).1 = key from hkey), List.filter_eq_self]
    exact fun record hmem => by simpa [hkey] using hhost record hmem
  · rw [if_neg (show ¬(x.filing planId).1 = key from hkey), List.filter_eq_nil_iff]
    exact fun record hmem => by simpa [hhost record hmem] using hkey

theorem records_of_mem (h : slice.Heard planId globals report hosts heard) (hkeyed : slice.Keyed)
    (hx : x ∈ heard) (hglobals : globals.steps.filter (·.host.id == x.key) = []) :
    report.steps.filter (·.host.id == x.key) = x.records := by
  have hfiled : x.filing planId ∈ (Dict.ofList (heard.map (·.filing planId))).entries :=
    (Dict.mem_ofList_of_nodup h.nodup_filings).mpr (List.mem_map_of_mem hx)
  rw [h.records_on hkeyed, hglobals, List.nil_append]
  refine (flatMap_eq_of_nodup (Dict.nodup_keys _) hfiled fun e _ hne => if_neg hne).trans ?_
  exact if_pos rfl

theorem records_of_not_mem (h : slice.Heard planId globals report hosts heard)
    (hkeyed : slice.Keyed) (hkey : ∀ x ∈ heard, x.key ≠ key) :
    report.steps.filter (·.host.id == key) = globals.steps.filter (·.host.id == key) := by
  rw [h.records_on hkeyed, List.flatMap_eq_nil_iff.mpr, List.append_nil]
  intro e he
  obtain ⟨x, hx, rfl⟩ := List.mem_map.mp ((Dict.mem_ofList_of_nodup h.nodup_filings).mp he)
  exact if_neg (hkey x hx)

end Slice.Heard

namespace Runner

variable {r : Runner} {slice : Slice} {planId key : String} {report : Report} {trace events : Trace}
variable {part : HostPlan}

/-- The hosts that run are told of, a bracket for each, and have the records told filed. -/
theorem Underway.exists_heard {pool : Pool} (h : r.Underway slice planId events pool)
    (hfinished : pool.Finished) : ∃ heard : List Hearing,
      heard.map (·.entry) = slice.runnable (r.globals slice planId) ∧
        Interleaving (heard.map (·.bracket planId)) events.observed ∧
        pool.filed.Perm (heard.map fun x => (x.part.host.id, .ofSteps planId x.records)) := by
  obtain ⟨parts, hparts, hmerge⟩ := PoolRun.exists_leaves h hfinished
  have htold : List.Forall₂ (fun e told => (Task.waiting e.2).Tells planId told)
      (slice.runnable (r.globals slice planId)) (parts.map Trace.observed) := by
    rw [Pool.start, List.map_map, List.forall₂_map_left_iff] at hparts
    rw [List.forall₂_map_right_iff]
    exact hparts.imp fun _ _ hleaves => hleaves.tells
  obtain ⟨heard, hentries, hbrackets⟩ := Hearing.exists_of_tells htold
  have hobserved : Interleaving (heard.map (·.bracket planId)) events.observed := by
    have hguarded := hmerge.filterMap (Option.guard (·.isObserved))
    simp only [List.filterMap_eq_filter] at hguarded
    rw [hbrackets]
    exact hguarded
  refine ⟨heard, hentries, hobserved, ?_⟩
  have hfiled : pool.filed = events.observed.filterMap RunEvent.filing? := by
    rw [Trace.filings_observed]
    exact PoolRun.filed h
  have hfilings : (heard.map (·.bracket planId)).map (·.filterMap RunEvent.filing?) =
      heard.map fun x => [(x.part.host.id, .ofSteps planId x.records)] := by
    rw [List.map_map]
    refine List.map_congr_left fun x _ => ?_
    rw [Function.comp, Hearing.bracket, filings_bracket]
  have hperm := (hobserved.filterMap RunEvent.filing?).perm
  rw [hfilings, ← List.flatMap_def, ← List.map_eq_flatMap] at hperm
  rw [hfiled]
  exact hperm

/-- A host plan that is held back is told of with the records that it has. -/
def heldHearing (r : Runner) (slice : Slice) (planId : String) (e : String × HostPlan) :
    Hearing where
  key := e.1
  part := e.2
  records := (e.2.heldBack planId (slice.unmetGlobals (r.globals slice planId) e.2)).steps
  of_steps := e.2.heldBack_subjects _ _

theorem heldTrace_observed : (r.heldTrace slice planId).observed =
    (((slice.held (r.globals slice planId)).map (r.heldHearing slice planId)).map
      (·.bracket planId)).flatten := by
  rw [heldTrace, Trace.observed, List.filter_flatMap, List.map_map, ← List.flatMap_def]
  exact List.flatMap_congr fun e _ => holdBack_observed e.2 planId e.1 _

/-- **Wherever a run ends, observers have been told of the global steps and then of the hosts.** -/
theorem Outcome.exists_heard (h : r.Outcome slice planId report trace) (hkeyed : slice.Keyed) :
    ∃ hosts heard, trace.observed = (r.runGlobals slice planId).2.observed ++ hosts ∧
      slice.Heard planId (r.globals slice planId) report hosts heard := by
  obtain ⟨events, pool, hrun, hfinished, hreport, htrace⟩ := h
  obtain ⟨ran, hran, hmerge, hfiled⟩ := hrun.exists_heard hfinished
  set held := (slice.held (r.globals slice planId)).map (r.heldHearing slice planId) with hheld
  have hentries : ((held ++ ran).map (·.entry)).Perm slice.hostPlans.entries := by
    have hheldEntries : held.map (·.entry) = slice.held (r.globals slice planId) := by
      rw [hheld, List.map_map]
      exact List.map_id _
    rw [List.map_append, hheldEntries, hran]
    exact Slice.held_append_runnable_perm
  have hannounced (n : Nat) : (r.announce n).observed = [] := by
    unfold announce
    split <;> rfl
  refine ⟨(r.heldTrace slice planId).observed ++ events.observed, held ++ ran, ?_, hentries, ?_, ?_⟩
  · rw [htrace, Trace.observed_append, Trace.observed_append, Trace.observed_append, hannounced,
      List.append_nil, List.append_assoc]
  · rw [heldTrace_observed, List.map_append]
    exact hmerge.flatten_append _
  · have hrun : (ran.map fun x => (x.part.host.id, Report.ofSteps planId x.records)) =
        ran.map (·.filing planId) := by
      refine List.map_congr_left fun x hx => ?_
      have hentry : x.entry ∈ slice.runnable (r.globals slice planId) :=
        hran ▸ List.mem_map_of_mem hx
      have hid : x.part.host.id = x.key := hkeyed _ (List.mem_filter.mp hentry).1
      rw [hid]
      rfl
    have hheldReports : r.heldReports slice planId = held.map (·.filing planId) := by
      rw [heldReports, hheld, List.map_map]
      rfl
    have hperm : (r.heldReports slice planId ++ pool.filed).Perm
        ((held ++ ran).map (·.filing planId)) := by
      rw [List.map_append, hheldReports]
      exact (hrun ▸ hfiled).append_left _
    have hnodup : ((r.heldReports slice planId ++ pool.filed).map (·.1)).Nodup := by
      refine (hperm.map _).nodup_iff.mpr ?_
      have hkeys : (slice.hostPlans.entries.map (·.1)).Nodup := slice.hostPlans.nodup_keys
      have hnames := (hentries.map (·.1)).nodup_iff.mpr hkeys
      rw [List.map_map] at hnames ⊢
      exact hnames
    rw [hreport, Dict.ofList_eq_of_perm hnodup hperm]

/-! ### One host after another -/

/-- What is still to be told of the last step is told first. -/
theorem Leaves.queued {p : Progress} {records : List StepRecord} {rest : List HostStep}
    (h : r.Leaves planId (.running part p records [] rest) trace) (queued : Trace) :
    r.Leaves planId (.running part p records queued rest) (queued ++ trace) := by
  induction queued with
  | nil => exact h
  | cons e queued ih => exact .move .tell ih

/-- A task that is alone leaves what the loop over its steps does. -/
theorem leaves_remaining (r : Runner) (planId : String) (part : HostPlan) (p : Progress)
    (records : List StepRecord) (rest : List HostStep) :
    r.Leaves planId (.running part p records [] rest)
      (r.remaining planId part.host p records rest) := by
  induction rest generalizing p records with
  | nil =>
    show r.Leaves planId _ [.finished part.host (.ofSteps planId (records ++ []))]
    rw [List.append_nil]
    exact .move .finish .through
  | cons step rest ih =>
    set c := r.context planId part.host
    cases hdecision : r.decision p step with
    | skip code message =>
      have hstep : r.runStep c p step = skip c step code message := by rw [runStep, hdecision]
      rw [remaining_cons hstep]
      exact .move (.skip hdecision rfl) ((ih _ _).queued [_])
    | attempt executor =>
      have hstep : r.runStep c p step = r.attempt c step executor := by rw [runStep, hdecision]
      set record := r.recordOf c step (executor step c)
      obtain ⟨e, queued, htold⟩ := List.exists_cons_of_ne_nil (List.append_ne_nil_of_right_ne_nil
        (r.attempt c step executor).2.tail (List.cons_ne_nil (RunEvent.recorded record) []))
      have hlater : r.Leaves planId (.calling part p records executor step rest)
          (e :: (queued ++
            r.remaining planId part.host (p.after record) (records ++ [record]) rest)) :=
        .move (.answer rfl htold) ((ih _ _).queued queued)
      rw [← List.cons_append, ← htold, List.append_assoc] at hlater
      rw [remaining_cons hstep]
      exact .move (.call hdecision) hlater

/-- A task that waits leaves what running its host plan does. -/
theorem leaves_runSteps (r : Runner) (planId : String) (part : HostPlan) :
    r.Leaves planId (.waiting part) (r.runSteps planId part.host part.steps).2 :=
  .move .take (r.leaves_remaining planId part .start [] part.steps)

/-- While nobody else is at work, a task of the pool comes through. -/
theorem Leaves.poolRun {workers : Nat} (hworkers : 0 < workers) {t : Task}
    (h : r.Leaves planId t trace) {left right : List Task}
    (hidle : (left ++ right).countP (·.isBusy) = 0) (filed : List (String × Report)) :
    ∃ filed', r.PoolRun planId workers ⟨left ++ t :: right, filed⟩ trace
      ⟨left ++ .through :: right, filed'⟩ := by
  induction h generalizing filed with
  | through => exact ⟨filed, .refl⟩
  | @move t t' e trace hmove hrest ih =>
    obtain ⟨filed', hrun⟩ := ih (filed ++ e.filing?.toList)
    refine ⟨filed', .head (.move hmove fun hwaiting => ?_) hrun⟩
    have hnot : t.isBusy = false := by
      cases t <;> first | rfl | exact Bool.noConfusion hwaiting
    rw [List.countP_append] at hidle ⊢
    rw [List.countP_cons_of_neg (by simp [hnot])]
    omega

/-- A pool may take its tasks one after another. -/
theorem exists_poolRun_in_order {workers : Nat} (hworkers : 0 < workers) (parts : List HostPlan)
    {left : List Task} (hleft : ∀ t ∈ left, t.isThrough = true) (filed : List (String × Report)) :
    ∃ pool', r.PoolRun planId workers ⟨left ++ parts.map .waiting, filed⟩
      (parts.flatMap fun part => (r.runSteps planId part.host part.steps).2) pool' ∧
        pool'.Finished := by
  induction parts generalizing left filed with
  | nil => exact ⟨_, .refl, by simpa [Pool.Finished] using hleft⟩
  | cons part parts ih =>
    have hidle : (left ++ parts.map Task.waiting).countP (·.isBusy) = 0 := by
      rw [List.countP_eq_zero]
      intro t ht hbusy
      rcases List.mem_append.mp ht with hmem | hmem
      · have hthrough : t.isThrough = true := hleft t hmem
        cases t <;> first | exact Bool.noConfusion hbusy | exact Bool.noConfusion hthrough
      · obtain ⟨later, -, rfl⟩ := List.mem_map.mp hmem
        exact Bool.noConfusion hbusy
    obtain ⟨filed', hfirst⟩ := (r.leaves_runSteps planId part).poolRun hworkers hidle filed
    have hdone : ∀ t ∈ left ++ [.through], t.isThrough = true := by
      simpa [or_imp, forall_and, Task.isThrough] using hleft
    obtain ⟨pool', hrest, hfinished⟩ := ih hdone filed'
    rw [List.append_assoc] at hrest
    exact ⟨pool', hfirst.append hrest, hfinished⟩

/-- What running one host after another comes to is among the outcomes on workers. -/
theorem outcome_runParts (r : Runner) (slice : Slice) (planId : String) :
    r.Outcome slice planId (r.runParts slice planId).1 (r.runParts slice planId).2 := by
  set runnable := slice.runnable (r.globals slice planId) with hrunnable
  obtain ⟨pool, hrun, hfinished⟩ : ∃ pool,
      r.Underway slice planId (r.hostTraces slice planId).flatten pool ∧ pool.Finished := by
    have hevents : (r.hostTraces slice planId).flatten = (runnable.map (·.2)).flatMap fun part =>
        (r.runSteps planId part.host part.steps).2 := by
      rw [hostTraces, List.flatMap_map, List.flatMap_def]
    unfold Underway
    rw [hevents, ← hrunnable]
    rcases Nat.eq_zero_or_pos runnable.length with hzero | hpos
    · rw [List.eq_nil_of_length_eq_zero hzero]
      exact ⟨_, .refl, fun t ht => absurd ht List.not_mem_nil⟩
    · exact exists_poolRun_in_order (workers_pos hpos) _ (fun t ht => absurd ht List.not_mem_nil) []
  refine ⟨_, pool, hrun, hfinished, ?_, by rw [runParts_eq]⟩
  have hfiled : pool.filed = runnable.map fun e =>
      (e.2.host.id, r.partReport slice planId (r.globals slice planId) e.2) := by
    have hone : ∀ e ∈ runnable,
        (r.runSteps planId e.2.host e.2.steps).2.filterMap RunEvent.filing? =
          [(e.2.host.id, r.partReport slice planId (r.globals slice planId) e.2)] :=
      fun e he => by rw [filings_runSteps, partReport_of_runnable he]
    have hall : pool.filed = (r.hostTraces slice planId).flatten.filterMap RunEvent.filing? :=
      PoolRun.filed hrun
    rw [hall, List.filterMap_flatten, hostTraces, List.map_map, ← List.flatMap_def,
      List.map_eq_flatMap]
    exact List.flatMap_congr hone
  have hheld : r.heldReports slice planId = (slice.held (r.globals slice planId)).map fun e =>
      (e.1, r.partReport slice planId (r.globals slice planId) e.2) :=
    List.map_congr_left fun e he => by rw [partReport_of_held he]; rfl
  rw [runParts_eq, partReports, hfiled, hheld, Slice.filings, List.map_append, List.map_map]
  rfl

/-! ### What observers are told of a run -/

/-- The global steps are told as one bracket, if there are any. -/
theorem runGlobals_observed (r : Runner) (slice : Slice) (planId : String) :
    (r.runGlobals slice planId).2.observed = if slice.globalSteps.isEmpty then [] else
      Trace.bracket planId .fleet slice.globalSteps.length (r.globals slice planId).steps := by
  unfold globals runGlobals
  split
  · rfl
  · rw [runSteps_observed, List.length_map]

theorem globals_records (r : Runner) (slice : Slice) (planId : String) :
    RecordsOf .fleet (slice.globalSteps.map .ofStep) (r.globals slice planId).steps := by
  unfold RecordsOf
  rw [globals_subjects, List.map_map]
  rfl

/-- What the global steps leave is about the fleet. -/
theorem globals_records_on (r : Runner) (slice : Slice) (planId key : String) :
    (r.globals slice planId).steps.filter (·.host.id == key) =
      if key = "" then (r.globals slice planId).steps else [] := by
  have hfleet : ∀ record ∈ (r.globals slice planId).steps, record.host.id = "" :=
    fun record hmem => congrArg Host.id (host_of_mem_globals hmem)
  by_cases hkey : key = ""
  · rw [if_pos hkey, List.filter_eq_self]
    intro record hmem
    rw [hfleet record hmem, hkey]
    rfl
  · rw [if_neg hkey, List.filter_eq_nil_iff]
    intro record hmem
    rw [hfleet record hmem, beq_iff_eq]
    exact fun h => hkey h.symm

theorem runGlobals_observed_on (r : Runner) (slice : Slice) (planId key : String) :
    (r.runGlobals slice planId).2.observed.on key =
      if key = "" then (r.runGlobals slice planId).2.observed else [] := by
  by_cases hkey : key = ""
  · rw [if_pos hkey, hkey, runGlobals_observed]
    split
    · rfl
    · exact bracket_on (r.globals_records slice planId)
  · rw [if_neg hkey, Trace.observed_on,
      onlyOn_runGlobals.on_eq_nil (show Host.fleet.id ≠ key from fun h => hkey h.symm)]
    rfl

/-- Of each host plan, be it run or held back, its bracket is told. -/
theorem Outcome.observed_on_part (h : r.Outcome slice planId report trace) (hkeyed : slice.Keyed)
    (herr : slice.runError? planId = none) (hpart : slice.hostPlans.get? key = some part) :
    ∃ records, report.steps.filter (·.host.id == key) = records ∧
      RecordsOf part.host part.steps records ∧
      trace.observed.on key = .bracket planId part.host part.steps.length records := by
  obtain ⟨hosts, heard, htrace, hheard⟩ := h.exists_heard hkeyed
  obtain ⟨x, hx, hentry⟩ : ∃ x ∈ heard, x.entry = (key, part) :=
    List.mem_map.mp (hheard.entries.symm.subset (Dict.get?_eq_some_iff.mp hpart))
  obtain ⟨rfl, rfl⟩ := Prod.mk.inj hentry
  have hne : x.key ≠ "" := hkeyed.key_ne herr (hheard.mem_entries hx)
  have hglobals : (r.globals slice planId).steps.filter (·.host.id == x.key) = [] := by
    rw [globals_records_on, if_neg hne]
  refine ⟨x.records, hheard.records_of_mem hkeyed hx hglobals, x.of_steps, ?_⟩
  rw [htrace, Trace.on_append, runGlobals_observed_on, if_neg hne, hheard.on_of_mem hkeyed hx]
  rfl

/-- Of the fleet the bracket of the global steps is told. -/
theorem Outcome.observed_on_fleet (h : r.Outcome slice planId report trace) (hkeyed : slice.Keyed)
    (herr : slice.runError? planId = none) :
    ∃ records, report.steps.filter (·.host.id == "") = records ∧
      RecordsOf .fleet (slice.globalSteps.map .ofStep) records ∧
      trace.observed.on "" = if slice.globalSteps.isEmpty then [] else
        Trace.bracket planId .fleet slice.globalSteps.length records := by
  obtain ⟨hosts, heard, htrace, hheard⟩ := h.exists_heard hkeyed
  have hkeys : ∀ x ∈ heard, x.key ≠ "" := fun x hx =>
    hkeyed.key_ne herr (hheard.mem_entries hx)
  refine ⟨(r.globals slice planId).steps, ?_, r.globals_records slice planId, ?_⟩
  · rw [hheard.records_of_not_mem hkeyed hkeys, globals_records_on, if_pos rfl]
  · rw [htrace, Trace.on_append, hheard.on_of_not_mem hkeyed hkeys, List.append_nil,
      runGlobals_observed_on, if_pos rfl, runGlobals_observed]

/-- Of no other host anything is told. -/
theorem Outcome.observed_on_eq_nil (h : r.Outcome slice planId report trace)
    (hkeyed : slice.Keyed) (hne : key ≠ "") (hnone : slice.hostPlans.get? key = none) :
    trace.observed.on key = [] := by
  obtain ⟨hosts, heard, htrace, hheard⟩ := h.exists_heard hkeyed
  have hothers : ∀ x ∈ heard, x.key ≠ key := by
    intro x hx hname
    have hfound := Dict.get?_eq_some_iff.mpr (hheard.mem_entries hx)
    rw [hname, hnone] at hfound
    cases hfound
  rw [htrace, Trace.on_append, runGlobals_observed_on, if_neg hne,
    hheard.on_of_not_mem hkeyed hothers]
  rfl

/--
**Observers are told of every host in one bracket.**  Take a slice that is run, whose host
plans are kept under their hosts' ids, and any run of it on workers; the one that comes back
is among them.  Of each host plan, be it run or held back, observers are told one bracket: how
many steps it has, then for each step in the order of the list the record that the merged
report has, then the report that is made of just these.  The global steps are told as one such
bracket if there are any, and nothing is told of any other host.  A host plan that is run on its
own is told as the bracket of the report that comes back.
-/
theorem observers_told_brackets (r : Runner) :
    (∀ slice planId report trace, slice.Keyed → r.dispatch slice planId = .ok (report, trace) →
      r.Outcome slice planId report trace ∧
      ∀ report' trace', r.Outcome slice planId report' trace' →
        (∀ key part, slice.hostPlans.get? key = some part → ∃ records,
          report'.steps.filter (·.host.id == key) = records ∧
          RecordsOf part.host part.steps records ∧
          trace'.observed.on key = .bracket planId part.host part.steps.length records) ∧
        (∃ records, report'.steps.filter (·.host.id == "") = records ∧
          RecordsOf .fleet (slice.globalSteps.map .ofStep) records ∧
          trace'.observed.on "" = if slice.globalSteps.isEmpty then [] else
            Trace.bracket planId .fleet slice.globalSteps.length records) ∧
        ∀ key, key ≠ "" → slice.hostPlans.get? key = none → trace'.observed.on key = []) ∧
    ∀ plan report trace, r.runHostPlan plan = .ok (report, trace) →
      report = .ofSteps plan.planId report.steps ∧
        RecordsOf plan.host plan.steps report.steps ∧
        trace.observed = .bracket plan.planId plan.host plan.steps.length report.steps := by
  constructor
  · intro slice planId report trace hkeyed hrun
    obtain ⟨herr, hresult⟩ := dispatch_eq_ok_iff.mp hrun
    obtain rfl : report = (r.runParts slice planId).1 := congrArg Prod.fst hresult
    obtain rfl : trace = (r.runParts slice planId).2 := congrArg Prod.snd hresult
    refine ⟨r.outcome_runParts slice planId, fun report' trace' houtcome => ⟨?_, ?_, ?_⟩⟩
    · exact fun key part hpart => houtcome.observed_on_part hkeyed herr hpart
    · exact houtcome.observed_on_fleet hkeyed herr
    · exact fun key hne hnone => houtcome.observed_on_eq_nil hkeyed hne hnone
  · intro plan report trace hrun
    unfold runHostPlan at hrun
    split at hrun
    · cases hrun
    · obtain ⟨rfl, rfl⟩ := Prod.mk.inj (Except.ok.inj hrun)
      exact ⟨rfl, r.runSteps_records _ _ _, r.runSteps_observed _ _ _⟩

/-- Of two hosts the second is held back, and observers hear of its steps all the same. -/
theorem observers_told_brackets_of_danglingReference : ∃ report trace own ownTrace,
    danglingReference.Keyed ∧ obliging.dispatch danglingReference "p" = .ok (report, trace) ∧
      trace.observed.on "a" = .bracket "p" (.named "a") 1 (report.steps.filter (·.host.id == "a")) ∧
      trace.observed.on "b" = .bracket "p" (.named "b") 2 (report.steps.filter (·.host.id == "b")) ∧
      trace.observed.on "" = .bracket "p" .fleet 1 (report.steps.filter (·.host.id == "")) ∧
      trace.observed.on "c" = [] ∧
      obliging.runHostPlan (danglingReference.plan "b" ["t", "u"]) = .ok (own, ownTrace) ∧
      ownTrace.observed = .bracket "p" (.named "b") 2 own.steps := by
  have hrun : obliging.dispatch danglingReference "p" =
      .ok (obliging.runParts danglingReference "p") := dispatch_eq_ok_iff.mpr ⟨by cbv, rfl⟩
  have hown : obliging.runHostPlan (danglingReference.plan "b" ["t", "u"]) =
      .ok (obliging.runSteps "p" (.named "b") (danglingReference.plan "b" ["t", "u"]).steps) := by
    cbv
  obtain ⟨hdispatch, halone⟩ := observers_told_brackets obliging
  obtain ⟨houtcome, hall⟩ := hdispatch _ _ _ _ danglingReference_keyed hrun
  obtain ⟨hparts, ⟨_, rfl, -, hfleet⟩, hothers⟩ := hall _ _ houtcome
  obtain ⟨_, rfl, -, hfirst⟩ := hparts "a" (danglingReference.plan "a" ["s"])
    (Dict.get?_eq_some_iff.mpr (by rw [danglingReference_entries]; exact List.mem_cons_self))
  obtain ⟨_, rfl, -, hsecond⟩ := hparts "b" (danglingReference.plan "b" ["t", "u"])
    (Dict.get?_eq_some_iff.mpr (by
      rw [danglingReference_entries]
      exact List.mem_cons_of_mem _ List.mem_cons_self))
  exact ⟨_, _, _, _, danglingReference_keyed, hrun, hfirst, hsecond, hfleet,
    hothers "c" (by decide) (by cbv), hown, (halone _ _ _ hown).2.2⟩

end Runner

end FleetPlan
