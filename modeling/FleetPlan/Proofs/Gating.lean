/-
Which hosts are given their plans.

A host plan waits for the global steps that its own steps refer to (`Slice.Requires`).
It is handed out just when each of these is a global step with a record of success
(`Slice.Met`), and then its host does what a run of the host plan does.  Otherwise
nothing is called on the host, and every step of it is skipped for one and the same
reason, which lists what was missing.  Both are said of the report and of every schedule,
so a decision does not depend on how the other hosts take turns.

The merged report is asked what has succeeded, and not that of the global steps alone.
The two agree because no host plan that is accepted is for the fleet (`met_iff`).
-/
import FleetPlan.Proofs.Agent
import FleetPlan.Proofs.Events
import FleetPlan.Proofs.Records

namespace FleetPlan

namespace Slice

/-- A host plan waits for an id when one of its steps refers to it. -/
def Requires (slice : Slice) (part : HostPlan) (id : String) : Prop :=
  ∃ step ∈ part.steps, ∃ refs, slice.globalRefs.get? step.id = some refs ∧ id ∈ refs

/-- An id is that of a global step, which a report records as succeeded. -/
def Met (slice : Slice) (report : Report) (id : String) : Prop :=
  ∃ s ∈ slice.globalSteps, s.id = id ∧
    ∃ record ∈ report.steps, record.stepId = id ∧ record.host = .fleet ∧ record.status = .succeeded

variable {slice : Slice} {globals : Report} {planId id : String} {part : HostPlan}

theorem mem_requiredGlobals_iff : id ∈ slice.requiredGlobals part ↔ slice.Requires part id := by
  rw [requiredGlobals, Names.mem_sorted, List.mem_flatMap]
  refine exists_congr fun step => and_congr_right fun _ => ?_
  cases slice.globalRefs.get? step.id <;> simp

/-- No host plan of a sliced plan that is run is for the fleet. -/
theorem host_id_ne (h : slice.runError? planId = none) {e : String × HostPlan}
    (he : e ∈ slice.hostPlans.entries) : e.2.host.id ≠ "" := by
  have haccepted := part_runError?_eq_none h (show (e.1, e.2) ∈ slice.hostPlans.entries from he)
  intro hempty
  simp [HostPlan.runError?, Host.isGlobal, hempty] at haccepted

/-- No host plan of a sliced plan that is run is kept under the empty id. -/
theorem Keyed.key_ne (hkeyed : slice.Keyed) (h : slice.runError? planId = none) {key : String}
    (hpart : (key, part) ∈ slice.hostPlans.entries) : key ≠ "" := by
  have hid : part.host.id = key := hkeyed _ hpart
  exact hid ▸ host_id_ne h hpart

end Slice

namespace Runner

variable {r : Runner} {slice : Slice} {planId key id : String} {part : HostPlan}

/-! ### What has succeeded -/

/-- A success that is recorded for the fleet is that of a global step. -/
theorem met_iff (hkeyed : slice.Keyed) (herr : slice.runError? planId = none) :
    slice.Met (r.runParts slice planId).1 id ↔
      ∃ record ∈ (r.globals slice planId).steps, record.stepId = id ∧ record.status = .succeeded := by
  constructor
  · rintro ⟨s, -, -, record, hmem, hid, hhost, hstatus⟩
    rw [runParts_steps_of_keyed hkeyed] at hmem
    rcases List.mem_append.mp hmem with hmem | hmem
    · exact ⟨record, hmem, hid, hstatus⟩
    · obtain ⟨e, he, hmem⟩ := List.mem_flatMap.mp hmem
      rw [(of_mem_partReport hmem).1] at hhost
      exact absurd (congrArg Host.id hhost) (Slice.host_id_ne herr he)
  · rintro ⟨record, hmem, rfl, hstatus⟩
    have hsubject := List.mem_map_of_mem (f := StepRecord.subject) hmem
    rw [globals_subjects] at hsubject
    obtain ⟨s, hs, heq⟩ := List.mem_map.mp hsubject
    exact ⟨s, hs, (Prod.mk.inj heq).1, record, mem_runParts_of_globals hmem, rfl,
      host_of_mem_globals hmem, hstatus⟩

/-- A host plan is held back just when something it waits for is not met. -/
theorem isHeld_eq_false_iff_met (hkeyed : slice.Keyed) (herr : slice.runError? planId = none) :
    slice.isHeld (r.globals slice planId) part = false ↔
      ∀ id, slice.Requires part id → slice.Met (r.runParts slice planId).1 id := by
  rw [Slice.isHeld_eq_false_iff]
  refine forall_congr' fun id => ?_
  rw [Slice.mem_requiredGlobals_iff, met_iff hkeyed herr]

theorem mem_unmetGlobals_iff (hkeyed : slice.Keyed) (herr : slice.runError? planId = none) :
    id ∈ slice.unmetGlobals (r.globals slice planId) part ↔
      slice.Requires part id ∧ ¬slice.Met (r.runParts slice planId).1 id := by
  rw [met_iff hkeyed herr, ← Slice.mem_requiredGlobals_iff, Slice.unmetGlobals, List.mem_filter]
  refine and_congr_right fun _ => ?_
  simp only [Bool.not_eq_true', Bool.eq_false_iff, ne_eq, List.contains_iff_mem, List.mem_map,
    List.mem_filter, beq_iff_eq]
  exact not_congr (exists_congr fun record => by
    rw [and_assoc, and_comm (a := record.status = .succeeded)])

/-! ### What is seen of one host -/

/-- The records of a host are those of the host plan that is kept under its id. -/
theorem records_of_host (hkeyed : slice.Keyed) (herr : slice.runError? planId = none)
    (hpart : (key, part) ∈ slice.hostPlans.entries) :
    (r.runParts slice planId).1.steps.filter (·.host.id == key) =
      (r.partReport slice planId (r.globals slice planId) part).steps := by
  have hid : part.host.id = key := hkeyed _ hpart
  obtain ⟨before, after, hsteps, hother⟩ :=
    r.runParts_block planId hkeyed hpart (hkeyed.key_ne herr hpart)
  have hnil (xs : List StepRecord) (hxs : ∀ record ∈ xs, record.host.id ≠ key) :
      xs.filter (·.host.id == key) = [] := by
    simpa [List.filter_eq_nil_iff] using hxs
  rw [hsteps, List.filter_append, List.filter_append,
    hnil before fun record hmem => hother record (List.mem_append_left _ hmem),
    hnil after fun record hmem => hother record (List.mem_append_right _ hmem),
    List.nil_append, List.append_nil, List.filter_eq_self]
  intro record hmem
  rw [(of_mem_partReport hmem).1, hid]
  exact beq_self_eq_true key

/-- Of a host that runs, nothing is seen before the hosts are begun. -/
theorem on_before_hosts (hkeyed : slice.Keyed) (herr : slice.runError? planId = none)
    (hpart : (key, part) ∈ slice.runnable (r.globals slice planId)) (n : Nat) :
    Trace.on key ((r.runGlobals slice planId).2 ++ r.heldTrace slice planId ++ r.announce n) =
      [] := by
  obtain ⟨hentry, hruns⟩ := Slice.mem_runnable.mp hpart
  have hglobals : (r.runGlobals slice planId).2.on key = [] :=
    onlyOn_runGlobals.on_eq_nil (hkeyed.key_ne herr hentry).symm
  have hheld : (r.heldTrace slice planId).on key = [] := by
    rw [Trace.on_eq_nil_iff]
    intro event hevent host hhost hname
    obtain ⟨e, he, hmem⟩ := List.mem_flatMap.mp hevent
    obtain ⟨he, hholds⟩ := Slice.mem_held.mp he
    rw [onlyOn_holdBack _ _ _ _ event hmem host hhost, hkeyed e he] at hname
    -- A host plan that is held back is not the one that runs.
    obtain rfl := Dict.eq_of_name_eq he hentry hname
    rw [hruns] at hholds
    exact Bool.noConfusion hholds
  rw [Trace.on_append, Trace.on_append, hglobals, hheld, on_announce]
  rfl

/-- What is seen of a host that runs is what running its host plan leaves. -/
theorem on_runParts_of_runnable (hkeyed : slice.Keyed) (herr : slice.runError? planId = none)
    (hpart : (key, part) ∈ slice.runnable (r.globals slice planId)) :
    (r.runParts slice planId).2.on key = (r.runSteps planId part.host part.steps).2.on key := by
  have hhosts : Trace.on key (r.hostTraces slice planId).flatten =
      (r.runSteps planId part.host part.steps).2.on key := by
    rw [Trace.on_flatten, hostTraces, List.map_map, ← List.flatMap_def]
    have hnames : ((slice.runnable (r.globals slice planId)).map (·.1)).Nodup :=
      slice.hostPlans.nodup_keys.sublist (List.filter_sublist.map _)
    refine flatMap_eq_of_nodup hnames hpart fun e he hne => ?_
    refine (onlyOn_runSteps _ _).on_eq_nil ?_
    rw [hkeyed e (List.mem_filter.mp he).1]
    exact hne
  rw [runParts_eq, Trace.on_append, on_before_hosts hkeyed herr hpart, hhosts, List.nil_append]

/-- No schedule calls anything on a host that is held back. -/
theorem Schedule.host_ne_of_held {trace : Trace} (h : r.Schedule slice planId trace)
    (hkeyed : slice.Keyed) (herr : slice.runError? planId = none)
    (hpart : (key, part) ∈ slice.held (r.globals slice planId)) {step : HostStep} {c : RunContext}
    (hcall : .called step c ∈ trace) : c.host.id ≠ key := by
  obtain ⟨hentry, hholds⟩ := Slice.mem_held.mp hpart
  obtain ⟨before, after, hsplit⟩ := List.append_of_mem hcall
  rcases h.called_cases hsplit with ⟨later, hglobals⟩ | ⟨e, he, earlier, later, hrun, -, -⟩
  · have hfleet : c.host = .fleet :=
      onlyOn_runGlobals (.called step c) (hglobals ▸ List.mem_append_right _ List.mem_cons_self)
        c.host rfl
    rw [hfleet]
    exact (hkeyed.key_ne herr hentry).symm
  · obtain ⟨he, hruns⟩ := Slice.mem_runnable.mp he
    rw [(runSteps_called hrun).2.1]
    intro hname
    obtain rfl := Dict.eq_of_name_eq he hentry ((hkeyed e he).symm.trans hname)
    rw [hruns] at hholds
    exact Bool.noConfusion hholds

/--
**A host is given its plan just when all that the plan waits for has succeeded.**  Take a
slice that is run, whose host plans are kept under their hosts' ids, and one of its host
plans.  If every id that its steps refer to is that of a global step recorded as succeeded,
the report has for the host what running its host plan records, and every schedule shows
of the host what running it leaves; this is so whatever became of the global steps that
it does not refer to.  If not, no schedule calls anything on the host, and each of its
steps is skipped for the ids that are missing, listed in order and once each.
-/
theorem dispatch_gates_host {report : Report} {trace : Trace} (hkeyed : slice.Keyed)
    (hrun : r.dispatch slice planId = .ok (report, trace))
    (hpart : slice.hostPlans.get? key = some part) :
    ((∀ id, slice.Requires part id → slice.Met report id) →
      report.steps.filter (·.host.id == key) = (r.runSteps planId part.host part.steps).1.steps ∧
        ∀ trace', r.Schedule slice planId trace' →
          trace'.on key = (r.runSteps planId part.host part.steps).2.on key) ∧
    (¬(∀ id, slice.Requires part id → slice.Met report id) →
      (∃ unmet : List String, unmet.Pairwise (· < ·) ∧
        (∀ id, id ∈ unmet ↔ slice.Requires part id ∧ ¬slice.Met report id) ∧
        report.steps.filter (·.host.id == key) = part.steps.map fun step =>
          .skipped step.id part.host .globalDependencyUnmet
            ("global step(s) not completed: " ++ ", ".intercalate unmet)) ∧
        ∀ trace', r.Schedule slice planId trace' →
          ∀ step c, .called step c ∈ trace' → c.host.id ≠ key) := by
  obtain ⟨herr, hresult⟩ := dispatch_eq_ok_iff.mp hrun
  obtain rfl : report = (r.runParts slice planId).1 := congrArg Prod.fst hresult
  have hentry := Dict.get?_eq_some_iff.mp hpart
  rw [records_of_host hkeyed herr hentry, partReport, ← isHeld_eq_false_iff_met hkeyed herr]
  constructor
  · intro hruns
    rw [if_neg (by simp [hruns])]
    refine ⟨rfl, fun trace' hsched => ?_⟩
    rw [hsched.on_eq hkeyed key]
    exact on_runParts_of_runnable hkeyed herr (Slice.mem_runnable.mpr ⟨hentry, hruns⟩)
  · intro hholds
    rw [Bool.not_eq_false] at hholds
    rw [if_pos hholds]
    refine ⟨⟨slice.unmetGlobals (r.globals slice planId) part, ?_, ?_, rfl⟩, ?_⟩
    · exact (Names.pairwise_sorted _).filter _
    · exact fun id => mem_unmetGlobals_iff hkeyed herr
    · exact fun trace' hsched step c hcall =>
        hsched.host_ne_of_held hkeyed herr (Slice.mem_held.mpr ⟨hentry, hholds⟩) hcall

/-- Two hosts, one of which waits for a step that is no global step. -/
def danglingReference : Slice :=
  ⟨.ofList [("a", plan "a" ["s"]), ("b", plan "b" ["t", "u"])], [.bare "g" .zero .noop .fleet],
    ["g"], .ofList [("s", ["g"]), ("t", ["x", "g"])]⟩
where
  plan (host : String) (steps : List String) : HostPlan :=
    ⟨schemaVersion, "p", .named host, steps.map step, .empty⟩
  step (id : String) : HostStep := .ofStep (.bare id .zero .noop .fleet)

theorem danglingReference_entries : danglingReference.hostPlans.entries =
    [("a", danglingReference.plan "a" ["s"]), ("b", danglingReference.plan "b" ["t", "u"])] :=
  Dict.entries_ofList (List.pairwise_pair.mpr (by decide +kernel))

theorem danglingReference_keyed : danglingReference.Keyed := by
  intro e he
  rw [danglingReference_entries] at he
  simp only [List.mem_cons, List.not_mem_nil, or_false] at he
  rcases he with rfl | rfl <;> rfl

/-- The host that waits for a step that does not exist is held back, the other one runs. -/
theorem dispatch_gates_host_of_danglingReference : ∃ report trace unmet,
    danglingReference.Keyed ∧ obliging.dispatch danglingReference "p" = .ok (report, trace) ∧
      danglingReference.hostPlans.get? "a" = some (danglingReference.plan "a" ["s"]) ∧
      danglingReference.hostPlans.get? "b" = some (danglingReference.plan "b" ["t", "u"]) ∧
      report.steps.filter (·.host.id == "a") =
        (obliging.runSteps "p" (.named "a") [danglingReference.step "s"]).1.steps ∧
      (∀ step c, .called step c ∈ trace → c.host.id ≠ "b") ∧
      "x" ∈ unmet ∧ "g" ∉ unmet ∧
      report.steps.filter (·.host.id == "b") = ["t", "u"].map fun id =>
        .skipped id (.named "b") .globalDependencyUnmet
          ("global step(s) not completed: " ++ ", ".intercalate unmet) := by
  have hkeyed := danglingReference_keyed
  have ha : danglingReference.hostPlans.get? "a" = some (danglingReference.plan "a" ["s"]) :=
    Dict.get?_eq_some_iff.mpr (by rw [danglingReference_entries]; exact List.mem_cons_self)
  have hb : danglingReference.hostPlans.get? "b" = some (danglingReference.plan "b" ["t", "u"]) :=
    Dict.get?_eq_some_iff.mpr (by
      rw [danglingReference_entries]
      exact List.mem_cons_of_mem _ List.mem_cons_self)
  have herr : danglingReference.runError? "p" = none := by cbv
  have hrun : obliging.dispatch danglingReference "p" =
      .ok (obliging.runParts danglingReference "p") := dispatch_eq_ok_iff.mpr ⟨herr, rfl⟩
  have hsucceeded : (obliging.globals danglingReference "p").steps.any
    (fun record => record.stepId == "g" && record.status == .succeeded) = true := by cbv
  set report := (obliging.runParts danglingReference "p").1
  have hmet : danglingReference.Met report "g" :=
    (met_iff hkeyed herr).mpr (by simpa using hsucceeded)
  have hunmet : ¬danglingReference.Met report "x" := by
    rintro ⟨s, hs, hid, -⟩
    obtain rfl := List.mem_singleton.mp hs
    exact absurd hid (by decide)
  have hs : danglingReference.globalRefs.get? "s" = some ["g"] := by cbv
  have ht : danglingReference.globalRefs.get? "t" = some ["x", "g"] := by cbv
  have hx : danglingReference.Requires (danglingReference.plan "b" ["t", "u"]) "x" :=
    ⟨danglingReference.step "t", List.mem_cons_self, _, ht, List.mem_cons_self⟩
  obtain ⟨hrunsA, -⟩ := dispatch_gates_host hkeyed hrun ha
  obtain ⟨-, hholdsB⟩ := dispatch_gates_host hkeyed hrun hb
  have hallA : ∀ id, danglingReference.Requires (danglingReference.plan "a" ["s"]) id →
      danglingReference.Met report id := by
    rintro id ⟨step, hstep, refs, hrefs, hid⟩
    obtain rfl := List.mem_singleton.mp hstep
    obtain rfl := Option.some.inj (hs.symm.trans hrefs)
    obtain rfl := List.mem_singleton.mp hid
    exact hmet
  obtain ⟨⟨unmet, -, hmem, hskipped⟩, hnot⟩ := hholdsB fun hall => hunmet (hall "x" hx)
  exact ⟨_, _, unmet, hkeyed, hrun, ha, hb, (hrunsA hallA).1,
    hnot _ (schedule_runParts obliging danglingReference "p"), (hmem "x").mpr ⟨hx, hunmet⟩,
    fun hg => ((hmem "g").mp hg).2 hmet, hskipped⟩

end Runner

end FleetPlan
