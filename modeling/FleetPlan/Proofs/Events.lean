/-
What a trace shows of one host, and of one step.

Every event but a log line is about a host, and a list of steps that is run leaves
events about its own host only.  So what a trace shows of one host does not depend on
how the hosts take turns: an interleaving, restricted to what only one of its parts
has, is that part (`Interleaving.eq_flatten`).  The same is true of the calls of one
step.  Hence `Schedule.on_eq` and `Schedule.callsOf_eq`: in all schedules of a run the
same is seen of a host, and the same of a step, as in the one that `runParts` returns.
-/
import FleetPlan.Proofs.Schedule

namespace FleetPlan

/-- The host that an event is about; a log line is about none. -/
def RunEvent.host? : RunEvent → Option Host
  | .started host _ => some host
  | .called _ c => some c.host
  | .recorded record => some record.host
  | .finished host _ => some host
  | .logged _ => none

namespace Trace

/-- The events of a trace that are about the host of this id. -/
def on (key : String) (trace : Trace) : Trace := trace.filter fun e => e.host?.any (·.id == key)

/-- The calls of the steps of this id. -/
def callsOf (id : String) (trace : Trace) : List (HostStep × RunContext) :=
  trace.calls.filter (·.1.id == id)

variable {key : String} {xs ys : Trace} {parts : List Trace}

theorem on_append : on key (xs ++ ys) = on key xs ++ on key ys := List.filter_append ..

theorem on_flatten : on key parts.flatten = (parts.map (on key)).flatten := List.filter_flatten ..

theorem on_eq_nil_iff : on key xs = [] ↔ ∀ e ∈ xs, ∀ host, e.host? = some host → host.id ≠ key := by
  simp [on, Option.any_eq_false]

theorem calls_flatten : calls parts.flatten = (parts.map calls).flatten :=
  List.filterMap_flatten ..

/-- The calls of one step, picked out of the events one by one. -/
theorem callsOf_eq_filterMap (id : String) (trace : Trace) :
    callsOf id trace = trace.filterMap fun e => e.call?.filter (·.1.id == id) := by
  rw [callsOf, calls, List.filter_filterMap]

theorem on_eq_filterMap (key : String) (trace : Trace) :
    on key trace = trace.filterMap (Option.guard fun e => e.host?.any (·.id == key)) := by
  rw [List.filterMap_eq_filter]
  rfl

end Trace

/-! ### What a name stands for -/

section

variable {α β : Type}

/-- Among things of different names, all others are named differently. -/
theorem exists_split_of_nodup {name : α → String} {xs : List α} (h : (xs.map name).Nodup) {x : α}
    (hx : x ∈ xs) :
    ∃ before after, xs = before ++ x :: after ∧ ∀ y ∈ before ++ after, name y ≠ name x := by
  obtain ⟨before, after, rfl⟩ := List.append_of_mem hx
  rw [List.map_append, List.map_cons, List.nodup_middle, ← List.map_append] at h
  exact ⟨before, after, rfl, fun y hy hname =>
    (List.nodup_cons.mp h).1 (List.mem_map.mpr ⟨y, hy, hname⟩)⟩

theorem filter_eq_singleton_of_nodup {name : α → String} {xs : List α} (h : (xs.map name).Nodup)
    {x : α} (hx : x ∈ xs) : xs.filter (name · == name x) = [x] := by
  obtain ⟨before, after, rfl, hother⟩ := exists_split_of_nodup h hx
  have hnil (ys : List α) (hys : ys ⊆ before ++ after) : ys.filter (name · == name x) = [] := by
    rw [List.filter_eq_nil_iff]
    exact fun y hy => by simpa using hother y (hys hy)
  rw [List.filter_append, List.filter_cons, if_pos (beq_self_eq_true _),
    hnil before (List.subset_append_left _ _), hnil after (List.subset_append_right _ _),
    List.nil_append]

/-- What only the thing of one name adds to is what that thing adds. -/
theorem flatMap_eq_of_nodup {name : α → String} {xs : List α} (h : (xs.map name).Nodup) {x : α}
    (hx : x ∈ xs) {f : α → List β} (hnil : ∀ y ∈ xs, name y ≠ name x → f y = []) :
    xs.flatMap f = f x := by
  obtain ⟨before, after, rfl, hother⟩ := exists_split_of_nodup h hx
  have hempty (ys : List α) (hys : ys ⊆ before ++ after) : ys.flatMap f = [] := by
    rw [List.flatMap_eq_nil_iff]
    intro y hy
    refine hnil y (List.perm_middle.symm.subset ?_) (hother y (hys hy))
    exact List.mem_cons_of_mem x (hys hy)
  rw [List.flatMap_append, List.flatMap_cons, hempty before (List.subset_append_left _ _),
    hempty after (List.subset_append_right _ _), List.nil_append, List.append_nil]

/-- A name stands for one entry. -/
theorem Dict.eq_of_name_eq {d : Dict α} {e f : String × α} (he : e ∈ d.entries)
    (hf : f ∈ d.entries) (h : e.1 = f.1) : e = f :=
  List.inj_on_of_nodup_map d.nodup_keys he hf h

end

/-! ### Parts of an interleaving -/

namespace Interleaving

variable {α β : Type} {parts : List (List α)} {part whole : List α}

/-- What is picked out of the whole is an interleaving of what is picked out of the parts. -/
theorem filterMap (f : α → Option β) (h : Interleaving parts whole) :
    Interleaving (parts.map (·.filterMap f)) (whole.filterMap f) := by
  induction h with
  | done h =>
    refine .done fun part hpart => ?_
    obtain ⟨empty, hempty, rfl⟩ := List.mem_map.mp hpart
    rw [h empty hempty, List.filterMap_nil]
  | @next left right a part whole h ih =>
    rw [List.map_append, List.map_cons] at ih ⊢
    cases hf : f a with
    | none =>
      rw [List.filterMap_cons_none hf, List.filterMap_cons_none hf]
      exact ih
    | some b =>
      rw [List.filterMap_cons_some hf, List.filterMap_cons_some hf]
      exact .next ih

/-- The whole has the elements of the parts. -/
theorem perm (h : Interleaving parts whole) : whole.Perm parts.flatten := by
  induction h with
  | done h => rw [List.flatten_eq_nil_iff.mpr h]
  | @next left right a part whole h ih =>
    rw [List.flatten_append, List.flatten_cons] at ih ⊢
    exact (ih.cons a).trans List.perm_middle.symm

/-- If of any two parts one is empty, the parts have but one order. -/
theorem eq_flatten (h : Interleaving parts whole)
    (hone : parts.Pairwise fun xs ys => xs = [] ∨ ys = []) : whole = parts.flatten := by
  induction h with
  | done h => exact (List.flatten_eq_nil_iff.mpr h).symm
  | @next left right a part whole h ih =>
    obtain ⟨hleft, hpart, hcross⟩ := List.pairwise_append.mp hone
    obtain ⟨hhead, hright⟩ := List.pairwise_cons.mp hpart
    -- The part that gives the next element is not empty, so all others are.
    have hbefore : ∀ xs ∈ left, xs = [] := fun xs hxs =>
      (hcross xs hxs _ List.mem_cons_self).resolve_right (List.cons_ne_nil a part)
    have hbehind : ∀ ys ∈ right, ys = [] := fun ys hys =>
      (hhead ys hys).resolve_left (List.cons_ne_nil a part)
    have hwhole : whole = (left ++ part :: right).flatten := by
      refine ih (List.pairwise_append.mpr ⟨hleft, ?_, ?_⟩)
      · exact List.pairwise_cons.mpr ⟨fun ys hys => .inr (hbehind ys hys), hright⟩
      · exact fun xs hxs _ _ => .inl (hbefore xs hxs)
    rw [hwhole]
    simp [List.flatten_eq_nil_iff.mpr hbefore, List.flatten_eq_nil_iff.mpr hbehind]

/-- If only one part has what is picked out, it is found in the order of that part. -/
theorem filterMap_eq (h : Interleaving parts whole) (f : α → Option β)
    (hone : parts.Pairwise fun xs ys => xs.filterMap f = [] ∨ ys.filterMap f = []) :
    whole.filterMap f = parts.flatten.filterMap f := by
  have hpairs : (parts.map (·.filterMap f)).Pairwise fun xs ys => xs = [] ∨ ys = [] :=
    List.pairwise_map.mpr hone
  rw [(h.filterMap f).eq_flatten hpairs, ((flatten parts).filterMap f).eq_flatten hpairs]

end Interleaving

/-! ### Which host a run is about -/

namespace Runner

variable {r : Runner} {c : RunContext} {p : Progress} {slice : Slice} {planId : String}

/-- An event is about a host or is a log line. -/
def OnlyOn (host : Host) (trace : Trace) : Prop := ∀ e ∈ trace, ∀ h, e.host? = some h → h = host

theorem onlyOn_runFrom (steps : List HostStep) : OnlyOn c.host (r.runFrom c p steps).2 := by
  induction steps generalizing p with
  | nil => exact fun e he => absurd he List.not_mem_nil
  | cons step rest ih =>
    intro e he h hh
    rw [runFrom_cons] at he
    rcases List.mem_append.mp he with hstep | hrest
    · rcases r.runStep_cases c p step with ⟨_, told, -, htold, hrun⟩ | ⟨_, _, l, -, hrun⟩
      · rw [hrun] at hstep
        rcases List.mem_cons.mp hstep with rfl | hmem
        · exact (Option.some.inj hh).symm
        · obtain ⟨l, rfl⟩ := htold e hmem
          exact absurd hh (by simp [RunEvent.host?])
      · rw [hrun] at hstep
        obtain rfl := List.mem_singleton.mp hstep
        exact absurd hh (by simp [RunEvent.host?])
    · rcases List.mem_cons.mp hrest with rfl | hrest
      · rw [← Option.some.inj hh, runStep_host]
      · exact ih e hrest h hh

/-- A list of steps that is run leaves events about its host only. -/
theorem onlyOn_runSteps (host : Host) (steps : List HostStep) :
    OnlyOn host (r.runSteps planId host steps).2 := by
  intro e he h hh
  rcases List.mem_cons.mp he with rfl | he
  · exact (Option.some.inj hh).symm
  · rcases List.mem_append.mp he with hrun | hfinished
    · exact onlyOn_runFrom (c := ⟨planId, host, r.options.dryRun⟩) steps e hrun h hh
    · obtain rfl := List.mem_singleton.mp hfinished
      exact (Option.some.inj hh).symm

theorem onlyOn_runGlobals : OnlyOn .fleet (r.runGlobals slice planId).2 := by
  unfold runGlobals
  split
  · exact fun e he => absurd he List.not_mem_nil
  · exact onlyOn_runSteps _ _

theorem onlyOn_holdBack (part : HostPlan) (planId key : String) (unmet : List String) :
    OnlyOn part.host (part.holdBack planId key unmet).2 := by
  intro e he h hh
  simp only [HostPlan.holdBack, HostPlan.heldBack, Report.ofSteps, List.mem_append, List.mem_cons,
    List.mem_map, List.not_mem_nil, or_false] at he
  rcases he with ((rfl | rfl) | ⟨record, ⟨step, -, rfl⟩, rfl⟩) | rfl
  · exact absurd hh (by simp [RunEvent.host?])
  · exact (Option.some.inj hh).symm
  · exact (Option.some.inj hh).symm
  · exact (Option.some.inj hh).symm

theorem OnlyOn.on_eq_nil {host : Host} {trace : Trace} (h : OnlyOn host trace) {key : String}
    (hne : host.id ≠ key) : trace.on key = [] :=
  Trace.on_eq_nil_iff.mpr fun e he _ hh => (h e he _ hh) ▸ hne

theorem on_announce (key : String) (n : Nat) : (r.announce n).on key = [] := by
  unfold announce
  split <;> simp [Trace.on, RunEvent.host?]

theorem calls_announce (n : Nat) : (r.announce n).calls = [] := by
  unfold announce
  split <;> rfl

theorem calls_heldTrace : (r.heldTrace slice planId).calls = [] := by
  rw [List.eq_nil_iff_forall_not_mem]
  exact fun call hcall => not_called_heldTrace (Trace.mem_calls.mp hcall)

/-! ### What all schedules share -/

/-- What is left of a schedule when only events of a certain kind are looked at. -/
theorem Schedule.filterMap_eq {β : Type} {trace : Trace} (h : r.Schedule slice planId trace)
    (f : RunEvent → Option β)
    (hone : (r.hostTraces slice planId).Pairwise fun xs ys =>
      xs.filterMap f = [] ∨ ys.filterMap f = []) :
    trace.filterMap f = (r.runParts slice planId).2.filterMap f := by
  obtain ⟨hosts, hmerge, rfl⟩ := h
  rw [runParts_eq]
  simp only [List.filterMap_append, hmerge.filterMap_eq f hone]

/-- Of two host plans that run, one at least is not for the host of this id. -/
theorem hostTraces_on (hkeyed : slice.Keyed) (key : String) :
    (r.hostTraces slice planId).Pairwise fun xs ys => xs.on key = [] ∨ ys.on key = [] := by
  rw [hostTraces, List.pairwise_map]
  refine (slice.hostPlans.sorted.filter _).imp_of_mem fun {a b} ha hb hlt => ?_
  have hnil (e : String × HostPlan) (he : e ∈ slice.runnable (r.globals slice planId))
      (hne : e.1 ≠ key) : (r.runSteps planId e.2.host e.2.steps).2.on key = [] := by
    refine (onlyOn_runSteps _ _).on_eq_nil ?_
    rw [hkeyed e (List.mem_filter.mp he).1]
    exact hne
  by_cases hkey : a.1 = key
  · exact .inr (hnil b hb fun heq => String.lt_irrefl key (by rwa [hkey, heq] at hlt))
  · exact .inl (hnil a ha hkey)

/-- **All schedules show the same of a host.** -/
theorem Schedule.on_eq {trace : Trace} (h : r.Schedule slice planId trace) (hkeyed : slice.Keyed)
    (key : String) : trace.on key = (r.runParts slice planId).2.on key := by
  rw [Trace.on_eq_filterMap, Trace.on_eq_filterMap]
  refine h.filterMap_eq _ ?_
  simp only [← Trace.on_eq_filterMap]
  exact hostTraces_on hkeyed key

end Runner

end FleetPlan
