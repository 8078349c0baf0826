/-
Which records a run keeps.

Nothing is reported twice, but a report that is filed under the name of another one
takes its place, and the records of the earlier one are gone.  This happens between
host plans for one host, and between a host plan that was held back under some name
and one that runs on the host of that name.  `Displaces` says when, in terms of the
slice and of what the global steps came to; `dispatch_keeps_records_iff` says that
these are the only losses.  A plan kept under its own host's id displaces nothing.
-/
import FleetPlan.Proofs.Dispatch
import Mathlib.Data.List.Flatten

namespace FleetPlan

/-! ### What lasts of a list -/

namespace Dict

variable {α β : Type} {es : List (String × α)}

theorem lasting_flatMap_sublist (es : List (String × α)) (f : α → List β) :
    ((lasting es).flatMap fun e => f e.2).Sublist (es.flatMap fun e => f e.2) :=
  (lasting_sublist es).flatMap _

/-- Nothing is lost just when every entry that is replaced had nothing to lose. -/
theorem lasting_flatMap_perm_iff {f : α → List β} :
    ((lasting es).flatMap fun e => f e.2).Perm (es.flatMap fun e => f e.2) ↔
      es.Pairwise fun a b => a.1 = b.1 → f a.2 = [] := by
  induction es with
  | nil => simp [lasting]
  | cons e rest ih =>
    rw [List.pairwise_cons, ← ih, lasting_cons, List.flatMap_cons]
    by_cases hname : e.1 ∈ rest.map (·.1)
    · rw [if_pos hname]
      obtain ⟨b, hb, hname⟩ := List.mem_map.mp hname
      constructor
      · intro hperm
        -- What lasts of the rest is no longer than the rest, so the entry adds nothing.
        have hle := (lasting_flatMap_sublist rest f).length_le
        have hlen := hperm.length_eq
        rw [List.length_append] at hlen
        have hnil : f e.2 = [] := List.eq_nil_of_length_eq_zero (by omega)
        rw [hnil, List.nil_append] at hperm
        exact ⟨fun _ _ _ => hnil, hperm⟩
      · rintro ⟨hnil, hperm⟩
        rw [hnil b hb hname.symm, List.nil_append]
        exact hperm
    · have hnone : ∀ b ∈ rest, e.1 ≠ b.1 := fun b hb heq => hname (heq ▸ List.mem_map_of_mem hb)
      rw [if_neg hname, List.flatMap_cons, List.perm_append_left_iff]
      constructor
      · exact fun hperm => ⟨fun b hb heq => absurd heq (hnone b hb), hperm⟩
      · exact fun h => h.2

/-- In a list in strict order, what stands before what is told by the names. -/
theorem pairwise_iff_of_sorted {R : String × α → String × α → Prop}
    (h : es.Pairwise (fun a b => a.1 < b.1)) :
    es.Pairwise R ↔ ∀ a ∈ es, ∀ b ∈ es, a.1 < b.1 → R a b := by
  induction es with
  | nil => simp
  | cons e rest ih =>
    obtain ⟨he, hrest⟩ := List.pairwise_cons.mp h
    rw [List.pairwise_cons, ih hrest]
    constructor
    · rintro ⟨hhead, htail⟩ a ha b hb hlt
      rcases List.mem_cons.mp ha with rfl | ha' <;> rcases List.mem_cons.mp hb with rfl | hb'
      · exact absurd hlt (String.lt_irrefl _)
      · exact hhead b hb'
      · exact absurd hlt (String.lt_asymm (he a ha'))
      · exact htail a ha' b hb' hlt
    · intro hall
      refine ⟨fun b hb => hall e List.mem_cons_self b (List.mem_cons_of_mem _ hb) (he b hb), ?_⟩
      exact fun a ha b hb => hall a (List.mem_cons_of_mem _ ha) b (List.mem_cons_of_mem _ hb)

end Dict

namespace Slice

variable {slice : Slice} {globals : Report}

/-- All steps of a slice, each with the place where it runs. -/
def subjects (slice : Slice) : List (String × Host) :=
  slice.globalSteps.map (fun s => (s.id, Host.fleet)) ++ slice.hostPlans.values.flatMap (·.subjects)

/--
The report of the second host plan takes the place of the first one's.  A plan that
runs is filed under its host's id, after all that are held back and after the plans
before it that run.
-/
def Displaces (slice : Slice) (globals : Report) (e f : String × HostPlan) : Prop :=
  slice.isHeld globals f.2 = false ∧
    (slice.isHeld globals e.2 = true ∧ e.1 = f.2.host.id ∨
      slice.isHeld globals e.2 = false ∧ e.1 < f.1 ∧ e.2.host.id = f.2.host.id)

theorem mem_held {e : String × HostPlan} :
    e ∈ slice.held globals ↔ e ∈ slice.hostPlans.entries ∧ slice.isHeld globals e.2 = true :=
  List.mem_filter

theorem mem_runnable {e : String × HostPlan} :
    e ∈ slice.runnable globals ↔
      e ∈ slice.hostPlans.entries ∧ slice.isHeld globals e.2 = false := by
  simp [runnable]

theorem filings_pairwise_iff :
    ((slice.filings globals).Pairwise fun a b => a.1 = b.1 → a.2.subjects = []) ↔
      ∀ e ∈ slice.hostPlans.entries, ∀ f ∈ slice.hostPlans.entries,
        slice.Displaces globals e f → e.2.steps = [] := by
  have hnil {part : HostPlan} : part.subjects = [] ↔ part.steps = [] := List.map_eq_nil_iff
  have hsorted := slice.hostPlans.sorted
  -- Plans that are held back are filed under different names.
  have hheld : (slice.held globals).Pairwise fun a b => a.1 = b.1 → a.2.steps = [] :=
    (hsorted.filter _).imp fun {a b} hlt heq => absurd (heq ▸ hlt) (String.lt_irrefl _)
  simp only [filings, List.pairwise_append, List.pairwise_map, hheld, true_and, hnil,
    Dict.pairwise_iff_of_sorted (hsorted.filter fun e => !slice.isHeld globals e.2), runnable]
  constructor
  · rintro ⟨hrun, hcross⟩ e he f hf ⟨hfrun, ⟨heheld, hname⟩ | ⟨herun, hlt, hname⟩⟩
    · exact hcross e (mem_held.mpr ⟨he, heheld⟩) _
        (List.mem_map.mpr ⟨f, mem_runnable.mpr ⟨hf, hfrun⟩, rfl⟩) hname
    · exact hrun e (mem_runnable.mpr ⟨he, herun⟩) f (mem_runnable.mpr ⟨hf, hfrun⟩) hlt hname
  · intro hall
    constructor
    · intro e he f hf hlt hname
      obtain ⟨he, herun⟩ := mem_runnable.mp he
      obtain ⟨hf, hfrun⟩ := mem_runnable.mp hf
      exact hall e he f hf ⟨hfrun, .inr ⟨herun, hlt, hname⟩⟩
    · intro e he b hb hname
      obtain ⟨he, heheld⟩ := mem_held.mp he
      obtain ⟨f, hf, rfl⟩ := List.mem_map.mp hb
      obtain ⟨hf, hfrun⟩ := mem_runnable.mp hf
      exact hall e he f hf ⟨hfrun, .inl ⟨heheld, hname⟩⟩

/-- A plan kept under its host's id displaces no other. -/
theorem Keyed.not_displaces (h : slice.Keyed) {e f : String × HostPlan}
    (he : e ∈ slice.hostPlans.entries) (hf : f ∈ slice.hostPlans.entries) :
    ¬slice.Displaces globals e f := by
  rintro ⟨hfrun, ⟨heheld, hname⟩ | ⟨-, hlt, hname⟩⟩
  · have hkey : e.1 = f.1 := hname.trans (h f hf)
    have hget := Dict.get?_eq_some_iff.mpr he
    rw [hkey, Dict.get?_eq_some_iff.mpr hf] at hget
    rw [← Option.some.inj hget, hfrun] at heheld
    exact Bool.noConfusion heheld
  · rw [h e he, h f hf] at hname
    exact String.lt_irrefl _ (hname ▸ hlt)

end Slice

namespace Runner

variable {r : Runner} {slice : Slice} {planId : String}

/-- The steps that are reported are the global ones and those of the plans whose reports last. -/
theorem runParts_subjects_perm (r : Runner) (slice : Slice) (planId : String) :
    ((r.runParts slice planId).1.steps.map (·.subject)).Perm
      (slice.globalSteps.map (fun s => (s.id, Host.fleet)) ++
        (Dict.lasting (slice.filings (r.globals slice planId))).flatMap fun e => e.2.subjects) := by
  rw [runParts_steps, List.map_append, globals_subjects]
  refine List.Perm.append_left _ ?_
  have hperm : (r.partReports slice planId).entries.Perm
      ((Dict.lasting (slice.filings (r.globals slice planId))).map fun e =>
        (e.1, r.partReport slice planId (r.globals slice planId) e.2)) := by
    rw [← Dict.lasting_map]
    exact Dict.ofList_perm _
  rw [Dict.values, List.flatMap_map, List.map_flatMap]
  refine (hperm.flatMap_right _).trans (List.Perm.of_eq ?_)
  rw [List.flatMap_map]
  exact List.flatMap_congr fun e _ => partReport_subjects

theorem subjects_perm (slice : Slice) (globals : Report) :
    slice.subjects.Perm (slice.globalSteps.map (fun s => (s.id, Host.fleet)) ++
      (slice.filings globals).flatMap fun e => e.2.subjects) := by
  refine List.Perm.append_left _ ?_
  rw [← List.flatMap_map (f := Prod.snd)]
  have hvalues : ((slice.filings globals).map (·.2)).Perm slice.hostPlans.values :=
    Slice.filings_values_perm
  exact hvalues.symm.flatMap_right _

/--
**What a run keeps of the records.**  No step is reported more often than it stands
in the slice.  All of them are reported just when every host plan whose report is
displaced by another one has no steps.
-/
theorem dispatch_keeps_records_iff {report : Report} {trace : Trace}
    (h : r.dispatch slice planId = .ok (report, trace)) :
    (report.steps.map (·.subject)).Subperm slice.subjects ∧
      ((report.steps.map (·.subject)).Perm slice.subjects ↔
        ∀ e ∈ slice.hostPlans.entries, ∀ f ∈ slice.hostPlans.entries,
          slice.Displaces (r.globals slice planId) e f → e.2.steps = []) := by
  obtain ⟨-, hresult⟩ := dispatch_eq_ok_iff.mp h
  obtain rfl : report = (r.runParts slice planId).1 := congrArg Prod.fst hresult
  have hreport := runParts_subjects_perm r slice planId
  have hslice := subjects_perm slice (r.globals slice planId)
  constructor
  · have hsub := Dict.lasting_flatMap_sublist (slice.filings (r.globals slice planId))
      HostPlan.subjects
    exact (hreport.subperm.trans (hsub.append_left _).subperm).trans hslice.symm.subperm
  · rw [hreport.congr_left, hslice.congr_right, List.perm_append_left_iff,
      Dict.lasting_flatMap_perm_iff, Slice.filings_pairwise_iff]

/-- Two host plans that are kept under names of their own but are both for one host. -/
def twoPlansForOneHost : Slice :=
  ⟨.ofList [("a", plan "s"), ("b", plan "t")], [], [], .empty⟩
where
  plan (step : String) : HostPlan :=
    ⟨schemaVersion, "p", .named "x", [.ofStep (.bare step .zero .noop .fleet)], .empty⟩

/-- A runner that carries out no action. -/
def idle : Runner := ⟨.empty, .default, ""⟩

/-- The second of two plans for one host displaces the first, whose step is not reported. -/
theorem dispatch_keeps_records_of_twoPlansForOneHost : ∃ report trace,
    idle.dispatch twoPlansForOneHost "p" = .ok (report, trace) ∧
      (report.steps.map (·.subject)).Subperm twoPlansForOneHost.subjects ∧
      ¬(report.steps.map (·.subject)).Perm twoPlansForOneHost.subjects := by
  refine ⟨_, _, rfl, (dispatch_keeps_records_iff rfl).1, ?_⟩
  intro hperm
  have hentries : twoPlansForOneHost.hostPlans.entries =
      [("a", twoPlansForOneHost.plan "s"), ("b", twoPlansForOneHost.plan "t")] :=
    Dict.entries_ofList (List.pairwise_pair.mpr (by decide +kernel))
  have hall := (dispatch_keeps_records_iff (r := idle) rfl).2.mp hperm
  rw [hentries] at hall
  have hempty := hall _ List.mem_cons_self _ (List.mem_cons_of_mem _ List.mem_cons_self)
    ⟨by decide +kernel, .inr ⟨by decide +kernel, by decide +kernel, rfl⟩⟩
  exact List.cons_ne_nil _ _ hempty

/-- A run may report fewer records than there are steps. -/
theorem dispatch_loses_a_record : ∃ report trace,
    idle.dispatch twoPlansForOneHost "p" = .ok (report, trace) ∧
      ¬(report.steps.map (·.subject)).Perm twoPlansForOneHost.subjects :=
  ⟨_, _, rfl, fun hperm => absurd hperm.length_eq (by decide +kernel)⟩

/-- Where plans are kept under their hosts' ids, every step has its record. -/
theorem runParts_keeps_records_of_keyed (h : slice.Keyed) :
    ((r.runParts slice planId).1.steps.map (·.subject)).Perm slice.subjects := by
  rw [runParts_steps_of_keyed h, List.map_append, globals_subjects, Slice.subjects, Dict.values,
    List.map_flatMap, List.flatMap_map]
  exact List.Perm.of_eq (congrArg _ (List.flatMap_congr fun e _ => partReport_subjects))

end Runner

end FleetPlan
