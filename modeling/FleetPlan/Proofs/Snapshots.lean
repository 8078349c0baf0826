/-
Snapshots say the same in whatever order they list their resources.

References are compared part by part, the kind first, and a reference is nothing but its
parts (`ResourceRef.rank`).  So of two references each of which may stand before the other
there is only one, and resources with references of their own have but one order.  That is
the order a snapshot is brought into before a planner sees it and before an inspector's
answer is handed on, and nothing is left then of the order it had.  Resources that share a
reference keep the order among themselves.
-/
import FleetPlan.Engine
import Mathlib

namespace FleetPlan

/-! ### The order of references -/

namespace ResourceRef

/-- The parts of a reference, compared one after another. -/
def rank (r : ResourceRef) : String ×ₗ String ×ₗ String ×ₗ String :=
  toLex (r.kind, toLex (r.name, toLex (r.provider, r.namespaceName)))

theorem rank_injective : Function.Injective rank := by
  intro a b h
  cases a
  cases b
  simpa [rank] using h

/-- The texts of two references are compared as their ranks are. -/
theorem le_iff_rank_le {a b : ResourceRef} : a.le b = true ↔ a.rank ≤ b.rank := by
  have hlast : a.namespaceName ≤ b.namespaceName ↔
      a.namespaceName < b.namespaceName ∨ a.namespaceName = b.namespaceName := le_iff_lt_or_eq
  simp only [rank, Prod.Lex.toLex_le_toLex, hlast]
  simp [le, key, textsLe]

theorem le_refl (r : ResourceRef) : r.le r = true := le_iff_rank_le.mpr (Preorder.le_refl _)

theorem le_trans (a b c : ResourceRef) (hab : a.le b = true) (hbc : b.le c = true) :
    a.le c = true :=
  le_iff_rank_le.mpr ((le_iff_rank_le.mp hab).trans (le_iff_rank_le.mp hbc))

theorem le_total (a b : ResourceRef) : (a.le b || b.le a) = true := by
  rw [Bool.or_eq_true, le_iff_rank_le, le_iff_rank_le]
  exact LinearOrder.le_total _ _

end ResourceRef

/-- What a sort may leave as it is, it leaves in the order it had. -/
theorem filter_mergeSort {α : Type} {le : α → α → Bool}
    (htrans : ∀ a b c, le a b = true → le b c = true → le a c = true)
    (htotal : ∀ a b, (le a b || le b a) = true) {p : α → Bool}
    (hp : ∀ a b, p a = true → p b = true → le a b = true) (xs : List α) :
    (xs.mergeSort le).filter p = xs.filter p := by
  have hsorted : (xs.filter p).Pairwise fun a b => le a b = true := by
    apply List.pairwise_of_forall_mem_list
    intro a ha b hb
    exact hp a b (List.mem_filter.mp ha).2 (List.mem_filter.mp hb).2
  have hsub : (xs.filter p).Sublist (xs.mergeSort le) :=
    List.sublist_mergeSort htrans htotal hsorted List.filter_sublist
  have hfilter := hsub.filter p
  rw [List.filter_filter] at hfilter
  simp only [Bool.and_self] at hfilter
  exact (hfilter.eq_of_length ((List.mergeSort_perm xs le).filter p).length_eq.symm).symm

namespace Snapshot

variable {kind : SnapshotKind} {s t : Snapshot kind}

/-- The second snapshot lists the resources of the first by their references. -/
structure InOrder (s t : Snapshot kind) : Prop where
  version : t.version = s.version
  annotations : t.annotations = s.annotations
  perm : t.resources.Perm s.resources
  sorted : t.resources.Pairwise fun a b => a.ref.rank ≤ b.ref.rank
  /-- Resources that share a reference stand in the order they had. -/
  stable : ∀ ref, t.resources.filter (·.ref == ref) = s.resources.filter (·.ref == ref)

/-- The second snapshot is the first in another order, and each resource has a reference of
its own. -/
structure Rearranged (s t : Snapshot kind) : Prop where
  version : t.version = s.version
  annotations : t.annotations = s.annotations
  perm : t.resources.Perm s.resources
  distinct : (s.resources.map (·.ref)).Nodup

theorem inOrder_canonical (s : Snapshot kind) : s.InOrder s.canonical := by
  have htrans : ∀ a b c : Resource, a.ref.le b.ref = true → b.ref.le c.ref = true →
      a.ref.le c.ref = true := fun a b c => ResourceRef.le_trans a.ref b.ref c.ref
  have htotal : ∀ a b : Resource, (a.ref.le b.ref || b.ref.le a.ref) = true :=
    fun a b => ResourceRef.le_total a.ref b.ref
  refine ⟨rfl, rfl, List.mergeSort_perm _ _, ?_, ?_⟩
  · have hsorted := List.pairwise_mergeSort htrans htotal s.resources
    exact hsorted.imp fun hle => ResourceRef.le_iff_rank_le.mp hle
  · intro ref
    have hp : ∀ a b : Resource, (a.ref == ref) = true → (b.ref == ref) = true →
        a.ref.le b.ref = true := by
      intro a b ha hb
      rw [eq_of_beq ha, eq_of_beq hb]
      exact ref.le_refl
    exact filter_mergeSort htrans htotal hp s.resources

/-- What is in order is left as it is. -/
theorem canonical_eq_self (h : s.resources.Pairwise fun a b => a.ref.rank ≤ b.ref.rank) :
    s.canonical = s := by
  unfold canonical
  rw [List.mergeSort_of_pairwise (h.imp fun hle => ResourceRef.le_iff_rank_le.mpr hle)]

theorem canonical_canonical (s : Snapshot kind) : s.canonical.canonical = s.canonical :=
  canonical_eq_self s.inOrder_canonical.sorted

/-- **Nothing is left of the order that resources with references of their own had.** -/
theorem Rearranged.canonical_eq (h : s.Rearranged t) : t.canonical = s.canonical := by
  have hs := s.inOrder_canonical
  have ht := t.inOrder_canonical
  have hresources : t.canonical.resources = s.canonical.resources := by
    have hperm := ht.perm.trans (h.perm.trans hs.perm.symm)
    refine List.Perm.eq_of_pairwise ?_ ht.sorted hs.sorted hperm
    intro a b ha hb hab hba
    have ha : a ∈ s.resources := h.perm.mem_iff.mp (ht.perm.mem_iff.mp ha)
    have hb : b ∈ s.resources := hs.perm.mem_iff.mp hb
    exact List.inj_on_of_nodup_map h.distinct ha hb (ResourceRef.rank_injective (hab.antisymm hba))
  have hmembers : t.canonical.version = s.canonical.version ∧
      t.canonical.annotations = s.canonical.annotations := ⟨h.version, h.annotations⟩
  generalize t.canonical = t' at hresources hmembers ⊢
  generalize s.canonical = s' at hresources hmembers ⊢
  cases t'
  cases s'
  obtain ⟨rfl, rfl⟩ := hmembers
  cases hresources
  rfl

end Snapshot

namespace Engine

variable {engine engine' : Engine}

/-- A planner is shown the snapshots in order, and nothing else is seen of them. -/
theorem compute_of_rearranged {request request' : ComputeRequest}
    (htopology : request.topology.Rearranged request'.topology)
    (hstate : request.state.Rearranged request'.state)
    (hoptions : request'.options = request.options) :
    engine.compute request' = engine.compute request := by
  unfold compute
  rw [htopology.canonical_eq, hstate.canonical_eq, hoptions]

/-- What an inspector found is handed on in order. -/
theorem inspect_of_rearranged {request : InspectRequest} {inspector inspector' : Inspector}
    {s t : Snapshot .state} (hinspector : engine.inspectors.get? request.runtime = some inspector)
    (hinspector' : engine'.inspectors.get? request.runtime = some inspector')
    (hs : inspector request.host = .ok s) (ht : inspector' request.host = .ok t)
    (h : s.Rearranged t) :
    engine.inspect request = .ok ⟨s.canonical⟩ ∧ engine'.inspect request = .ok ⟨s.canonical⟩ := by
  unfold inspect
  simp only [hinspector, hinspector', hs, ht, h.canonical_eq, and_self]

/--
**In whatever order resources are listed, the answers are the same.**  In canonical form a
snapshot lists its resources by kind, name, provider and namespace, those that share a
reference as they stood, and bringing it into this form again changes nothing.  So requests
whose snapshots list resources with references of their own in different orders are answered
alike by any planner, with the same plan or the same refusal; and two inspectors that find
the same resources in different orders are reported alike, with the resources in order.
-/
theorem same_answer_of_rearranged :
    (∀ (kind : SnapshotKind) (s : Snapshot kind),
      s.InOrder s.canonical ∧ s.canonical.canonical = s.canonical) ∧
    (∀ (engine : Engine) (request request' : ComputeRequest),
      request.topology.Rearranged request'.topology → request.state.Rearranged request'.state →
      request'.options = request.options → engine.compute request' = engine.compute request) ∧
    ∀ (engine engine' : Engine) (request : InspectRequest) (inspector inspector' : Inspector)
      (s t : Snapshot .state), engine.inspectors.get? request.runtime = some inspector →
      engine'.inspectors.get? request.runtime = some inspector' →
      inspector request.host = .ok s → inspector' request.host = .ok t → s.Rearranged t →
      engine.inspect request = .ok ⟨s.canonical⟩ ∧
        engine'.inspect request = engine.inspect request := by
  refine ⟨?_, ?_, ?_⟩
  · intro kind s
    exact ⟨s.inOrder_canonical, s.canonical_canonical⟩
  · intro engine request request' htopology hstate hoptions
    exact compute_of_rearranged htopology hstate hoptions
  · intro engine engine' request inspector inspector' s t hinspector hinspector' hs ht h
    obtain ⟨hanswer, hanswer'⟩ := inspect_of_rearranged hinspector hinspector' hs ht h
    exact ⟨hanswer, hanswer'.trans hanswer.symm⟩

/-- Two resources, the second of which comes first by its name. -/
def twoServices (kind : SnapshotKind) : Snapshot kind :=
  ⟨"1", .empty, [service "b", service "a"]⟩
where
  service (name : String) : Resource := ⟨⟨"service", name, "compose", ""⟩, none, .empty⟩

/-- The same resources, as they stand in order. -/
def twoServicesInOrder (kind : SnapshotKind) : Snapshot kind :=
  ⟨"1", .empty, [twoServices.service "a", twoServices.service "b"]⟩

/-- An engine whose plans are named for the first resource, and that finds this on a host. -/
def namesFirst (found : Snapshot .state) : Engine where
  planner := some fun topology _ _ =>
    .ok (.bare ((topology.resources.head?.map (·.ref.name)).getD ""))
  registry := .empty
  inspectors := .ofList [("compose", fun _ => .ok found)]

/-- A planner that looks at the order is shown the same one, whatever it was. -/
theorem same_answer_of_rearranged_of_twoServices : ∃ plan,
    (namesFirst (twoServices .state)).compute
        ⟨twoServices .topology, twoServices .state, .default⟩ = .ok ⟨plan⟩ ∧
      (namesFirst (twoServices .state)).compute
        ⟨twoServicesInOrder .topology, twoServicesInOrder .state, .default⟩ = .ok ⟨plan⟩ ∧
      plan.id = "a" ∧
      (namesFirst (twoServices .state)).inspect ⟨.named "h", "compose"⟩ =
        .ok ⟨twoServicesInOrder .state⟩ ∧
      (namesFirst (twoServicesInOrder .state)).inspect ⟨.named "h", "compose"⟩ =
        (namesFirst (twoServices .state)).inspect ⟨.named "h", "compose"⟩ := by
  have hrearranged (kind : SnapshotKind) :
      (twoServices kind).Rearranged (twoServicesInOrder kind) := by
    refine ⟨rfl, rfl, ?_, ?_⟩
    · exact .swap _ _ _
    · show [ResourceRef.mk "service" "b" "compose" "", ⟨"service", "a", "compose", ""⟩].Nodup
      decide
  obtain ⟨-, hcompute, hinspect⟩ := same_answer_of_rearranged
  have hsame := hcompute (namesFirst (twoServices .state))
    ⟨twoServices .topology, twoServices .state, .default⟩
    ⟨twoServicesInOrder .topology, twoServicesInOrder .state, .default⟩
    (hrearranged .topology) (hrearranged .state) rfl
  have hplan : (namesFirst (twoServices .state)).compute
      ⟨twoServicesInOrder .topology, twoServicesInOrder .state, .default⟩ =
        .ok ⟨.bare "a"⟩ := by cbv
  have hanswers := hinspect (namesFirst (twoServices .state))
    (namesFirst (twoServicesInOrder .state)) ⟨.named "h", "compose"⟩
    (fun _ => .ok (twoServices .state)) (fun _ => .ok (twoServicesInOrder .state)) _ _ rfl rfl rfl
    rfl (hrearranged .state)
  have hcanonical : (twoServices .state).canonical = twoServicesInOrder .state := by
    rw [← (hrearranged .state).canonical_eq]
    exact Snapshot.canonical_eq_self
      (List.pairwise_pair.mpr (ResourceRef.le_iff_rank_le.mp (by decide +kernel)))
  rw [hcanonical] at hanswers
  exact ⟨.bare "a", hsame.symm.trans hplan, hplan, rfl, hanswers⟩

end Engine

end FleetPlan
