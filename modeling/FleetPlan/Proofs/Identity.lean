/-
What the id of a plan depends on.

The octets whose digest makes an id are the compact form of a document, and that document is
definite, whatever the inputs of the steps are: inputs that cannot be read count as the text
they are.  So the octets determine the document, and the document determines all that it was
made of.  What `Step.Agree` lists is all that is covered of a step, and nothing that is
covered can be taken for something else, with whatever characters ids, names and inputs are
written.
-/
import FleetPlan.PlanId
import FleetPlan.Proofs.Json.Definite

namespace FleetPlan

open Json

/-! ### Documents -/

theorem definite_canonicalInputs (inputs : Option Payload) : (canonicalInputs inputs).Definite := by
  unfold canonicalInputs
  split
  · exact Value.definite_null
  · split
    · rename_i hread
      exact Value.definite_of_read hread
    · exact Value.definite_text _

theorem Json.Document.definite_texts (ss : List String) : (list (ss.map .text)).Definite :=
  .list (List.forall_mem_map.mpr fun s _ => .text s)

namespace Step

theorem definite_idDocument (s : Step) : s.idDocument.Definite := by
  refine .object ?_
  simp only [List.forall_mem_cons]
  refine ⟨.text _, .word (.integer _), .text _, .object ?_, .text _,
    definite_canonicalInputs _, Document.definite_texts _, List.forall_mem_nil _⟩
  simp only [List.forall_mem_cons]
  exact ⟨.text _, .text _, .text _, List.forall_mem_nil _⟩

end Step

theorem Plan.definite_idDocument (p : Plan) (environment : String) :
    (p.idDocument environment).Definite := by
  refine .object ?_
  simp only [List.forall_mem_cons]
  refine ⟨.text _, .list ?_, List.forall_mem_nil _⟩
  exact List.forall_mem_map.mpr fun s _ => s.definite_idDocument

/-! ### What is covered -/

theorem Json.IntIn.val_injective {range : IntRange} :
    Function.Injective (IntIn.val : IntIn range → Int) := by
  rintro ⟨i, hi⟩ ⟨j, hj⟩ rfl
  rfl

theorem Action.name_injective : Function.Injective Action.name := by
  intro a b h
  have hname := ofName?_name a
  rw [h, ofName?_name] at hname
  exact (Option.some.inj hname).symm

namespace Step

variable {s t : Step}

/-- The dependencies in the order in which an id covers them. -/
def sortedDependsOn (s : Step) : List String := s.dependsOn.mergeSort fun a b => decide (a ≤ b)

/-- Steps that are the same in everything that an id covers. -/
structure Agree (s t : Step) : Prop where
  id : s.id = t.id
  index : s.index = t.index
  action : s.action = t.action
  kind : s.target.kind = t.target.kind
  name : s.target.name = t.target.name
  provider : s.target.provider = t.target.provider
  host : s.host.id = t.host.id
  /-- What the inputs say is the same, whatever their layout. -/
  inputs : canonicalInputs s.inputs = canonicalInputs t.inputs
  /-- The dependencies are the same, each as often, in whatever order. -/
  dependsOn : s.sortedDependsOn = t.sortedDependsOn

/-- A step's document says what is covered of it, and no more. -/
theorem idDocument_eq_iff : s.idDocument = t.idDocument ↔ s.Agree t := by
  have htexts : Function.Injective (List.map Document.text) :=
    List.map_injective_iff.mpr fun _ _ => Document.text.inj
  constructor
  · intro h
    simp only [idDocument, Document.object.injEq, List.cons.injEq, Prod.mk.injEq,
      Document.text.injEq, Document.integer.injEq, Document.list.injEq, true_and, and_true] at h
    obtain ⟨hid, hindex, haction, ⟨hkind, hname, hprovider⟩, hhost, hinputs, hdependsOn⟩ := h
    exact ⟨hid, IntIn.val_injective hindex, Action.name_injective haction, hkind, hname, hprovider,
      hhost, Value.document_injective hinputs, htexts hdependsOn⟩
  · intro h
    have hdependsOn := h.dependsOn
    unfold sortedDependsOn at hdependsOn
    unfold idDocument
    rw [h.id, h.index, h.action, h.kind, h.name, h.provider, h.host, h.inputs, hdependsOn]

end Step

/--
**The octets behind an id determine all that it covers.**  Two plans, each in some
environment, lead to the same octets just when the environments are the same and the sorted
steps agree one by one, none being left over on either side.
-/
theorem Plan.idOctets_eq_iff (p q : Plan) (environment environment' : String) :
    p.idOctets environment = q.idOctets environment' ↔
      environment = environment' ∧
        List.Forall₂ Step.Agree (Step.sort p.steps) (Step.sort q.steps) := by
  have hoctets : p.idOctets environment = q.idOctets environment' ↔
      p.idDocument environment = q.idDocument environment' := by
    constructor
    · exact (p.definite_idDocument _).eq_of_compact_eq (q.definite_idDocument _)
    · intro h
      rw [idOctets, idOctets, h]
  have hsteps : (Step.sort p.steps).map Step.idDocument = (Step.sort q.steps).map Step.idDocument ↔
      List.Forall₂ Step.Agree (Step.sort p.steps) (Step.sort q.steps) := by
    rw [← List.forall₂_eq_eq_eq, List.forall₂_map_left_iff, List.forall₂_map_right_iff]
    simp only [Step.idDocument_eq_iff]
  rw [hoctets, ← hsteps]
  simp [Plan.idDocument]

end FleetPlan
