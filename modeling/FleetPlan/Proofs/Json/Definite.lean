/-
What is read for what it says has one compact form.

A value is known by its document, and the document of a value that was read is definite:
nothing of a value is copied, and a numeral that is no integer becomes a double in its one
form.  So a value that was read is known by the compact form of its document.
-/
import FleetPlan.Json.Value
import FleetPlan.Proofs.Dict
import FleetPlan.Proofs.Json.Compact
import FleetPlan.Proofs.Json.Source

namespace FleetPlan.Json.Value

/-! ### The document of a value -/

theorem documents_eq (vs : List Value) : documents vs = vs.map document := by
  induction vs with
  | nil => rw [documents, List.map_nil]
  | cons v vs ih => rw [documents, ih, List.map_cons]

theorem memberDocuments_eq (es : List (String × Value)) :
    memberDocuments es = es.map fun e => (e.1, e.2.document) := by
  induction es with
  | nil => rw [memberDocuments, List.map_nil]
  | cons e es ih => rw [memberDocuments, ih, List.map_cons]

mutual

/-- The value that a document was made of. -/
def ofDocument : Document → Value
  | .null => null
  | .boolean b => boolean b
  | .integer i => number (.integer i)
  | .double d => number (.double d)
  | .text s => text s
  -- No document of a value copies anything.
  | .verbatim t => text t
  | .list items => list (ofDocuments items)
  | .object members => object (ofMembers members)

def ofDocuments : List Document → List Value
  | [] => []
  | d :: rest => ofDocument d :: ofDocuments rest

def ofMembers : List (String × Document) → List (String × Value)
  | [] => []
  | (name, d) :: rest => (name, ofDocument d) :: ofMembers rest

end

mutual

theorem ofDocument_document : (v : Value) → ofDocument v.document = v
  | null => by rw [document, ofDocument]
  | boolean b => by rw [document, ofDocument]
  | number (.integer i) => by rw [document, ofDocument]
  | number (.double d) => by rw [document, ofDocument]
  | text s => by rw [document, ofDocument]
  | list vs => by rw [document, ofDocument, ofDocuments_documents vs]
  | object es => by rw [document, ofDocument, ofMembers_memberDocuments es]

theorem ofDocuments_documents : (vs : List Value) → ofDocuments (documents vs) = vs
  | [] => by rw [documents, ofDocuments]
  | v :: vs => by
    rw [documents, ofDocuments, ofDocument_document v, ofDocuments_documents vs]

theorem ofMembers_memberDocuments : (es : List (String × Value)) →
    ofMembers (memberDocuments es) = es
  | [] => by rw [memberDocuments, ofMembers]
  | (name, v) :: es => by
    rw [memberDocuments, ofMembers, ofDocument_document v, ofMembers_memberDocuments es]

end

/-- A value is known by its document. -/
theorem document_injective : Function.Injective document :=
  Function.LeftInverse.injective ofDocument_document

/-! ### What is read -/

/-- The document of the value is definite. -/
def Definite (v : Value) : Prop := v.document.Definite

theorem definite_null : null.Definite := .word .null

theorem definite_boolean (b : Bool) : (boolean b).Definite := .word (.boolean b)

theorem definite_text (s : String) : (text s).Definite := .text s

theorem definite_list {vs : List Value} (h : ∀ v ∈ vs, v.Definite) : (list vs).Definite := by
  unfold Definite
  rw [document, documents_eq]
  exact .list (List.forall_mem_map.mpr h)

theorem definite_object {es : List (String × Value)} (h : ∀ e ∈ es, e.2.Definite) :
    (object es).Definite := by
  unfold Definite
  rw [document, memberDocuments_eq]
  exact .object (List.forall_mem_map.mpr h)

section

variable {source s : Octets}

/-- A numeral gives an integer or a double in its one form. -/
theorem definite_of_number {x : Numeral} {n : Number} (h : x.number = .ok n) :
    (number n).Definite := by
  unfold Numeral.number at h
  dsimp only at h
  split at h
  · rw [← Except.ok.inj h]
    exact .word (.integer _)
  split at h
  · rw [← Except.ok.inj h]
    exact .word (.integer _)
  split at h
  · rename_i hdecimal
    rw [← Except.ok.inj h]
    exact .word (.double (Decimal.Magnitude.ofDecimal_canonical hdecimal))
  · exact nomatch h

theorem within_readNumber (hs : s <:+ source) :
    Within source (fun n => (number n).Definite) (readNumber s) := by
  unfold readNumber
  exact (Within.of_local Numeral.local_read hs).andThen fun _ hr _ =>
    .bind fun _ hn => .ok hr (definite_of_number hn)

variable {written : Octets → Except Fault Value} {inner : Reader Value}

theorem stays_readLiteral (hs : s <:+ source) : Stays source (readLiteral s) := by
  refine .withNext hs fun c r hlt hr => ?_
  split
  · exact (stays_readText (suffix_tail hr)).stays_map fun _ => rfl
  · exact .error

theorem within_readWrittenOut (hwritten : ∀ t v, written t = .ok v → v.Definite)
    (hs : s <:+ source) : Within source Definite (readWrittenOut written s) := by
  unfold readWrittenOut
  refine (stays_readColon hs).andThen fun ⟨_, r₁, h₁⟩ hr₁ _ => ?_
  refine (stays_readLiteral hr₁).andThen fun ⟨writing, r₂, h₂⟩ hr₂ _ => .bind fun v hv => ?_
  exact (stays_closeObject hr₂).andThen fun p hp _ => .ok hp (hwritten _ v hv)

theorem within_readObject (hwritten : ∀ t v, written t = .ok v → v.Definite)
    (hinner : ∀ t, t <:+ source → Within source Definite (inner t)) (hs : s <:+ source) :
    Within source Definite (readObject written inner s) := by
  unfold readObject
  split
  · exact .error
  · exact (stays_closeObject hs).map (fun _ => rfl)
      fun _ _ => definite_object fun _ he => absurd he List.not_mem_nil
  · rename_i name r h hnext
    split
    · exact (within_readWrittenOut hwritten (suffix_of_nextName hs hnext)).map (fun _ => rfl)
        fun _ hv => hv
    · refine (within_foldMembers (R := fun es => ∀ e ∈ es, e.2.Definite) ?_
        (fun _ he => absurd he List.not_mem_nil) hs).map (fun _ => rfl)
        fun _ hes => definite_object hes
      intro es key t hes ht
      refine (within_readMember hinner ht).map (fun _ => rfl) ?_
      intro p hp e he
      rcases Dict.mem_insertEntry he with rfl | he
      · exact hp
      · exact hes e he

theorem within_readWith (hwritten : ∀ t v, written t = .ok v → v.Definite)
    {inner : Option (Reader Value)}
    (hinner : ∀ read ∈ inner, ∀ t, t <:+ source → Within source Definite (read t))
    (hs : s <:+ source) : Within source Definite (readWith written inner s) := by
  refine .withNext hs fun c r hlt hr => ?_
  have htail := suffix_tail hr
  repeat' split
  · exact (stays_readText htail).map (fun _ => rfl) fun p _ => definite_text p.value
  · exact within_dropWord definite_null htail
  · exact within_dropWord (definite_boolean true) htail
  · exact within_dropWord (definite_boolean false) htail
  · exact (within_readNumber hr).map (fun _ => rfl) fun _ hn => hn
  · exact .error
  · rename_i read
    exact (within_listItems (hinner read rfl) htail).map (fun _ => rfl) fun _ => definite_list
  · exact .error
  · rename_i read
    exact (within_readObject hwritten (hinner read rfl) htail).map (fun _ => rfl) fun _ hv => hv
  · exact .error

theorem within_readAt (hwritten : ∀ t v, written t = .ok v → v.Definite) (depth : Nat)
    (hs : s <:+ source) : Within source Definite (readAt written depth s) := by
  induction depth generalizing s with
  | zero => exact within_readWith hwritten (fun _ h => nomatch h) hs
  | succ depth ih =>
    refine within_readWith hwritten ?_ hs
    intro read hread t ht
    obtain rfl := Option.some.inj hread
    exact ih ht

theorem definite_of_readWithin {levels : Nat} {v : Value} (h : readWithin levels s = .ok v) :
    v.Definite := by
  induction levels generalizing s v with
  | zero => exact nomatch h
  | succ levels ih =>
    unfold readWithin at h
    cases hread : readAt (readWithin levels) maxDepth s with
    | error f => simp [hread, bind, Except.bind] at h
    | ok p =>
      simp only [hread, bind, Except.bind] at h
      split at h
      · rw [← Except.ok.inj h]
        exact (within_readAt (fun _ _ => ih) maxDepth List.suffix_rfl p hread).2
      · exact nomatch h

/-- **The document of a value that was read is definite.** -/
theorem definite_of_read {v : Value} (h : read s = .ok v) : v.Definite :=
  definite_of_readWithin h

end

end FleetPlan.Json.Value
