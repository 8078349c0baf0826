/-
When the layout of inputs shows in the id of a plan.

Every text that inputs are made from writes a tree, and the id covers what the inputs say.  Two
texts of one tree, or of trees with their members in different orders, say the same.  But
inputs are admitted by the scanner, which takes more than can be read: a numeral of any size,
half of a character, containers at any depth, and the reserved name with anything.  Inputs that
are not `Legible` are covered as the text they are, spaces included, so their layout does show.
`derivedId_relaid` draws the line, which inputs from a plain tree never reach.
-/
import FleetPlan.Proofs.Json.Reordering
import FleetPlan.Proofs.Json.TreeScan
import FleetPlan.Proofs.PlanId

namespace FleetPlan

open Json

/-! ### Inputs that can be read -/

/-- Inputs that say something, other than the text they are. -/
def Json.Payload.Legible (p : Payload) : Prop := ∃ v, Value.read (Text.octets p.text) = .ok v

/-- Inputs say what their tree does, and if this is nothing, their text. -/
theorem canonicalInputs_of_writes {x : Tree} {p : Payload} (h : x.Writes (Text.octets p.text)) :
    canonicalInputs (some p) = (x.value? Value.maxDepth).getD (.text p.text) := by
  rw [← Tree.toOption_read h, canonicalInputs]
  cases Value.read (Text.octets p.text) <;> rfl

theorem legible_iff_of_writes {x : Tree} {p : Payload} (h : x.Writes (Text.octets p.text)) :
    p.Legible ↔ ∃ v, x.value? Value.maxDepth = some v := by
  rw [← Tree.toOption_read h, Payload.Legible]
  cases Value.read (Text.octets p.text) <;> simp [Except.toOption]

/-- The payload made from a text writes the tree that the text writes. -/
theorem Json.Payload.writes_of_ofText {x : Tree} {text : String} {p : Payload}
    (h : ofText text = .ok p) (hx : x.Writes (Text.octets text)) :
    x.Writes (Text.octets p.text) := ⟨[], spaced_of_ofText h hx, rfl⟩

/-- Inputs from trees in different orders say the same just when both are legible, or equal. -/
theorem canonicalInputs_eq_iff {x y : Tree} {p q : Payload} (h : x.Reordered y)
    (hx : x.Writes (Text.octets p.text)) (hy : y.Writes (Text.octets q.text)) :
    canonicalInputs (some q) = canonicalInputs (some p) ↔ p.Legible ∧ q.Legible ∨ q = p := by
  rw [legible_iff_of_writes hx, legible_iff_of_writes hy]
  constructor
  · rw [canonicalInputs_of_writes hx, canonicalInputs_of_writes hy]
    intro heq
    -- What says a text has one order only, so it cannot be mistaken for the text of the other.
    have hsame (s : String) (hvalue : x.value? Value.maxDepth = some (.text s) ∨
        y.value? Value.maxDepth = some (.text s)) :
        x.value? Value.maxDepth = y.value? Value.maxDepth := by
      rw [h.eq_of_text hvalue]
    cases hv : x.value? Value.maxDepth with
    | none =>
      cases hw : y.value? Value.maxDepth with
      | none =>
        rw [hv, hw] at heq
        exact .inr (congrArg Payload.mk (Value.text.inj heq))
      | some w =>
        rw [hv, hw] at heq
        have hnone := hsame p.text (.inr (hw.trans (congrArg some heq)))
        rw [hv, hw] at hnone
        cases hnone
    | some v =>
      cases hw : y.value? Value.maxDepth with
      | none =>
        rw [hv, hw] at heq
        have hnone := hsame q.text (.inl (hv.trans (congrArg some heq.symm)))
        rw [hv, hw] at hnone
        cases hnone
      | some w => exact .inl ⟨⟨v, rfl⟩, w, rfl⟩
  · rintro (⟨⟨v, hv⟩, w, hw⟩ | rfl)
    · rw [canonicalInputs_of_writes hx, canonicalInputs_of_writes hy, hv, hw, Option.getD_some,
        Option.getD_some, h.value?_eq hv hw]
    · rfl

/-! ### Plans -/

def Step.withInputs (s : Step) (p : Payload) : Step := { s with inputs := some p }

/-- Inputs that say the same leave what the id takes from a step as it is. -/
theorem Step.entry_withInputs {p q : Payload}
    (h : canonicalInputs (some q) = canonicalInputs (some p)) (s : Step) :
    (s.withInputs q).entry = (s.withInputs p).entry := by
  unfold entry idDocument withInputs
  dsimp only
  rw [h]

namespace Plan

/-- The plan with other inputs for one of its steps. -/
def withInputs (plan : Plan) (i : Nat) (p : Payload) : Plan :=
  { plan with steps := plan.steps.modify i (·.withInputs p) }

theorem derivedId_withInputs {p q : Payload}
    (h : canonicalInputs (some q) = canonicalInputs (some p)) (plan : Plan) (i : Nat)
    (environment : String) :
    (plan.withInputs i q).derivedId environment = (plan.withInputs i p).derivedId environment := by
  have hentries (steps : List Step) : ∀ i, (steps.modify i (·.withInputs q)).map Step.entry =
      (steps.modify i (·.withInputs p)).map Step.entry := by
    induction steps with
    | nil => intro i; rw [List.modify_nil, List.modify_nil]
    | cons s steps ih =>
      intro i
      cases i with
      | zero =>
        rw [List.modify_zero_cons, List.modify_zero_cons, List.map_cons, List.map_cons,
          Step.entry_withInputs h]
      | succ i =>
        rw [List.modify_succ_cons, List.modify_succ_cons, List.map_cons, List.map_cons, ih]
  exact derivedId_eq_of_entries (hentries plan.steps i) environment

end Plan

/--
**When inputs in another layout have the same id.**  Every text that is admitted writes a tree.
Let two of them write the same tree, but for space and the order of members.  They say the same
just when both can be read, or no text is changed, and then no plan gets another id from the one
than from the other, whichever step has them for its inputs.  Texts of a plain tree can always
be read.
-/
theorem derivedId_relaid {t t' : String} {p p' : Payload} (ht : Payload.ofText t = .ok p)
    (ht' : Payload.ofText t' = .ok p') :
    ((∃ x : Tree, x.Writes (Text.octets t)) ∧ ∃ y : Tree, y.Writes (Text.octets t')) ∧
    ∀ x y : Tree, x.Writes (Text.octets t) → y.Writes (Text.octets t') → x.Reordered y →
      (canonicalInputs (some p') = canonicalInputs (some p) ↔
        p.Legible ∧ p'.Legible ∨ p' = p) ∧
      (p.Legible ∧ p'.Legible ∨ p' = p → ∀ (plan : Plan) i environment,
        (plan.withInputs i p').derivedId environment =
          (plan.withInputs i p).derivedId environment) ∧
      (x.plain Value.maxDepth = true → p.Legible ∧ p'.Legible) := by
  refine ⟨⟨Payload.exists_tree_of_ofText ht, Payload.exists_tree_of_ofText ht'⟩, ?_⟩
  intro x y hx hy h
  have hp := Payload.writes_of_ofText ht hx
  have hp' := Payload.writes_of_ofText ht' hy
  have hsame := canonicalInputs_eq_iff h hp hp'
  refine ⟨hsame, fun hlegible => Plan.derivedId_withInputs (hsame.mpr hlegible), ?_⟩
  intro hplain
  exact ⟨(legible_iff_of_writes hp).mpr (Tree.exists_value?_of_plain x hplain),
    (legible_iff_of_writes hp').mpr (Tree.exists_value?_of_plain y (h.plain_eq ▸ hplain))⟩

namespace Json.Tree

def limitName : NameToken := ⟨Text.octets "limit\"", by decide +kernel⟩

/-- A limit, whatever numeral it is. -/
def limit (numeral : ScalarToken) : NameToken × Tree := (limitName, .scalar numeral)

def label : NameToken × Tree :=
  (⟨Text.octets "label\"", by decide +kernel⟩,
    .scalar ⟨Text.octets "\"a b\"", by decide +kernel⟩)

def one : ScalarToken := ⟨Text.octets "1", by decide +kernel⟩

/-- A numeral that no double comes near. -/
def vast : ScalarToken := ⟨Text.octets "1e999", by decide +kernel⟩

end Json.Tree

/-- Members that change places, with space around them, do not change any id. -/
theorem derivedId_relaid_of_limits : ∃ p p' : Payload,
    Payload.ofText "\x7b\"limit\":1,\"label\":\"a b\"\x7d" = .ok p ∧
    Payload.ofText " \x7b \"label\": \"a b\",\n \"limit\" :1 \x7d\n" = .ok p' ∧
    p' ≠ p ∧ p.Legible ∧ p'.Legible ∧ ∀ (plan : Plan) i environment,
      (plan.withInputs i p').derivedId environment =
        (plan.withInputs i p).derivedId environment := by
  have h : (Tree.object [Tree.limit Tree.one, Tree.label]).Reordered
      (.object [Tree.label, Tree.limit Tree.one]) :=
    .object (by decide +kernel) (.cons (.scalar _) (.cons (.scalar _) .nil)) (.swap _ _ _)
  have ht : Payload.ofText "\x7b\"limit\":1,\"label\":\"a b\"\x7d" =
      .ok ⟨"\x7b\"limit\":1,\"label\":\"a b\"\x7d"⟩ := by decide +kernel
  have ht' : Payload.ofText " \x7b \"label\": \"a b\",\n \"limit\" :1 \x7d\n" =
      .ok ⟨"\x7b \"label\": \"a b\",\n \"limit\" :1 \x7d"⟩ := by decide +kernel
  obtain ⟨-, hid, hplain⟩ :=
    (derivedId_relaid ht ht').2 _ _ (by decide +kernel) (by decide +kernel) h
  have hlegible := hplain (by decide +kernel)
  exact ⟨_, _, ht, ht', by decide +kernel, hlegible.1, hlegible.2, hid (.inl hlegible)⟩

/-- A numeral out of range has a blank in front of it, and this shows in the id. -/
theorem derivedId_sees_layout : ∃ (p p' : Payload) (x : Tree) (plan : Plan),
    Payload.ofText "\x7b\"limit\":1e999\x7d" = .ok p ∧
    Payload.ofText "\x7b\"limit\": 1e999\x7d" = .ok p' ∧
    x.Writes (Text.octets "\x7b\"limit\":1e999\x7d") ∧
    x.Writes (Text.octets "\x7b\"limit\": 1e999\x7d") ∧ x.Reordered x ∧
    (plan.withInputs 0 p').derivedId "" ≠ (plan.withInputs 0 p).derivedId "" := by
  refine ⟨⟨"\x7b\"limit\":1e999\x7d"⟩, ⟨"\x7b\"limit\": 1e999\x7d"⟩,
    .object [Tree.limit Tree.vast],
    { Plan.bare "" with steps := [Step.bare "s" .zero .noop .fleet] }, by decide +kernel,
    by decide +kernel, by decide +kernel, by decide +kernel, ?_, by decide +kernel⟩
  exact .object (by decide +kernel) (.cons (.scalar _) .nil) (.refl _)

end FleetPlan
