/-
When encoded inputs are accepted back.

Inputs are brought into their normal form before they are encoded and once more after
they were decoded, so what comes back is the normal form of a normal form.  Trimming and
sorting change nothing the second time, and neither does anything else but the form of
a path that ends in a blank.  `ReadsBack` says this of one form of inputs: what was
encoded is decoded to itself just when its paths are `PathsTrimmed`.

`LawfulInputs` is what a form has to show for it: that its shape is lawful, that all its
values are valid, and when its normal form is final.  The rest is the same for all forms.
-/
import FleetPlan.Inputs.Validation
import FleetPlan.Proofs.Codec
import FleetPlan.Proofs.RelativePath
import FleetPlan.Proofs.Sort

namespace FleetPlan

open Json

section

variable {ε α β : Type}

theorem bind_eq_ok_iff {x : Except ε α} {f : α → Except ε β} {b : β} :
    x >>= f = .ok b ↔ ∃ a, x = .ok a ∧ f a = .ok b := by
  cases x with
  | error e => simp [bind, Except.bind]
  | ok a => simp [bind, Except.bind]

theorem pure_eq_ok_iff {a b : α} : (pure a : Except ε α) = .ok b ↔ a = b := by
  simp [pure, Except.pure]

end

/-! ### Forms of inputs -/

/-- A form of inputs in which some texts are paths. -/
class PathFields (α : Type) where
  paths : α → List String

/-- No path has a blank at an end. -/
def PathsTrimmed {α : Type} [PathFields α] (inputs : α) : Prop :=
  ∀ p ∈ PathFields.paths inputs, Text.trim p = p

/-- A form whose values are determined by their documents, and whose normal form is final. -/
class LawfulInputs (α : Type) [StepInputs α] [PathFields α] : Prop where
  lawful : (StepInputs.shape (α := α)).Lawful
  valid : ∀ inputs : α, StepInputs.shape.Valid inputs
  /-- But for its paths a normal form is the normal form of itself. -/
  normalize_again : ∀ {inputs normal : α}, StepInputs.normalize inputs = .ok normal →
    (StepInputs.normalize normal = .ok normal ↔ PathsTrimmed normal)
  /-- The form is the one by which inputs of its action are validated. -/
  validateInputs_eq : ∀ payload, validateInputs (StepInputs.action α) payload =
    (decodeInputs α payload).map fun _ => true

/--
What becomes of the payload if inputs of the form were encoded to it.  It holds the settled
inputs, and decoding it settles these once more.  The settled inputs come back just when
their paths are trimmed, and then they are encoded to the same payload and the payload is
found right.
-/
def ReadsBack (α : Type) [StepInputs α] [PathFields α] (payload : Payload) : Prop :=
  ∀ inputs : α, encodeInputs inputs = .ok payload →
    ∃ settled, settleInputs inputs = .ok settled ∧
      decodeInputs α (some payload) = settleInputs settled ∧
        (decodeInputs α (some payload) = .ok settled ↔ PathsTrimmed settled) ∧
          (PathsTrimmed settled → encodeInputs settled = .ok payload ∧
            validateInputs (StepInputs.action α) (some payload) = .ok true)

section

variable {α : Type} [StepInputs α] {inputs settled : α} {payload : Payload}

theorem settleInputs_eq_ok_iff : settleInputs inputs = .ok settled ↔
    StepInputs.normalize inputs = .ok settled ∧ StepInputs.validate settled = .ok () := by
  unfold settleInputs
  simp only [bind_eq_ok_iff, pure_eq_ok_iff]
  constructor
  · rintro ⟨_, hnormal, ⟨⟩, hvalid, rfl⟩
    exact ⟨hnormal, hvalid⟩
  · rintro ⟨hnormal, hvalid⟩
    exact ⟨settled, hnormal, (), hvalid, rfl⟩

theorem encodeInputs_eq_ok_iff : encodeInputs inputs = .ok payload ↔
    ∃ settled, settleInputs inputs = .ok settled ∧
      payload = ⟨(StepInputs.shape.write settled).compact⟩ := by
  unfold encodeInputs
  rw [bind_eq_ok_iff]
  refine exists_congr fun settled => and_congr_right fun _ => ?_
  rw [pure_eq_ok_iff, eq_comm]

variable [PathFields α] [LawfulInputs α]

/-- What is decoded from the document of inputs are these inputs, settled. -/
theorem decodeInputs_compact (settled : α) :
    decodeInputs α (some ⟨(StepInputs.shape.write settled).compact⟩) = settleInputs settled := by
  unfold decodeInputs
  dsimp only
  rw [decodeStrict_compact LawfulInputs.lawful (LawfulInputs.valid settled)]

theorem settleInputs_again (h : settleInputs inputs = .ok settled) :
    settleInputs settled = .ok settled ↔ PathsTrimmed settled := by
  obtain ⟨hnormal, hvalid⟩ := settleInputs_eq_ok_iff.mp h
  rw [settleInputs_eq_ok_iff, LawfulInputs.normalize_again hnormal]
  exact and_iff_left hvalid

theorem LawfulInputs.readsBack (payload : Payload) : ReadsBack α payload := by
  intro inputs h
  obtain ⟨settled, hsettled, rfl⟩ := encodeInputs_eq_ok_iff.mp h
  have hagain := settleInputs_again hsettled
  refine ⟨settled, hsettled, decodeInputs_compact settled, ?_, fun htrimmed => ⟨?_, ?_⟩⟩
  · rw [decodeInputs_compact, hagain]
  · exact encodeInputs_eq_ok_iff.mpr ⟨settled, hagain.mpr htrimmed, rfl⟩
  · rw [LawfulInputs.validateInputs_eq, decodeInputs_compact, hagain.mpr htrimmed]
    rfl

end

/-! ### Normal forms of fields -/

@[simp] theorem normalList_normalList (items : List String) :
    normalList (normalList items) = normalList items :=
  mergeSort_map_mergeSort_by id Text.trim_trim items

@[simp] theorem map_trim_map_trim (items : List String) :
    (items.map Text.trim).map Text.trim = items.map Text.trim := by
  rw [List.map_map]
  exact List.map_congr_left fun s _ => Text.trim_trim s

namespace KeyValue

@[simp] theorem trim_trim (p : KeyValue) : p.trim.trim = p.trim := by
  simp [trim]

@[simp] theorem valid_shape (p : KeyValue) : shape.Valid p := by
  simp [shape, Shape.Valid, Fields.Valid]

@[simp] theorem lawful_shape : shape.Lawful := by
  unfold shape
  rw [Shape.Lawful]
  refine ⟨fun _ => rfl, fun _ => rfl, by decide, ?_⟩
  simp [Fields.Lawful, Shape.Lawful, Shape.Valid]

end KeyValue

@[simp] theorem normalPairs_normalPairs (pairs : List KeyValue) :
    normalPairs (normalPairs pairs) = normalPairs pairs :=
  mergeSort_map_mergeSort_by KeyValue.key KeyValue.trim_trim pairs

theorem normalPath_eq_ok_iff {field raw p : String} :
    normalPath field raw = .ok p ↔ RelativePath.normalize raw = .ok p := by
  unfold normalPath
  cases RelativePath.normalize raw <;> simp [Except.mapError]

theorem normalPath_again {field raw p : String} (h : normalPath field raw = .ok p) :
    normalPath field p = .ok p ↔ Text.trim p = p := by
  rw [normalPath_eq_ok_iff] at h ⊢
  exact RelativePath.normalize_again h

/-- A path that may be missing is trimmed before it is given its form. -/
theorem pathOrEmpty_again {field raw p : String} (h : BuildInputs.pathOrEmpty field raw = .ok p) :
    BuildInputs.pathOrEmpty field p = .ok p ↔ Text.trim p = p := by
  unfold BuildInputs.pathOrEmpty at h ⊢
  dsimp only at h ⊢
  by_cases hp : (Text.trim p).isEmpty = true
  · rw [if_pos hp, Except.ok.injEq]
  rw [if_neg hp]
  constructor
  · intro hagain
    have hle := (RelativePath.length_le_of_normalize (normalPath_eq_ok_iff.mp hagain)).trans
      (RelativePath.length_unified_le _)
    rw [Text.toList_trim] at hle
    exact Text.trim_eq_self_of_length_le hle
  · intro htrim
    split at h
    · cases h
      rw [htrim] at hp
      contradiction
    · rw [htrim]
      exact (normalPath_again h).mpr htrim

/-! ### Builds -/

namespace BuildInputs

instance : PathFields BuildInputs := ⟨fun b => [b.workdir, b.dockerfile, b.context]⟩

theorem lawful_shape : shape.Lawful := by
  unfold shape
  rw [Shape.Lawful]
  refine ⟨fun _ => rfl, fun _ => rfl, by decide, ?_⟩
  simp [Fields.Lawful, Shape.Lawful, Shape.Valid]

theorem normalize_again {b normal : BuildInputs} (h : normalize b = .ok normal) :
    normalize normal = .ok normal ↔ PathsTrimmed normal := by
  simp only [normalize, bind_eq_ok_iff, pure_eq_ok_iff] at h
  obtain ⟨workdir, hworkdir, dockerfile, hdockerfile, context, hcontext, rfl⟩ := h
  simp only [normalize, bind_eq_ok_iff, pure_eq_ok_iff, mk.injEq, existsAndEq, Text.trim_trim,
    normalList_normalList, normalPairs_normalPairs]
  simp [pathOrEmpty_again hworkdir, pathOrEmpty_again hdockerfile, pathOrEmpty_again hcontext,
    PathsTrimmed, PathFields.paths]

instance : LawfulInputs BuildInputs where
  lawful := lawful_shape
  valid b := by simp [StepInputs.shape, shape, Shape.Valid, Fields.Valid]
  normalize_again := normalize_again
  validateInputs_eq _ := rfl

end BuildInputs

/-! ### Migrations -/

namespace MigrateInputs

instance : PathFields MigrateInputs := ⟨fun m => [m.path]⟩

theorem lawful_shape : shape.Lawful := by
  unfold shape
  rw [Shape.Lawful]
  refine ⟨fun _ => rfl, fun _ => rfl, by decide, ?_⟩
  simp [Fields.Lawful, Shape.Lawful, Shape.Valid, Shape.write, Document.SpellsNull]

theorem normalize_again {m normal : MigrateInputs} (h : normalize m = .ok normal) :
    normalize normal = .ok normal ↔ PathsTrimmed normal := by
  simp only [normalize, bind_eq_ok_iff, pure_eq_ok_iff] at h
  obtain ⟨path, hpath, rfl⟩ := h
  simp only [normalize, bind_eq_ok_iff, pure_eq_ok_iff, mk.injEq, existsAndEq, Text.trim_trim,
    map_trim_map_trim]
  simp [normalPath_again hpath, PathsTrimmed, PathFields.paths]

instance : LawfulInputs MigrateInputs where
  lawful := lawful_shape
  valid m := by
    simp [StepInputs.shape, shape, Shape.Valid, Fields.Valid, Shape.write, Document.SpellsNull]
  normalize_again := normalize_again
  validateInputs_eq _ := rfl

end MigrateInputs

/-! ### Compose files, applied -/

namespace ApplyComposeInputs

instance : PathFields ApplyComposeInputs := ⟨fun a => [a.composePath]⟩

theorem lawful_shape : shape.Lawful := by
  unfold shape
  rw [Shape.Lawful]
  refine ⟨fun _ => rfl, fun _ => rfl, by decide, ?_⟩
  simp [Fields.Lawful, Shape.Lawful, Shape.Valid, Presence.inObject]

theorem normalize_again {a normal : ApplyComposeInputs} (h : normalize a = .ok normal) :
    normalize normal = .ok normal ↔ PathsTrimmed normal := by
  simp only [normalize, bind_eq_ok_iff, pure_eq_ok_iff] at h
  obtain ⟨path, hpath, rfl⟩ := h
  simp only [normalize, bind_eq_ok_iff, pure_eq_ok_iff, mk.injEq, existsAndEq, Text.trim_trim,
    normalList_normalList]
  simp [normalPath_again hpath, PathsTrimmed, PathFields.paths]

instance : LawfulInputs ApplyComposeInputs where
  lawful := lawful_shape
  valid a := by
    simp [StepInputs.shape, shape, Shape.Valid, Fields.Valid, Shape.write, Document.SpellsNull]
  normalize_again := normalize_again
  validateInputs_eq _ := rfl

end ApplyComposeInputs

/-! ### Compose files, rendered -/

namespace ComposeOverlay

@[simp] theorem valid_shape (o : ComposeOverlay) : shape.Valid o := by
  simp [shape, Shape.Valid, Fields.Valid]

@[simp] theorem lawful_shape : shape.Lawful := by
  unfold shape
  rw [Shape.Lawful]
  refine ⟨fun _ => rfl, fun _ => rfl, by decide, ?_⟩
  simp [Fields.Lawful, Shape.Lawful, Shape.Valid]

variable {overlays normal : List ComposeOverlay} {i : Nat}

theorem normalPaths_cons_eq_ok_iff {o : ComposeOverlay} {rest : List ComposeOverlay} :
    normalPaths i (o :: rest) = .ok normal ↔ ∃ path rest',
      normalPath ("overlays[" ++ toString i ++ "].path") o.path = .ok path ∧
        normalPaths (i + 1) rest = .ok rest' ∧ normal = { o with path := path } :: rest' := by
  simp only [normalPaths, bind_eq_ok_iff, pure_eq_ok_iff]
  constructor
  · rintro ⟨path, hpath, rest', hrest, rfl⟩
    exact ⟨path, rest', hpath, hrest, rfl⟩
  · rintro ⟨path, rest', hpath, hrest, rfl⟩
    exact ⟨path, hpath, rest', hrest, rfl⟩

theorem names_of_normalPaths (h : normalPaths i overlays = .ok normal) :
    normal.map (·.name) = overlays.map (·.name) := by
  induction overlays generalizing i normal with
  | nil =>
    cases h
    rfl
  | cons o rest ih =>
    obtain ⟨path, rest', -, hrest, rfl⟩ := normalPaths_cons_eq_ok_iff.mp h
    rw [List.map_cons, List.map_cons, ih hrest]

theorem normalPaths_again (h : normalPaths i overlays = .ok normal) :
    normalPaths i normal = .ok normal ↔ ∀ o ∈ normal, Text.trim o.path = o.path := by
  induction overlays generalizing i normal with
  | nil =>
    cases h
    simp [normalPaths]
  | cons o rest ih =>
    obtain ⟨path, rest', hpath, hrest, rfl⟩ := normalPaths_cons_eq_ok_iff.mp h
    simp only [normalPaths_cons_eq_ok_iff, List.cons.injEq, mk.injEq, true_and, existsAndEq,
      and_true, normalPath_again hpath, ih hrest, List.forall_mem_cons]

/-- Overlays with trimmed names that stand by name are sorted already. -/
theorem sorted_eq_self (htrim : ∀ n ∈ overlays.map (·.name), Text.trim n = n)
    (hpairwise : (overlays.map (·.name)).Pairwise (· ≤ ·)) : sorted overlays = overlays := by
  have hmap : overlays.map (fun o => { o with name := Text.trim o.name }) = overlays := by
    refine (List.map_congr_left (g := id) fun o ho => ?_).trans (List.map_id _)
    rw [htrim o.name (List.mem_map_of_mem ho)]
    rfl
  rw [sorted, hmap]
  refine List.mergeSort_of_pairwise ((List.pairwise_map.mp hpairwise).imp ?_)
  exact fun h => decide_eq_true h

/-- The names of sorted overlays are trimmed and stand in order. -/
theorem sorted_of_normalPaths (h : normalPaths i (sorted overlays) = .ok normal) :
    sorted normal = normal := by
  have hnames := names_of_normalPaths h
  refine sorted_eq_self ?_ ?_
  · rw [hnames]
    intro n hn
    obtain ⟨o, ho, rfl⟩ := List.mem_map.mp hn
    obtain ⟨o', -, rfl⟩ := List.mem_map.mp ((List.mergeSort_perm _ _).mem_iff.mp ho)
    exact Text.trim_trim _
  · rw [hnames, List.pairwise_map]
    exact (pairwise_mergeSort_by name _).imp fun h => of_decide_eq_true h

end ComposeOverlay

namespace RenderComposeInputs

instance : PathFields RenderComposeInputs :=
  ⟨fun r => r.basePath :: r.outputPath :: r.overlays.map (·.path)⟩

theorem lawful_shape : shape.Lawful := by
  unfold shape
  rw [Shape.Lawful]
  refine ⟨fun _ => rfl, fun _ => rfl, by decide, ?_⟩
  simp [Fields.Lawful, Shape.Lawful, Shape.Valid]

/-- The base is a path that may be missing. -/
theorem normalize_eq (r : RenderComposeInputs) : normalize r = (do
    let overlays ← ComposeOverlay.normalPaths 0 (ComposeOverlay.sorted r.overlays)
    let basePath ← BuildInputs.pathOrEmpty "base_compose_path" r.basePath
    let outputPath ← normalPath "output_path" r.outputPath
    return ⟨Text.trim r.environment, basePath, Text.trim r.baseInline, overlays,
      normalPairs r.assignments, outputPath, Text.trim r.expectedHashAlgorithm,
      Text.trim r.expectedHash⟩) := by
  unfold normalize BuildInputs.pathOrEmpty
  dsimp only
  split <;> rfl

theorem normalize_again {r normal : RenderComposeInputs} (h : normalize r = .ok normal) :
    normalize normal = .ok normal ↔ PathsTrimmed normal := by
  simp only [normalize_eq, bind_eq_ok_iff, pure_eq_ok_iff] at h
  obtain ⟨overlays, hoverlays, base, hbase, output, houtput, rfl⟩ := h
  have hsorted := ComposeOverlay.sorted_of_normalPaths hoverlays
  simp only [normalize_eq, bind_eq_ok_iff, pure_eq_ok_iff, mk.injEq, existsAndEq, Text.trim_trim,
    normalPairs_normalPairs, hsorted]
  simp only [ComposeOverlay.normalPaths_again hoverlays, pathOrEmpty_again hbase,
    normalPath_again houtput, PathsTrimmed, PathFields.paths, List.forall_mem_cons,
    List.forall_mem_map, and_true]
  exact and_rotate

instance : LawfulInputs RenderComposeInputs where
  lawful := lawful_shape
  valid r := by simp [StepInputs.shape, shape, Shape.Valid, Fields.Valid]
  normalize_again := normalize_again
  validateInputs_eq _ := rfl

end RenderComposeInputs

/-! ### Rollouts -/

namespace RolloutInputs

instance : PathFields RolloutInputs := ⟨fun _ => []⟩

theorem lawful_shape : shape.Lawful := by
  unfold shape
  rw [Shape.Lawful]
  refine ⟨fun _ => rfl, fun _ => rfl, by decide, ?_⟩
  simp [Fields.Lawful, Shape.Lawful, Shape.Valid, Shape.write, Document.SpellsNull]

theorem normalize_again {r normal : RolloutInputs} (h : normalize r = .ok normal) :
    normalize normal = .ok normal ↔ PathsTrimmed normal := by
  cases h
  simp [normalize, PathsTrimmed, PathFields.paths]

instance : LawfulInputs RolloutInputs where
  lawful := lawful_shape
  valid r := by
    simp [StepInputs.shape, shape, Shape.Valid, Fields.Valid, Shape.write, Document.SpellsNull]
  normalize_again := normalize_again
  validateInputs_eq _ := rfl

end RolloutInputs

/-! ### Health checks -/

namespace HealthEndpoint

@[simp] theorem valid_shape (e : HealthEndpoint) : shape.Valid e := by
  simp [shape, Shape.Valid, Fields.Valid]

@[simp] theorem lawful_shape : shape.Lawful := by
  unfold shape
  rw [Shape.Lawful]
  refine ⟨fun _ => rfl, fun _ => rfl, by decide, ?_⟩
  simp [Fields.Lawful, Shape.Lawful, Shape.Valid]

theorem normal_normal (e : HealthEndpoint) : e.normal.normal = e.normal := by
  simp [normal]

@[simp] theorem sorted_sorted (endpoints : List HealthEndpoint) :
    sorted (sorted endpoints) = sorted endpoints :=
  mergeSort_map_mergeSort_by name normal_normal endpoints

end HealthEndpoint

namespace HealthCheckInputs

instance : PathFields HealthCheckInputs := ⟨fun _ => []⟩

theorem lawful_shape : shape.Lawful := by
  unfold shape
  rw [Shape.Lawful]
  refine ⟨fun _ => rfl, fun _ => rfl, by decide, ?_⟩
  simp [Fields.Lawful, Shape.Lawful, Shape.Valid, Shape.write, Document.SpellsNull]

theorem normalize_again {c normal : HealthCheckInputs} (h : normalize c = .ok normal) :
    normalize normal = .ok normal ↔ PathsTrimmed normal := by
  cases h
  simp [normalize, PathsTrimmed, PathFields.paths]

instance : LawfulInputs HealthCheckInputs where
  lawful := lawful_shape
  valid c := by
    simp [StepInputs.shape, shape, Shape.Valid, Fields.Valid, Shape.write, Document.SpellsNull]
  normalize_again := normalize_again
  validateInputs_eq _ := rfl

end HealthCheckInputs

/-! ### All forms -/

/-- **Encoded inputs of every form are accepted back unchanged just when their paths are trimmed.** -/
theorem encodeInputs_readsBack (payload : Payload) :
    ReadsBack BuildInputs payload ∧ ReadsBack MigrateInputs payload ∧
      ReadsBack ApplyComposeInputs payload ∧ ReadsBack RenderComposeInputs payload ∧
        ReadsBack RolloutInputs payload ∧ ReadsBack HealthCheckInputs payload :=
  ⟨LawfulInputs.readsBack payload, LawfulInputs.readsBack payload, LawfulInputs.readsBack payload,
    LawfulInputs.readsBack payload, LawfulInputs.readsBack payload, LawfulInputs.readsBack payload⟩

/-- Inputs of a migration along the given path. -/
def MigrateInputs.along (path : String) : MigrateInputs :=
  ⟨"main", "expand", "postgres", path, "DATABASE_URL", none, ["--fast"]⟩

/-- The payload of a migration along the given path. -/
def MigrateInputs.payloadAlong (path : String) : Payload :=
  ⟨"\x7b\"database\":\"main\",\"strategy\":\"expand\",\"engine\":\"postgres\",\"path\":\"" ++ path ++
    "\",\"conn_env\":\"DATABASE_URL\",\"args\":[\"--fast\"]\x7d"⟩

/-- A path with two slashes at its end comes back, one with a blank before its last slash does not. -/
theorem encodeInputs_readsBack_of_migrations :
    decodeInputs MigrateInputs (some (MigrateInputs.payloadAlong "db/up")) =
        .ok (MigrateInputs.along "db/up") ∧
      decodeInputs MigrateInputs (some (MigrateInputs.payloadAlong "db/up ")) ≠
        .ok (MigrateInputs.along "db/up ") := by
  constructor
  · have hencode : encodeInputs (MigrateInputs.along " db\\up// ") =
        .ok (MigrateInputs.payloadAlong "db/up") := by decide +kernel
    have hsettle : settleInputs (MigrateInputs.along " db\\up// ") =
        .ok (MigrateInputs.along "db/up") := by decide +kernel
    obtain ⟨-, hmigrate, -⟩ := encodeInputs_readsBack (MigrateInputs.payloadAlong "db/up")
    obtain ⟨settled, hsettled, -, hback, -⟩ := hmigrate _ hencode
    cases hsettle.symm.trans hsettled
    refine hback.mpr fun p hp => ?_
    rw [List.mem_singleton.mp hp]
    decide +kernel
  · have hencode : encodeInputs (MigrateInputs.along "db/up /") =
        .ok (MigrateInputs.payloadAlong "db/up ") := by decide +kernel
    have hsettle : settleInputs (MigrateInputs.along "db/up /") =
        .ok (MigrateInputs.along "db/up ") := by decide +kernel
    obtain ⟨-, hmigrate, -⟩ := encodeInputs_readsBack (MigrateInputs.payloadAlong "db/up ")
    obtain ⟨settled, hsettled, -, hback, -⟩ := hmigrate _ hencode
    cases hsettle.symm.trans hsettled
    intro hdecode
    exact absurd (hback.mp hdecode _ List.mem_cons_self) (by decide +kernel)

/-- What was encoded can be refused when it is decoded. -/
theorem decodeInputs_refuses_encoded :
    encodeInputs (MigrateInputs.along ".. /") = .ok (MigrateInputs.payloadAlong ".. ") ∧
      decodeInputs MigrateInputs (some (MigrateInputs.payloadAlong ".. ")) =
        .error (.invalid "path" (.path (.dotSegment ".."))) := by
  decide +kernel

end FleetPlan
