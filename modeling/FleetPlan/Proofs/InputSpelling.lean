/-
Inputs that say the same are encoded alike.

The same inputs can be spelt in many ways: with blanks around their texts, and with tags,
services, targets, named entries and their headers in another order.  Each text and each list
is brought into its normal form by itself, trimming takes the blanks away whatever they were,
and sorting forgets the order of what its keys tell apart.  So all of this is gone before a
path is looked at or a check is made, and two spellings come to the same document or to the
same refusal.  Arguments of migrations keep their order, and entries with the same key keep
theirs among themselves.

`Respelt` says of each form which spellings belong together.
-/
import FleetPlan.Proofs.Inputs

namespace FleetPlan

open Json

/-! ### Texts -/

namespace Text

/-- The characters with blanks in front of the core and behind it. -/
def Pads (core cs : List Char) : Prop :=
  ∃ front back, cs = front ++ core ++ back ∧ (∀ c ∈ front, isBlank c = true) ∧
    ∀ c ∈ back, isBlank c = true

/-- Texts that differ in the blanks at their ends, if they differ at all. -/
def Respelt (s t : String) : Prop := ∃ core, Pads core s.toList ∧ Pads core t.toList

theorem rdropWhile_append_of_blank {cs back : List Char} (h : ∀ c ∈ back, isBlank c = true) :
    (cs ++ back).rdropWhile isBlank = cs.rdropWhile isBlank := by
  rw [List.rdropWhile, List.reverse_append, List.dropWhile_append_of_pos, List.rdropWhile]
  exact fun c hc => h c (List.mem_reverse.mp hc)

/-- Blanks at the ends are trimmed away. -/
theorem trimChars_of_pads {core cs : List Char} (h : Pads core cs) :
    trimChars cs = trimChars core := by
  obtain ⟨front, back, rfl, hfront, hback⟩ := h
  rw [trimChars_eq, trimChars_eq, List.append_assoc, List.dropWhile_append_of_pos hfront,
    List.dropWhile_append]
  split
  · rename_i hempty
    rw [List.isEmpty_iff.mp hempty, List.dropWhile_eq_nil_iff.mpr hback]
  · exact rdropWhile_append_of_blank hback

theorem pads_trimChars (cs : List Char) : Pads (trimChars cs) cs := by
  set rest := cs.dropWhile isBlank with hrest
  refine ⟨cs.takeWhile isBlank, (rest.reverse.takeWhile isBlank).reverse, ?_, ?_, ?_⟩
  · have hback : trimChars cs ++ (rest.reverse.takeWhile isBlank).reverse = rest := by
      rw [trimChars, ← hrest, ← List.reverse_append, List.takeWhile_append_dropWhile,
        List.reverse_reverse]
    rw [List.append_assoc, hback, hrest, List.takeWhile_append_dropWhile]
  · exact fun c hc => List.mem_takeWhile_imp hc
  · exact fun c hc => List.mem_takeWhile_imp (List.mem_reverse.mp hc)

theorem respelt_iff {s t : String} : Respelt s t ↔ trim s = trim t := by
  constructor
  · rintro ⟨core, hs, ht⟩
    rw [trim, trim, trimChars_of_pads hs, trimChars_of_pads ht]
  · intro h
    have hchars : trimChars s.toList = trimChars t.toList := by
      rw [← toList_trim, ← toList_trim, h]
    exact ⟨_, pads_trimChars _, hchars ▸ pads_trimChars _⟩

theorem Respelt.trim_eq {s t : String} (h : Respelt s t) : trim s = trim t := respelt_iff.mp h

theorem trimChars_map {f : Char → Char} (hf : ∀ c, isBlank (f c) = isBlank c) (cs : List Char) :
    trimChars (cs.map f) = (trimChars cs).map f := by
  have hcomp : isBlank ∘ f = isBlank := funext hf
  rw [trimChars, trimChars, List.dropWhile_map, hcomp, ← List.map_reverse, List.dropWhile_map,
    hcomp, List.map_reverse]

end Text

/-! ### Paths -/

section

variable {field raw raw' : String}

/-- A slash is as little a blank as the backslash it stands for. -/
theorem RelativePath.unified_congr (h : Text.trim raw = Text.trim raw') :
    unified raw = unified raw' := by
  have hblank (c : Char) : Text.isBlank (if c = '\\' then '/' else c) = Text.isBlank c := by
    split
    · rename_i hc
      rw [hc]
      decide
    · rfl
  have hchars : Text.trimChars raw.toList = Text.trimChars raw'.toList := by
    rw [← Text.toList_trim, ← Text.toList_trim, h]
  rw [unified, unified, Text.trimChars_map hblank, Text.trimChars_map hblank, hchars]

theorem normalPath_congr (h : Text.trim raw = Text.trim raw') :
    normalPath field raw = normalPath field raw' := by
  rw [normalPath, normalPath, RelativePath.normalize, RelativePath.normalize,
    RelativePath.unified_congr h]

theorem pathOrEmpty_congr (h : Text.trim raw = Text.trim raw') :
    BuildInputs.pathOrEmpty field raw = BuildInputs.pathOrEmpty field raw' := by
  rw [BuildInputs.pathOrEmpty, BuildInputs.pathOrEmpty, h]

end

/-! ### Lists -/

section

variable {α β : Type}

/-- The same texts but for blanks at their ends, in whatever order. -/
def TextsRespelt (xs ys : List String) : Prop := ∃ zs, List.Forall₂ Text.Respelt xs zs ∧ zs.Perm ys

/--
The same entries, each of them respelt.  They may stand in another order if no two of them
have the same key once the keys are trimmed.
-/
def EntriesRespelt (key : α → String) (Respelt : α → α → Prop) (xs ys : List α) : Prop :=
  ∃ zs, List.Forall₂ Respelt xs zs ∧
    (zs = ys ∨ zs.Perm ys ∧ (xs.map fun e => Text.trim (key e)).Nodup)

theorem map_eq_of_respelt {Respelt : α → α → Prop} (f : α → β)
    (hf : ∀ a b, Respelt a b → f a = f b) {xs zs : List α} (h : List.Forall₂ Respelt xs zs) :
    xs.map f = zs.map f := by
  induction h with
  | nil => rfl
  | cons hab _ ih => rw [List.map_cons, List.map_cons, hf _ _ hab, ih]

theorem normalList_congr {xs ys : List String} (h : TextsRespelt xs ys) :
    normalList xs = normalList ys := by
  obtain ⟨zs, hrespelt, hperm⟩ := h
  rw [normalList, map_eq_of_respelt Text.trim (fun _ _ => Text.Respelt.trim_eq) hrespelt]
  exact mergeSort_texts_eq_of_perm (hperm.map _)

/-- Entries that are given a form with a trimmed key and sorted by it come to the same list. -/
theorem mergeSort_map_congr {key : α → String} {Respelt : α → α → Prop} (f : α → β)
    (key' : β → String) (hf : ∀ a b, Respelt a b → f a = f b)
    (hkey : ∀ a, key' (f a) = Text.trim (key a)) {xs ys : List α}
    (h : EntriesRespelt key Respelt xs ys) :
    ((xs.map f).mergeSort fun a b => decide (key' a ≤ key' b)) =
      (ys.map f).mergeSort fun a b => decide (key' a ≤ key' b) := by
  obtain ⟨zs, hrespelt, rfl | ⟨hperm, hnodup⟩⟩ := h
  · rw [map_eq_of_respelt f hf hrespelt]
  · rw [map_eq_of_respelt f hf hrespelt]
    refine mergeSort_by_eq_of_perm key' ?_ (hperm.map f)
    have hkeys : (xs.map f).map key' = xs.map fun e => Text.trim (key e) := by
      rw [List.map_map]
      exact List.map_congr_left fun e _ => hkey e
    rw [← hkeys, map_eq_of_respelt f hf hrespelt] at hnodup
    exact List.inj_on_of_nodup_map hnodup

end

namespace KeyValue

structure Respelt (p q : KeyValue) : Prop where
  key : Text.Respelt p.key q.key
  value : Text.Respelt p.value q.value

theorem Respelt.trim_eq {p q : KeyValue} (h : p.Respelt q) : p.trim = q.trim := by
  rw [trim, trim, h.key.trim_eq, h.value.trim_eq]

end KeyValue

abbrev PairsRespelt : List KeyValue → List KeyValue → Prop :=
  EntriesRespelt KeyValue.key KeyValue.Respelt

theorem normalPairs_congr {ps qs : List KeyValue} (h : PairsRespelt ps qs) :
    normalPairs ps = normalPairs qs :=
  mergeSort_map_congr KeyValue.trim KeyValue.key (fun _ _ => KeyValue.Respelt.trim_eq)
    (fun _ => rfl) h

/-! ### Builds -/

namespace BuildInputs

structure Respelt (b c : BuildInputs) : Prop where
  provider : Text.Respelt b.provider c.provider
  workdir : Text.Respelt b.workdir c.workdir
  target : Text.Respelt b.target c.target
  dockerfile : Text.Respelt b.dockerfile c.dockerfile
  context : Text.Respelt b.context c.context
  tags : TextsRespelt b.tags c.tags
  buildArgs : PairsRespelt b.buildArgs c.buildArgs
  labels : PairsRespelt b.labels c.labels

theorem Respelt.normalize_eq {b c : BuildInputs} (h : b.Respelt c) : normalize b = normalize c := by
  rw [normalize, normalize, pathOrEmpty_congr h.workdir.trim_eq,
    pathOrEmpty_congr h.dockerfile.trim_eq, pathOrEmpty_congr h.context.trim_eq,
    h.provider.trim_eq, h.target.trim_eq, normalList_congr h.tags, normalPairs_congr h.buildArgs,
    normalPairs_congr h.labels]

end BuildInputs

/-! ### Migrations -/

namespace MigrateInputs

structure Respelt (m n : MigrateInputs) : Prop where
  database : Text.Respelt m.database n.database
  strategy : Text.Respelt m.strategy n.strategy
  engine : Text.Respelt m.engine n.engine
  path : Text.Respelt m.path n.path
  connEnv : Text.Respelt m.connEnv n.connEnv
  timeoutSeconds : m.timeoutSeconds = n.timeoutSeconds
  /-- Arguments stay in their places. -/
  args : List.Forall₂ Text.Respelt m.args n.args

theorem Respelt.normalize_eq {m n : MigrateInputs} (h : m.Respelt n) :
    normalize m = normalize n := by
  rw [normalize, normalize, normalPath_congr h.path.trim_eq, h.database.trim_eq,
    h.strategy.trim_eq, h.engine.trim_eq, h.connEnv.trim_eq, h.timeoutSeconds,
    map_eq_of_respelt Text.trim (fun _ _ => Text.Respelt.trim_eq) h.args]

end MigrateInputs

/-! ### Compose files, applied -/

namespace ApplyComposeInputs

structure Respelt (a b : ApplyComposeInputs) : Prop where
  environment : Text.Respelt a.environment b.environment
  composePath : Text.Respelt a.composePath b.composePath
  projectName : Text.Respelt a.projectName b.projectName
  pull : a.pull = b.pull
  detach : a.detach = b.detach
  services : TextsRespelt a.services b.services
  expectedHashAlgorithm : Text.Respelt a.expectedHashAlgorithm b.expectedHashAlgorithm
  expectedHash : Text.Respelt a.expectedHash b.expectedHash

theorem Respelt.normalize_eq {a b : ApplyComposeInputs} (h : a.Respelt b) :
    normalize a = normalize b := by
  rw [normalize, normalize, normalPath_congr h.composePath.trim_eq, h.environment.trim_eq,
    h.projectName.trim_eq, h.pull, h.detach, normalList_congr h.services,
    h.expectedHashAlgorithm.trim_eq, h.expectedHash.trim_eq]

end ApplyComposeInputs

/-! ### Compose files, rendered -/

namespace ComposeOverlay

structure Respelt (o p : ComposeOverlay) : Prop where
  name : Text.Respelt o.name p.name
  path : Text.Respelt o.path p.path

/-- The overlay with both its texts trimmed. -/
def trim (o : ComposeOverlay) : ComposeOverlay := ⟨Text.trim o.name, Text.trim o.path⟩

theorem Respelt.trim_eq {o p : ComposeOverlay} (h : o.Respelt p) : o.trim = p.trim := by
  rw [trim, trim, h.name.trim_eq, h.path.trim_eq]

theorem normalPaths_map_trim (i : Nat) (overlays : List ComposeOverlay) :
    normalPaths i (overlays.map fun o => { o with path := Text.trim o.path }) =
      normalPaths i overlays := by
  induction overlays generalizing i with
  | nil => rfl
  | cons o rest ih =>
    rw [List.map_cons, normalPaths, normalPaths, ih, normalPath_congr (Text.trim_trim o.path)]

/-- Overlays are sorted by their names alone, so their paths may be trimmed before or after. -/
theorem map_trim_sorted (overlays : List ComposeOverlay) :
    (sorted overlays).map (fun o => { o with path := Text.trim o.path }) =
      (overlays.map trim).mergeSort fun a b => decide (a.name ≤ b.name) := by
  unfold sorted
  refine (List.map_mergeSort (s := fun a b : ComposeOverlay => decide (a.name ≤ b.name)) ?_).trans ?_
  · exact fun _ _ _ _ => rfl
  · rw [List.map_map]
    rfl

theorem normalPaths_sorted_congr {overlays overlays' : List ComposeOverlay}
    (h : EntriesRespelt name Respelt overlays overlays') (i : Nat) :
    normalPaths i (sorted overlays) = normalPaths i (sorted overlays') := by
  rw [← normalPaths_map_trim, ← normalPaths_map_trim i (sorted overlays'), map_trim_sorted,
    map_trim_sorted, mergeSort_map_congr trim name (fun _ _ => Respelt.trim_eq) (fun _ => rfl) h]

end ComposeOverlay

namespace RenderComposeInputs

structure Respelt (r s : RenderComposeInputs) : Prop where
  environment : Text.Respelt r.environment s.environment
  basePath : Text.Respelt r.basePath s.basePath
  baseInline : Text.Respelt r.baseInline s.baseInline
  overlays : EntriesRespelt ComposeOverlay.name ComposeOverlay.Respelt r.overlays s.overlays
  assignments : PairsRespelt r.assignments s.assignments
  outputPath : Text.Respelt r.outputPath s.outputPath
  expectedHashAlgorithm : Text.Respelt r.expectedHashAlgorithm s.expectedHashAlgorithm
  expectedHash : Text.Respelt r.expectedHash s.expectedHash

theorem Respelt.normalize_eq {r s : RenderComposeInputs} (h : r.Respelt s) :
    normalize r = normalize s := by
  rw [RenderComposeInputs.normalize_eq, RenderComposeInputs.normalize_eq,
    ComposeOverlay.normalPaths_sorted_congr h.overlays, pathOrEmpty_congr h.basePath.trim_eq,
    normalPath_congr h.outputPath.trim_eq, h.environment.trim_eq, h.baseInline.trim_eq,
    normalPairs_congr h.assignments, h.expectedHashAlgorithm.trim_eq, h.expectedHash.trim_eq]

end RenderComposeInputs

/-! ### Rollouts -/

namespace RolloutInputs

structure Respelt (r s : RolloutInputs) : Prop where
  mode : Text.Respelt r.mode s.mode
  batchSize : r.batchSize = s.batchSize
  targets : TextsRespelt r.targets s.targets

theorem Respelt.normalize_eq {r s : RolloutInputs} (h : r.Respelt s) :
    normalize r = normalize s := by
  rw [normalize, normalize, h.mode.trim_eq, h.batchSize, normalList_congr h.targets]

end RolloutInputs

/-! ### Health checks -/

namespace HealthEndpoint

structure Respelt (e f : HealthEndpoint) : Prop where
  name : Text.Respelt e.name f.name
  url : Text.Respelt e.url f.url
  expectedStatus : e.expectedStatus = f.expectedStatus
  method : Text.Respelt e.method f.method
  headers : PairsRespelt e.headers f.headers

theorem Respelt.normal_eq {e f : HealthEndpoint} (h : e.Respelt f) : e.normal = f.normal := by
  rw [normal, normal, h.name.trim_eq, h.url.trim_eq, h.expectedStatus, h.method.trim_eq,
    normalPairs_congr h.headers]

end HealthEndpoint

namespace HealthCheckInputs

structure Respelt (h k : HealthCheckInputs) : Prop where
  environment : Text.Respelt h.environment k.environment
  endpoints : EntriesRespelt HealthEndpoint.name HealthEndpoint.Respelt h.endpoints k.endpoints
  services : TextsRespelt h.services k.services
  timeoutSeconds : h.timeoutSeconds = k.timeoutSeconds
  intervalSeconds : h.intervalSeconds = k.intervalSeconds
  retries : h.retries = k.retries

theorem Respelt.normalize_eq {h k : HealthCheckInputs} (hr : h.Respelt k) :
    normalize h = normalize k := by
  have hendpoints : HealthEndpoint.sorted h.endpoints = HealthEndpoint.sorted k.endpoints :=
    mergeSort_map_congr HealthEndpoint.normal HealthEndpoint.name
      (fun _ _ => HealthEndpoint.Respelt.normal_eq) (fun _ => rfl) hr.endpoints
  rw [normalize, normalize, hr.environment.trim_eq, hendpoints, normalList_congr hr.services,
    hr.timeoutSeconds, hr.intervalSeconds, hr.retries]

end HealthCheckInputs

/-! ### All forms -/

/--
Encoding gives one document to all spellings of the same inputs, or refuses all of them for
the same reason.  It gives one document to inputs that settle to the same, and to no others.
-/
structure CanonicalForm {α : Type} [StepInputs α] (Respelt : α → α → Prop) : Prop where
  respelt : ∀ inputs inputs' : α, Respelt inputs inputs' →
    encodeInputs inputs = encodeInputs inputs'
  settled : ∀ inputs inputs' : α, encodeInputs inputs = encodeInputs inputs' ↔
    settleInputs inputs = settleInputs inputs'

section

variable {α : Type} [StepInputs α]

theorem encodeInputs_eq_map (inputs : α) : encodeInputs inputs =
    (settleInputs inputs).map fun settled => ⟨(StepInputs.shape.write settled).compact⟩ := by
  unfold encodeInputs
  cases settleInputs inputs <;> rfl

variable [PathFields α] [LawfulInputs α]

/-- Inputs with one document are the same, since it is decoded to both. -/
theorem eq_of_compact_eq {a b : α}
    (h : (StepInputs.shape.write a).compact = (StepInputs.shape.write b).compact) : a = b := by
  have ha := decodeStrict_compact LawfulInputs.lawful (LawfulInputs.valid a)
  rw [h, decodeStrict_compact LawfulInputs.lawful (LawfulInputs.valid b)] at ha
  exact (Except.ok.inj ha).symm

theorem CanonicalForm.of_normalize_eq {Respelt : α → α → Prop}
    (h : ∀ inputs inputs', Respelt inputs inputs' →
      StepInputs.normalize inputs = StepInputs.normalize inputs') : CanonicalForm Respelt := by
  refine ⟨fun inputs inputs' hrespelt => ?_, fun inputs inputs' => ?_⟩
  · rw [encodeInputs, encodeInputs, settleInputs, settleInputs, h _ _ hrespelt]
  · rw [encodeInputs_eq_map, encodeInputs_eq_map]
    cases settleInputs inputs with
    | error e => cases settleInputs inputs' <;> simp [Except.map]
    | ok a =>
      cases settleInputs inputs' with
      | error e => simp [Except.map]
      | ok b =>
        simp only [Except.map, Except.ok.injEq, Payload.mk.injEq]
        exact ⟨eq_of_compact_eq, fun hab => hab ▸ rfl⟩

end

/-- **Encoded inputs of every form are a canonical form of what was given.** -/
theorem encodeInputs_canonicalForm :
    CanonicalForm BuildInputs.Respelt ∧ CanonicalForm MigrateInputs.Respelt ∧
      CanonicalForm ApplyComposeInputs.Respelt ∧ CanonicalForm RenderComposeInputs.Respelt ∧
        CanonicalForm RolloutInputs.Respelt ∧ CanonicalForm HealthCheckInputs.Respelt :=
  ⟨.of_normalize_eq fun _ _ => BuildInputs.Respelt.normalize_eq,
    .of_normalize_eq fun _ _ => MigrateInputs.Respelt.normalize_eq,
    .of_normalize_eq fun _ _ => ApplyComposeInputs.Respelt.normalize_eq,
    .of_normalize_eq fun _ _ => RenderComposeInputs.Respelt.normalize_eq,
    .of_normalize_eq fun _ _ => RolloutInputs.Respelt.normalize_eq,
    .of_normalize_eq fun _ _ => HealthCheckInputs.Respelt.normalize_eq⟩

/-- A health check as it is settled. -/
def HealthCheckInputs.tidy : HealthCheckInputs :=
  ⟨"prod", [⟨"api", "http://a", ⟨204, by decide⟩, "HEAD", []⟩,
    ⟨"web", "http://w", ⟨200, by decide⟩, "GET", [⟨"A", "1"⟩, ⟨"B", ""⟩]⟩], [], none, none, none⟩

/-- The same health check with blanks, and with endpoints and headers the other way round. -/
def HealthCheckInputs.untidy : HealthCheckInputs :=
  ⟨" prod\n", [⟨"\u3000web", "http://w\t", ⟨200, by decide⟩, "GET", [⟨"B\u00a0", " "⟩, ⟨"A", "1"⟩]⟩,
    ⟨"api", " http://a", ⟨204, by decide⟩, "HEAD ", []⟩], [], none, none, none⟩

theorem HealthCheckInputs.respelt_untidy : untidy.Respelt tidy := by
  have hheaders : PairsRespelt [⟨"B\u00a0", " "⟩, ⟨"A", "1"⟩] [⟨"A", "1"⟩, ⟨"B", ""⟩] := by
    refine ⟨[⟨"B", ""⟩, ⟨"A", "1"⟩], ?_, .inr ⟨.swap _ _ _, by decide +kernel⟩⟩
    simp only [List.forall₂_cons, List.forall₂_nil_left_iff, and_true]
    constructor <;> constructor <;> exact Text.respelt_iff.mpr (by decide +kernel)
  have hnone : PairsRespelt [] [] := ⟨[], .nil, .inl rfl⟩
  refine ⟨Text.respelt_iff.mpr (by decide +kernel), ?_, ⟨[], .nil, .nil⟩, rfl, rfl, rfl⟩
  refine ⟨tidy.endpoints.reverse, ?_, .inr ⟨.swap _ _ _, by decide +kernel⟩⟩
  refine .cons ⟨?_, ?_, rfl, ?_, hheaders⟩ (.cons ⟨?_, ?_, rfl, ?_, hnone⟩ .nil) <;>
    exact Text.respelt_iff.mpr (by decide +kernel)

/-- Both are encoded, and to the same payload. -/
theorem encodeInputs_canonicalForm_of_untidy : ∃ payload,
    encodeInputs HealthCheckInputs.untidy = .ok payload ∧
      encodeInputs HealthCheckInputs.tidy = .ok payload := by
  obtain ⟨-, -, -, -, -, hcanonical⟩ := encodeInputs_canonicalForm
  have hsorted : HealthEndpoint.sorted HealthCheckInputs.tidy.endpoints =
      HealthCheckInputs.tidy.endpoints := by
    have hheaders : normalPairs [⟨"A", "1"⟩, ⟨"B", ""⟩] = [⟨"A", "1"⟩, ⟨"B", ""⟩] :=
      mergeSort_by_eq_of_pairwise KeyValue.key (by decide +kernel) (by decide +kernel)
    refine mergeSort_by_eq_of_pairwise HealthEndpoint.name ?_ (by decide +kernel)
    rw [HealthCheckInputs.tidy]
    simp only [List.map_cons, List.map_nil, HealthEndpoint.normal, hheaders]
    decide +kernel
  have hsettle : settleInputs HealthCheckInputs.tidy = .ok HealthCheckInputs.tidy := by
    refine settleInputs_eq_ok_iff.mpr ⟨?_, by decide +kernel⟩
    show HealthCheckInputs.normalize _ = _
    rw [HealthCheckInputs.normalize, hsorted]
    decide +kernel
  have hencode := encodeInputs_eq_ok_iff.mpr ⟨_, hsettle, rfl⟩
  exact ⟨_, (hcanonical.respelt _ _ HealthCheckInputs.respelt_untidy).trans hencode, hencode⟩

end FleetPlan
