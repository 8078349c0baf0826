/-
What inputs that were decoded can be relied on for.

Decoding ends in the normal form and in its check, so each rule is owed to one of the two:
that lists stand in order and that paths are proper to the normal form, that what has to be
given is there and that choices are consistent to the check.  The check looks at what is
already trimmed, and so a text of nothing but blanks does not pass for one that was given.
An optional path is a proper path when it is given at all.
-/
import FleetPlan.Proofs.Inputs

namespace FleetPlan

open Json

/-! ### What the checks demand -/

section

variable {field : String}

theorem andThen_eq_ok_iff {ε : Type} {x y : Except ε Unit} :
    (do x; y) = .ok () ↔ x = .ok () ∧ y = .ok () := by
  rw [bind_eq_ok_iff]
  exact ⟨fun ⟨_, hx, hy⟩ => ⟨hx, hy⟩, fun ⟨hx, hy⟩ => ⟨(), hx, hy⟩⟩

theorem demand_eq_ok_iff {holds : Bool} {fault : FieldFault} :
    demand field holds fault = .ok () ↔ holds = true := by
  unfold demand
  split <;> simp_all

theorem requireText_eq_ok_iff {value : String} :
    requireText field value = .ok () ↔ value ≠ "" := by
  rw [requireText, demand_eq_ok_iff]
  simp

theorem requireEntries_eq_ok_iff {items : List String} :
    requireEntries field items = .ok () ↔ ∀ s ∈ items, s ≠ "" := by
  rw [requireEntries, demand_eq_ok_iff]
  simp

theorem requireKeys_eq_ok_iff {pairs : List KeyValue} :
    requireKeys field pairs = .ok () ↔ ∀ p ∈ pairs, p.key ≠ "" := by
  rw [requireKeys, demand_eq_ok_iff]
  simp

theorem requirePositive_eq_ok_iff {n : Option (IntIn .signed64)} :
    requirePositive field n = .ok () ↔ ∀ i ∈ n, 0 ≤ i.val := by
  rw [requirePositive, demand_eq_ok_iff]
  cases n <;> simp

theorem requireExactlyOne_eq_ok_iff {hasFirst hasSecond : Bool} {first second : String} :
    requireExactlyOne field hasFirst hasSecond first second = .ok () ↔
      Xor (hasFirst = true) (hasSecond = true) := by
  rw [requireExactlyOne, demand_eq_ok_iff]
  cases hasFirst <;> cases hasSecond <;> simp [Xor]

/-- A hash is expected by algorithm and digits, or not at all. -/
def ExpectedHash (algorithm hash : String) : Prop :=
  algorithm = "" ∧ hash = "" ∨ algorithm = "sha256" ∧ hash.toList.length = 64 ∧
    ∀ c ∈ hash.toList, '0' ≤ c ∧ c ≤ '9' ∨ 'a' ≤ c ∧ c ≤ 'f'

theorem requireHash_eq_ok_iff {algorithm hash : String} :
    requireHash algorithm hash = .ok () ↔ ExpectedHash algorithm hash := by
  unfold requireHash ExpectedHash
  split
  · simp_all
  · rw [andThen_eq_ok_iff, demand_eq_ok_iff, demand_eq_ok_iff]
    simp_all [isHash, isLowerHexDigit, hashAlgorithm]

end

/-! ### What the normal forms bring about -/

/-- Entries in the order of their keys, no key being empty. -/
structure KeyedBy {α : Type} (key : α → String) (entries : List α) : Prop where
  sorted : entries.Pairwise fun a b => key a ≤ key b
  filled : ∀ e ∈ entries, key e ≠ ""

theorem normalList_sorted (items : List String) :
    (normalList items).Pairwise fun a b => id a ≤ id b :=
  (pairwise_mergeSort_by id _).imp of_decide_eq_true

theorem normalPairs_sorted (pairs : List KeyValue) :
    (normalPairs pairs).Pairwise fun a b => a.key ≤ b.key :=
  (pairwise_mergeSort_by KeyValue.key _).imp of_decide_eq_true

theorem isProper_of_normalPath {field raw p : String} (h : normalPath field raw = .ok p) :
    RelativePath.IsProper p :=
  RelativePath.isProper_of_normalize (normalPath_eq_ok_iff.mp h)

/-- A path that may be missing is proper if it is there. -/
theorem isProper_of_pathOrEmpty {field raw p : String}
    (h : BuildInputs.pathOrEmpty field raw = .ok p) (hp : p ≠ "") : RelativePath.IsProper p := by
  unfold BuildInputs.pathOrEmpty at h
  dsimp only at h
  split at h
  · rename_i hempty
    cases h
    exact absurd (String.isEmpty_iff.mp hempty) hp
  · exact isProper_of_normalPath h

/-- What is decoded has been settled. -/
theorem of_decodeInputs {α : Type} [StepInputs α] {P : α → Prop}
    (h : ∀ inputs settled : α, StepInputs.normalize inputs = .ok settled →
      StepInputs.validate settled = .ok () → P settled)
    {payload : Option Payload} {settled : α} (hdecode : decodeInputs α payload = .ok settled) :
    P settled := by
  unfold decodeInputs at hdecode
  split at hdecode
  · cases hdecode
  · split at hdecode
    · cases hdecode
    · rename_i inputs _
      obtain ⟨hnormal, hvalid⟩ := settleInputs_eq_ok_iff.mp hdecode
      exact h inputs settled hnormal hvalid

/-! ### Builds -/

namespace BuildInputs

structure MeetsRules (b : BuildInputs) : Prop where
  filled : ∀ s ∈ [b.provider, b.workdir, b.dockerfile, b.context], s ≠ ""
  paths : ∀ p ∈ [b.workdir, b.dockerfile, b.context], RelativePath.IsProper p
  tags : KeyedBy id b.tags
  buildArgs : KeyedBy KeyValue.key b.buildArgs
  labels : KeyedBy KeyValue.key b.labels

theorem meetsRules {b settled : BuildInputs} (hnormal : normalize b = .ok settled)
    (hvalid : validate settled = .ok ()) : settled.MeetsRules := by
  simp only [validate, andThen_eq_ok_iff, requireText_eq_ok_iff, requireEntries_eq_ok_iff,
    requireKeys_eq_ok_iff] at hvalid
  obtain ⟨hprovider, hworkdir, hdockerfile, hcontext, htags, hbuildArgs, hlabels⟩ := hvalid
  simp only [normalize, bind_eq_ok_iff, pure_eq_ok_iff] at hnormal
  obtain ⟨workdir, hworkdir', dockerfile, hdockerfile', context, hcontext', rfl⟩ := hnormal
  refine ⟨?_, ?_, ⟨normalList_sorted _, htags⟩, ⟨normalPairs_sorted _, hbuildArgs⟩,
    ⟨normalPairs_sorted _, hlabels⟩⟩
  · simp [hprovider, hworkdir, hdockerfile, hcontext]
  · simp [isProper_of_pathOrEmpty hworkdir' hworkdir,
      isProper_of_pathOrEmpty hdockerfile' hdockerfile,
      isProper_of_pathOrEmpty hcontext' hcontext]

end BuildInputs

/-! ### Migrations -/

namespace MigrateInputs

structure MeetsRules (m : MigrateInputs) : Prop where
  filled : ∀ s ∈ [m.database, m.strategy, m.engine, m.path, m.connEnv], s ≠ ""
  path : RelativePath.IsProper m.path
  timeoutSeconds : ∀ n ∈ m.timeoutSeconds, 0 ≤ n.val

theorem meetsRules {m settled : MigrateInputs} (hnormal : normalize m = .ok settled)
    (hvalid : validate settled = .ok ()) : settled.MeetsRules := by
  simp only [validate, andThen_eq_ok_iff, requireText_eq_ok_iff, requirePositive_eq_ok_iff]
    at hvalid
  obtain ⟨hdatabase, hstrategy, hengine, hpath, hconnEnv, htimeout⟩ := hvalid
  simp only [normalize, bind_eq_ok_iff, pure_eq_ok_iff] at hnormal
  obtain ⟨path, hpath', rfl⟩ := hnormal
  refine ⟨?_, isProper_of_normalPath hpath', htimeout⟩
  simp [hdatabase, hstrategy, hengine, hpath, hconnEnv]

end MigrateInputs

/-! ### Compose files, applied -/

namespace ApplyComposeInputs

structure MeetsRules (a : ApplyComposeInputs) : Prop where
  filled : ∀ s ∈ [a.environment, a.composePath, a.projectName], s ≠ ""
  composePath : RelativePath.IsProper a.composePath
  pull : a.pull.isSome
  detach : a.detach.isSome
  services : KeyedBy id a.services
  expectedHash : ExpectedHash a.expectedHashAlgorithm a.expectedHash

theorem meetsRules {a settled : ApplyComposeInputs} (hnormal : normalize a = .ok settled)
    (hvalid : validate settled = .ok ()) : settled.MeetsRules := by
  simp only [validate, andThen_eq_ok_iff, requireText_eq_ok_iff, demand_eq_ok_iff,
    requireEntries_eq_ok_iff, requireHash_eq_ok_iff] at hvalid
  obtain ⟨henvironment, hpath, hproject, hpull, hdetach, hservices, hhash⟩ := hvalid
  simp only [normalize, bind_eq_ok_iff, pure_eq_ok_iff] at hnormal
  obtain ⟨path, hpath', rfl⟩ := hnormal
  refine ⟨?_, isProper_of_normalPath hpath', hpull, hdetach, ⟨normalList_sorted _, hservices⟩,
    hhash⟩
  simp [henvironment, hpath, hproject]

end ApplyComposeInputs

/-! ### Compose files, rendered -/

namespace ComposeOverlay

variable {overlays normal : List ComposeOverlay} {i : Nat}

theorem isProper_of_normalPaths (h : normalPaths i overlays = .ok normal) :
    ∀ o ∈ normal, RelativePath.IsProper o.path := by
  induction overlays generalizing i normal with
  | nil =>
    cases h
    simp
  | cons o rest ih =>
    obtain ⟨path, rest', hpath, hrest, rfl⟩ := normalPaths_cons_eq_ok_iff.mp h
    exact List.forall_mem_cons.mpr ⟨isProper_of_normalPath hpath, ih hrest⟩

/-- Paths are given their form where the overlays stand after sorting. -/
theorem normalPaths_sorted (h : normalPaths i (sorted overlays) = .ok normal) :
    normal.Pairwise fun a b => a.name ≤ b.name := by
  rw [← List.pairwise_map (f := name) (R := (· ≤ ·)), names_of_normalPaths h, List.pairwise_map]
  exact (pairwise_mergeSort_by name _).imp of_decide_eq_true

end ComposeOverlay

namespace RenderComposeInputs

structure MeetsRules (r : RenderComposeInputs) : Prop where
  filled : ∀ s ∈ r.environment :: r.outputPath :: r.overlays.map (·.path), s ≠ ""
  outputPath : RelativePath.IsProper r.outputPath
  /-- The base is a file or a text. -/
  base : Xor (r.basePath ≠ "") (r.baseInline ≠ "")
  basePath : r.basePath ≠ "" → RelativePath.IsProper r.basePath
  overlays : KeyedBy ComposeOverlay.name r.overlays
  overlayPaths : ∀ o ∈ r.overlays, RelativePath.IsProper o.path
  assignments : KeyedBy KeyValue.key r.assignments
  expectedHash : ExpectedHash r.expectedHashAlgorithm r.expectedHash

theorem meetsRules {r settled : RenderComposeInputs} (hnormal : normalize r = .ok settled)
    (hvalid : validate settled = .ok ()) : settled.MeetsRules := by
  simp only [validate, andThen_eq_ok_iff, requireText_eq_ok_iff, requireExactlyOne_eq_ok_iff,
    requireHash_eq_ok_iff, demand_eq_ok_iff, requireKeys_eq_ok_iff] at hvalid
  obtain ⟨henvironment, houtput, hbase, hhash, hnames, hassignments⟩ := hvalid
  simp only [normalize_eq, bind_eq_ok_iff, pure_eq_ok_iff] at hnormal
  obtain ⟨overlays, hoverlays, base, hbase', output, houtput', rfl⟩ := hnormal
  have hpaths := ComposeOverlay.isProper_of_normalPaths hoverlays
  refine ⟨?_, isProper_of_normalPath houtput', by simpa using hbase,
    isProper_of_pathOrEmpty hbase', ⟨ComposeOverlay.normalPaths_sorted hoverlays, ?_⟩, hpaths,
    ⟨normalPairs_sorted _, hassignments⟩, hhash⟩
  · simp only [List.forall_mem_cons, List.forall_mem_map]
    exact ⟨henvironment, houtput, fun o ho => (hpaths o ho).ne_empty⟩
  · simpa using hnames

end RenderComposeInputs

/-! ### Rollouts -/

namespace RolloutInputs

structure MeetsRules (r : RolloutInputs) : Prop where
  mode : r.mode ≠ ""
  batchSize : ∀ n ∈ r.batchSize, 0 ≤ n.val
  targets : KeyedBy id r.targets

theorem meetsRules {r settled : RolloutInputs} (hnormal : normalize r = .ok settled)
    (hvalid : validate settled = .ok ()) : settled.MeetsRules := by
  simp only [validate, andThen_eq_ok_iff, requireText_eq_ok_iff, requirePositive_eq_ok_iff,
    requireEntries_eq_ok_iff] at hvalid
  obtain ⟨hmode, hbatch, htargets⟩ := hvalid
  cases hnormal
  exact ⟨hmode, hbatch, normalList_sorted _, htargets⟩

end RolloutInputs

/-! ### Health checks -/

namespace HealthEndpoint

structure MeetsRules (e : HealthEndpoint) : Prop where
  filled : ∀ s ∈ [e.name, e.url, e.method], s ≠ ""
  expectedStatus : e.expectedStatus.val ≠ 0
  headers : KeyedBy KeyValue.key e.headers

variable {endpoints : List HealthEndpoint}

theorem meetsRules_of_mem_sorted {e : HealthEndpoint} (he : e ∈ sorted endpoints)
    (hvalid : e.validate = .ok ()) : e.MeetsRules := by
  simp only [validate, andThen_eq_ok_iff, requireText_eq_ok_iff, demand_eq_ok_iff,
    requireKeys_eq_ok_iff] at hvalid
  obtain ⟨hname, hurl, hstatus, hmethod, hheaders⟩ := hvalid
  obtain ⟨given, -, rfl⟩ := List.mem_map.mp ((List.mergeSort_perm _ _).mem_iff.mp he)
  refine ⟨?_, by simpa using hstatus, normalPairs_sorted _, hheaders⟩
  simp [hname, hurl, hmethod]

theorem forM_validate_eq_ok_iff :
    endpoints.forM validate = .ok () ↔ ∀ e ∈ endpoints, e.validate = .ok () := by
  induction endpoints with
  | nil => simp [List.forM, pure, Except.pure]
  | cons e rest ih =>
    show (do e.validate; rest.forM validate) = .ok () ↔ _
    rw [andThen_eq_ok_iff, ih, List.forall_mem_cons]

end HealthEndpoint

namespace HealthCheckInputs

structure MeetsRules (h : HealthCheckInputs) : Prop where
  environment : h.environment ≠ ""
  /-- Endpoints are looked at or services. -/
  target : Xor (h.endpoints ≠ []) (h.services ≠ [])
  endpoints : KeyedBy HealthEndpoint.name h.endpoints
  endpoint : ∀ e ∈ h.endpoints, e.MeetsRules
  services : KeyedBy id h.services
  counts : ∀ count ∈ [h.timeoutSeconds, h.intervalSeconds, h.retries], ∀ n ∈ count, 0 ≤ n.val

theorem meetsRules {h settled : HealthCheckInputs} (hnormal : normalize h = .ok settled)
    (hvalid : validate settled = .ok ()) : settled.MeetsRules := by
  simp only [validate, andThen_eq_ok_iff, requireText_eq_ok_iff, requireExactlyOne_eq_ok_iff,
    requirePositive_eq_ok_iff, demand_eq_ok_iff, requireEntries_eq_ok_iff,
    HealthEndpoint.forM_validate_eq_ok_iff] at hvalid
  obtain ⟨henvironment, htarget, htimeout, hinterval, hretries, hservices, hendpoints⟩ := hvalid
  cases hnormal
  have hrules e he := HealthEndpoint.meetsRules_of_mem_sorted he (hendpoints e he)
  refine ⟨henvironment, by simpa using htarget, ⟨?_, ?_⟩, hrules,
    ⟨normalList_sorted _, hservices⟩, ?_⟩
  · exact (pairwise_mergeSort_by HealthEndpoint.name _).imp of_decide_eq_true
  · exact fun e he => (hrules e he).filled _ List.mem_cons_self
  · simp only [List.forall_mem_cons]
    refine ⟨htimeout, hinterval, ?_, by simp⟩
    cases hcount : h.retries <;> simp_all

end HealthCheckInputs

/-! ### All forms -/

/-- **Whatever is decoded meets the rules of its form.** -/
theorem decodeInputs_meetsRules (payload : Option Payload) :
    (∀ b, decodeInputs BuildInputs payload = .ok b → b.MeetsRules) ∧
      (∀ m, decodeInputs MigrateInputs payload = .ok m → m.MeetsRules) ∧
      (∀ a, decodeInputs ApplyComposeInputs payload = .ok a → a.MeetsRules) ∧
      (∀ r, decodeInputs RenderComposeInputs payload = .ok r → r.MeetsRules) ∧
      (∀ r, decodeInputs RolloutInputs payload = .ok r → r.MeetsRules) ∧
      ∀ h, decodeInputs HealthCheckInputs payload = .ok h → h.MeetsRules :=
  ⟨fun _ => of_decodeInputs fun _ _ => BuildInputs.meetsRules,
    fun _ => of_decodeInputs fun _ _ => MigrateInputs.meetsRules,
    fun _ => of_decodeInputs fun _ _ => ApplyComposeInputs.meetsRules,
    fun _ => of_decodeInputs fun _ _ => RenderComposeInputs.meetsRules,
    fun _ => of_decodeInputs fun _ _ => RolloutInputs.meetsRules,
    fun _ => of_decodeInputs fun _ _ => HealthCheckInputs.meetsRules⟩

/-- A rendering with a path to mend, blanks, and overlays and assignments out of order. -/
def RenderComposeInputs.untidy : RenderComposeInputs :=
  ⟨" prod ", "apps\\web.yml", "", [⟨"z", "over//z.yml"⟩, ⟨" a", " . "⟩],
    [⟨"TAG", ""⟩, ⟨"HOST", "h "⟩], "out/", "sha256", String.ofList (List.replicate 64 'e')⟩

/-- The same rendering as it is settled. -/
def RenderComposeInputs.tidy : RenderComposeInputs :=
  ⟨"prod", "apps/web.yml", "", [⟨"a", "."⟩, ⟨"z", "over/z.yml"⟩],
    [⟨"HOST", "h"⟩, ⟨"TAG", ""⟩], "out", "sha256", String.ofList (List.replicate 64 'e')⟩

theorem RenderComposeInputs.settle_untidy : settleInputs untidy = .ok tidy := by
  have hoverlays : ComposeOverlay.sorted untidy.overlays =
      [⟨"a", " . "⟩, ⟨"z", "over//z.yml"⟩] :=
    mergeSort_by_eq_of_pairwise ComposeOverlay.name (by decide +kernel) (by decide +kernel)
  have hassignments : normalPairs untidy.assignments = tidy.assignments :=
    mergeSort_by_eq_of_pairwise KeyValue.key (by decide +kernel) (by decide +kernel)
  rw [settleInputs_eq_ok_iff]
  refine ⟨?_, by decide +kernel⟩
  show normalize untidy = .ok tidy
  unfold normalize
  rw [hoverlays, hassignments]
  decide +kernel

/-- The rendering as it comes in. -/
def RenderComposeInputs.untidyPayload : Payload :=
  ⟨((StepInputs.shape (α := RenderComposeInputs)).write untidy).compact⟩

/-- The rendering is accepted and tidied up, and then meets the rules. -/
theorem decodeInputs_meetsRules_of_untidy :
    decodeInputs RenderComposeInputs (some RenderComposeInputs.untidyPayload) =
        .ok RenderComposeInputs.tidy ∧
      RenderComposeInputs.tidy.MeetsRules := by
  have hdecode : decodeInputs RenderComposeInputs (some RenderComposeInputs.untidyPayload) =
      .ok RenderComposeInputs.tidy :=
    (decodeInputs_compact RenderComposeInputs.untidy).trans RenderComposeInputs.settle_untidy
  obtain ⟨-, -, -, hrules, -⟩ := decodeInputs_meetsRules (some RenderComposeInputs.untidyPayload)
  exact ⟨hdecode, hrules _ hdecode⟩

end FleetPlan
