/-
Managed resources and snapshots of them.

A resource is known by its reference.  A snapshot lists resources, as they should
be (a topology) or as they were found (a state); the two have the same members.
In canonical form a snapshot lists them by kind, name, provider and namespace,
those with equal references in the order they had.
-/
import FleetPlan.Json.Record

namespace FleetPlan

open Json

/-- What identifies a resource. -/
structure ResourceRef where
  kind : String
  name : String
  provider : String
  namespaceName : String
  deriving DecidableEq, Repr, Inhabited

namespace ResourceRef

/-- The reference of no resource: every part is empty. -/
def blank : ResourceRef := ⟨"", "", "", ""⟩

def display (r : ResourceRef) : String :=
  if r.namespaceName.isEmpty then r.provider ++ "/" ++ r.kind ++ "." ++ r.name
  else r.provider ++ "/" ++ r.namespaceName ++ "." ++ r.kind ++ "." ++ r.name

/-- The parts by which references are compared, the first one first. -/
def key (r : ResourceRef) : List String := [r.kind, r.name, r.provider, r.namespaceName]

/-- Whether texts stand before others, the first difference deciding, or are equal to them. -/
def textsLe : List String → List String → Bool
  | [], _ => true
  | _ :: _, [] => false
  | s :: ss, t :: ts => s < t || (s == t && textsLe ss ts)

/-- Whether the first reference stands before the second, or is equal to it. -/
def le (a b : ResourceRef) : Bool := textsLe a.key b.key

def sort (rs : List ResourceRef) : List ResourceRef := rs.mergeSort le

def shape : Shape ResourceRef :=
  .record "ResourceRef" true
    (.field "kind" .required .text <|
     .field "name" .required .text <|
     .field "provider" .required .text <|
     .field "namespace" .unlessEmpty .text .done)
    (fun (kind, name, provider, namespaceName, ()) => ⟨kind, name, provider, namespaceName⟩)
    (fun r => (r.kind, r.name, r.provider, r.namespaceName, ()))

end ResourceRef

/-- A resource with its data, which only its provider understands. -/
structure Resource where
  ref : ResourceRef
  data : Option Payload
  annotations : Annotations
  deriving Inhabited

/-- Resources as they should be, or as they are. -/
inductive SnapshotKind where
  | topology
  | state
  deriving DecidableEq, Repr

namespace SnapshotKind

def resourceName : SnapshotKind → String
  | topology => "ResourceSpec"
  | state => "ResourceState"

def snapshotName : SnapshotKind → String
  | topology => "TopologySnapshot"
  | state => "StateSnapshot"

end SnapshotKind

/-- The resources of one moment. -/
structure Snapshot (kind : SnapshotKind) where
  version : String
  annotations : Annotations
  resources : List Resource

namespace Resource

def shape (kind : SnapshotKind) : Shape Resource :=
  .record kind.resourceName true
    (.field "ref" .required ResourceRef.shape <|
     .field "data" (.optional none) (.nullable .payload) <|
     .field "meta" .unlessBare .annotations .done)
    (fun (ref, data, annotations, ()) => ⟨ref, data, annotations⟩)
    (fun r => (r.ref, r.data, r.annotations, ()))

end Resource

namespace Snapshot

variable {kind : SnapshotKind}

/-- The snapshot with its resources in canonical order. -/
def canonical (s : Snapshot kind) : Snapshot kind :=
  { s with resources := s.resources.mergeSort fun a b => a.ref.le b.ref }

def shape (kind : SnapshotKind) : Shape (Snapshot kind) :=
  .record kind.snapshotName true
    (.field "version" .required .text <|
     .field "meta" .unlessBare .annotations <|
     .field "resources" .required (.list (Resource.shape kind)) .done)
    (fun (version, annotations, resources, ()) => ⟨version, annotations, resources⟩)
    (fun s => (s.version, s.annotations, s.resources, ()))

end Snapshot

end FleetPlan
