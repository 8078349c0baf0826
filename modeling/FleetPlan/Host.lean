/-
Hosts.

A host is known by its logical id.  The empty id is no host: it marks work that
belongs to the fleet as a whole, which is called global.
-/
import FleetPlan.Json.Record

namespace FleetPlan

open Json

structure Host where
  id : String
  labels : Annotations
  deriving DecidableEq, Inhabited

namespace Host

def named (id : String) : Host := ⟨id, .empty⟩

/-- Where global work is said to be done. -/
def fleet : Host := named ""

def isGlobal (h : Host) : Bool := h.id.isEmpty

def shape : Shape Host :=
  .record "HostRef" true
    (.field "logicalId" .required .text <|
     .field "labels" .unlessBare .annotations .done)
    (fun (id, labels, ()) => ⟨id, labels⟩)
    (fun h => (h.id, h.labels, ()))

end Host

end FleetPlan
