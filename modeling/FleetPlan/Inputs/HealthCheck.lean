/-
Inputs of a health check.

Either endpoints or services are looked at, never both.
-/
import FleetPlan.Inputs.Basic

namespace FleetPlan

open Json

structure HealthEndpoint where
  name : String
  url : String
  expectedStatus : IntIn .unsigned16
  method : String
  headers : List KeyValue
  deriving DecidableEq, Repr, Inhabited

namespace HealthEndpoint

def shape : Shape HealthEndpoint :=
  .record "HealthEndpoint" true
    (.field "name" .required .text <|
     .field "url" .required .text <|
     .field "expected_status" .required (.integer .unsigned16) <|
     .field "method" .required .text <|
     .field "headers" .unlessNil (.list KeyValue.shape) .done)
    (fun (name, url, expectedStatus, method, headers, ()) =>
      ⟨name, url, expectedStatus, method, headers⟩)
    (fun e => (e.name, e.url, e.expectedStatus, e.method, e.headers, ()))

def normal (e : HealthEndpoint) : HealthEndpoint :=
  ⟨Text.trim e.name, Text.trim e.url, e.expectedStatus, Text.trim e.method, normalPairs e.headers⟩

/-- The endpoints in their normal form and by name, equal names in their order. -/
def sorted (endpoints : List HealthEndpoint) : List HealthEndpoint :=
  (endpoints.map normal).mergeSort fun a b => decide (a.name ≤ b.name)

def validate (e : HealthEndpoint) : Except InputsError Unit := do
  requireText "endpoints.name" e.name
  requireText "endpoints.url" e.url
  demand "endpoints.expected_status" (e.expectedStatus.val != 0) .zero
  requireText "endpoints.method" e.method
  requireKeys "endpoints.headers" e.headers

end HealthEndpoint

structure HealthCheckInputs where
  environment : String
  endpoints : List HealthEndpoint
  services : List String
  timeoutSeconds : Option (IntIn .signed64)
  intervalSeconds : Option (IntIn .signed64)
  retries : Option (IntIn .signed64)
  deriving DecidableEq, Repr, Inhabited

namespace HealthCheckInputs

def shape : Shape HealthCheckInputs :=
  .record "HealthCheckInputs" true
    (.field "environment" .required .text <|
     .field "endpoints" .unlessNil (.list HealthEndpoint.shape) <|
     .field "services" .unlessNil .texts <|
     .field "timeout_seconds" .unlessNone (.nullable (.integer .signed64)) <|
     .field "interval_seconds" .unlessNone (.nullable (.integer .signed64)) <|
     .field "retries" .unlessNone (.nullable (.integer .signed64)) .done)
    (fun (environment, endpoints, services, timeoutSeconds, intervalSeconds, retries, ()) =>
      ⟨environment, endpoints, services, timeoutSeconds, intervalSeconds, retries⟩)
    (fun h => (h.environment, h.endpoints, h.services, h.timeoutSeconds, h.intervalSeconds,
      h.retries, ()))

def normalize (h : HealthCheckInputs) : Except InputsError HealthCheckInputs :=
  .ok { h with
    environment := Text.trim h.environment
    endpoints := HealthEndpoint.sorted h.endpoints
    services := normalList h.services }

def validate (h : HealthCheckInputs) : Except InputsError Unit := do
  requireText "environment" h.environment
  requireExactlyOne "endpoints" (!h.endpoints.isEmpty) (!h.services.isEmpty) "endpoints" "services"
  requirePositive "timeout_seconds" h.timeoutSeconds
  requirePositive "interval_seconds" h.intervalSeconds
  demand "retries" (!h.retries.any (·.val < 0)) .negative
  requireEntries "services" h.services
  h.endpoints.forM HealthEndpoint.validate

instance : StepInputs HealthCheckInputs := ⟨.healthCheck, shape, normalize, validate⟩

end HealthCheckInputs

end FleetPlan
