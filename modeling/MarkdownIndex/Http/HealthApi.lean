import MarkdownIndex.Health
import MarkdownIndex.Http.SearchApi

/-!
# The health service of the watching process

* `Endpoint` — `/health`, `/metrics`, and `/` for what the service is.
* `respond` — the answer to a request. A report that is not healthy comes with status 503. The
  service is not open to pages of other origins.
-/

namespace MarkdownIndex.HealthApi

open Http Text

/-- What the service can be asked. -/
inductive Endpoint where
  /-- the whole report -/
  | health
  /-- counts of the store -/
  | metrics
  /-- what the service is -/
  | info
deriving DecidableEq, Repr

/-- The endpoint at a path. -/
def endpoint? : String → Option Endpoint
  | "/health" => some .health
  | "/metrics" => some .metrics
  | "/" => some .info
  | _ => none

/-- The report. -/
def health (h : HealthChecker) : Work Response := do
  let report ← h.check
  return .ofJson (if report.healthy then 200 else 503) report.toJson

/-- The counts of the store. -/
def metrics : Work Response := do
  match ← HealthChecker.metrics with
  | .error e => return .detail 500 ("Failed to get metrics: " ++ e.message)
  | .ok m => return .ofJson 200 m.toJson

/-- What the service is. -/
def info : Response :=
  .ofJson 200 (.object [
    ("service", .string "memory-store-processor"),
    ("version", .string version),
    ("endpoints", .array [.string "/health", .string "/metrics", .string "/"])])

/-- The answer of an endpoint. -/
def answer (h : HealthChecker) : Endpoint → Work Response
  | .health => health h
  | .metrics => metrics
  | .info => return info

/-- The answer to a request; none if its target cannot be read. -/
def respond (h : HealthChecker) (r : Request) : Option (Work Response) :=
  (Target.read? r.target).map fun t =>
    dispatch r.method (endpoint? t.path) (fun _ => .get) (answer h)

/-- The name of the task that runs the service. -/
def taskName : String := "health-server"

end MarkdownIndex.HealthApi
