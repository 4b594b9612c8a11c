import Tarkib.Service

/-!
# The management server

The management server answers requests for the health, the metrics, the figures and the breakers of
a service.
-/

namespace Tarkib.Management

/-- An answer to a request. -/
structure Response where
  status : Nat
  contentType : String
  body : String
  deriving Repr, DecidableEq, Inhabited

/-- An answer with a short text. -/
def Response.text (status : Nat) (body : String) : Response :=
  ⟨status, "text/plain; charset=utf-8", body⟩

def Response.document (status : Nat) (v : Json.Value) : Response :=
  ⟨status, "application/json", v.renderLines⟩

/-- The path of a request, without what is asked of it. -/
def pathPart (target : String) : String :=
  String.ofList (target.toList.takeWhile fun c => c ≠ '?' && c ≠ '#')

/-- The answer about the health of a service. -/
def healthResponse (report : Health.Report) : Response :=
  .document (if report.status = .unhealthy then 503 else 200) report.document

def metricsText (s : Service) : String :=
  (s.loader.metrics.map Metrics.render).getD ""

def breakersDocument (s : Service) (now : Nat) : Json.Value :=
  .array (((s.loader.breakers.map (·.statuses now)).getD []).map Breakers.Status.document)

/-- Answers a request. A panic ends the connection without an answer. -/
def respond (s : Service) (project : Project) (now : Nat) (memory : Option Nat)
    (method target : String) : Service × Except Health.Panic Response :=
  if method ≠ "GET" then
    (s, .ok (.text 405 (if method = "HEAD" then "" else "method not allowed\n")))
  else
    match pathPart target with
    | "/health" =>
      let (s, report) := s.health project now memory
      (s, report.map healthResponse)
    | "/metrics" => (s, .ok ⟨200, "text/plain; version=0.0.4", metricsText s⟩)
    | "/statistics" => (s, .ok (.document 200 (s.statistics now).document))
    | "/circuit-breakers" => (s, .ok (.document 200 (breakersDocument s now)))
    | _ => (s, .ok (.text 404 "not found\n"))

end Tarkib.Management
