import Dispatch.Report.Documents
import Dispatch.Scheduler.Basic

/-! # The dashboard

Three read-only routes answer with documents: the jobs, the executors, and how the scheduler is.
Whatever follows a question mark in a path is ignored.
-/

namespace Dispatch

/-- The answer to a request for a page. -/
structure Response where
  status : Nat
  body : String := ""

/-- A page of the dashboard. -/
inductive Route
  | jobs
  | executors
  | health
deriving DecidableEq, Repr

namespace Route

/-- The route of a path, if it is one. -/
def ofPath? (path : String) : Option Route :=
  match String.ofList (path.toList.takeWhile (· ≠ '?')) with
  | "/api/jobs" => some .jobs
  | "/api/executors" => some .executors
  | "/api/health" => some .health
  | _ => none

end Route

/-- How the scheduler is: whether it is asked to shut down, the number of jobs that are not gone,
and the number of executors, all of them and those alive. -/
def healthJson (draining : Bool) (jobs : List (String × Timings))
    (executors : List (ExecutorSummary Float)) : Json :=
  .object
    [("status", .text (if draining then "draining" else "ok")),
      ("jobs", .nat (jobs.countP (·.2.phase?.isSome))),
      ("executors", .nat executors.length),
      ("alive_executors", .nat (executors.countP (·.alive)))]

/-- The page of a route. -/
def Route.page (route : Route) (draining : Bool) (jobs : List (String × Timings))
    (executors : List (ExecutorSummary Float)) : Json :=
  match route with
  | .jobs => jobsJson jobs
  | .executors => executorsJson executors
  | .health => healthJson draining jobs executors

/-- Answer a request: pages can be got, or asked for without their body; other methods are refused,
and so are other paths. -/
def respond (method path : String) (draining : Bool) (jobs : List (String × Timings))
    (executors : List (ExecutorSummary Float)) : Response :=
  match Route.ofPath? path, method with
  | none, _ => { status := 404 }
  | some route, "GET" =>
    { status := 200, body := (route.page draining jobs executors).compact }
  | some _, "HEAD" => { status := 200 }
  | some _, _ => { status := 405 }

end Dispatch
