import Dispatch.Selection
import Dispatch.Summary
import Dispatch.Text.Json
import Dispatch.Timings

/-! # Documents about jobs and executors

The fields of a job's time accounts and of an executor's summary, in their fixed order.  Durations
are given in seconds.
-/

namespace Dispatch

/-- A duration in seconds. -/
def secondsJson (d : Duration) : Json := .float d.toSeconds

namespace Timings

/-- The fields of the time accounts of a job. -/
def fields (t : Timings) : List (String × Json) :=
  [("known", secondsJson t.known),
    ("gone", secondsJson t.gone),
    ("existed", secondsJson t.existed),
    ("started", secondsJson t.started),
    ("ended", secondsJson t.ended),
    ("runned", secondsJson t.ran),
    ("start_count", .nat t.startCount),
    ("job_name", .text t.jobName),
    ("executor_name", .text t.executorName)]

/-- The document of the time accounts of a job. -/
def toJson (t : Timings) : Json := .object t.fields

end Timings

/-- The document of a summary of an executor. -/
def ExecutorSummary.toJson (e : ExecutorSummary Float) : Json :=
  .object
    [("id", .text e.id),
      ("name", .text e.name),
      ("capacity", .float e.capacity),
      ("load", .float e.load),
      ("paused", .bool e.paused),
      ("alive", .bool e.alive),
      ("starting", .nat e.starting),
      ("running", .nat e.running),
      ("stopping", .nat e.stopping)]

/-- The document of a list of executors. -/
def executorsJson (executors : List (ExecutorSummary Float)) : Json :=
  .array (executors.map (·.toJson))

/-- The document of a list of jobs, ordered by id. -/
def jobsJson (jobs : List (String × Timings)) : Json :=
  .array ((lineUp (fun a b => a.1 ≤ b.1) jobs).map fun (id, t) =>
    .object (("id", .text id) :: t.fields))

end Dispatch
