import Dispatch.Decimal.Layout
import Dispatch.Selection
import Dispatch.Summary
import Dispatch.Timings

/-! # Tables of jobs and executors

Plain text tables with a heading and one line per row.  Jobs are ordered by name and then by id,
executors stay in their order.  A column is filled with blanks up to its width, which counts
characters; a text that is too long is kept whole.
-/

namespace Dispatch

/-- As many blanks as `s` lacks to `width` characters. -/
def filler (width : Nat) (s : String) : String :=
  String.ofList (List.replicate (width - s.length) ' ')

/-- The text at the left of its column. -/
def alignLeft (width : Nat) (s : String) : String := s ++ filler width s

/-- The text at the right of its column. -/
def alignRight (width : Nat) (s : String) : String := filler width s ++ s

/-- A duration in seconds with one place behind the point. -/
def secondsText (d : Duration) : String := fixedOne d.toSeconds ++ "s"

/-- One line of a table of jobs. -/
def jobLine (name executor : String) (figures : List String) (starts : String) : String :=
  " ".intercalate
    ([alignLeft 16 name, alignLeft 12 executor] ++ figures.map (alignRight 9) ++
      [alignRight 6 starts]) ++ "\n"

/-- The heading of a table of jobs. -/
def jobHeading : String :=
  jobLine "JOB" "EXECUTOR" ["KNOWN", "EXISTED", "STARTING", "RUNNING", "ENDING", "GONE"] "STARTS"

/-- The line of a job; a job without a name goes by its id. -/
def jobRow (id : String) (t : Timings) : String :=
  jobLine (if t.jobName.isEmpty then id else t.jobName) t.executorName
    ([t.known, t.existed, t.started, t.ran, t.ended, t.gone].map secondsText)
    (toString t.startCount)

/-- Whether a job comes before another in a table. -/
def listedBefore (a b : String × Timings) : Bool :=
  a.2.jobName < b.2.jobName || (a.2.jobName == b.2.jobName && a.1 ≤ b.1)

/-- The table of jobs. -/
def jobTable (jobs : List (String × Timings)) : String :=
  jobHeading ++ String.join ((lineUp listedBefore jobs).map fun (id, t) => jobRow id t)

/-- One line of a table of executors. -/
def executorLine (name load capacity alive paused starting running stopping : String) : String :=
  " ".intercalate
    [alignLeft 12 name, alignRight 8 load, alignRight 8 capacity, alignRight 6 alive,
      alignRight 6 paused, alignRight 9 starting, alignRight 8 running, alignRight 8 stopping] ++
    "\n"

/-- The heading of a table of executors. -/
def executorHeading : String :=
  executorLine "EXECUTOR" "LOAD" "CAPACITY" "ALIVE" "PAUSED" "STARTING" "RUNNING" "STOPPING"

/-- The line of an executor. -/
def executorRow (e : ExecutorSummary Float) : String :=
  executorLine e.name (fixedOne e.load) (fixedOne e.capacity) (toString e.alive)
    (toString e.paused) (toString e.starting) (toString e.running) (toString e.stopping)

/-- The table of executors. -/
def executorTable (executors : List (ExecutorSummary Float)) : String :=
  executorHeading ++ String.join (executors.map executorRow)

end Dispatch
