import Dispatch.Config
import Dispatch.Registry.Basic

/-! # Invariants of the registry

`Registry.violation?` finds the first broken rule of a registry, if there is one.  The rules on the
shape of runs hold at all times, the limits on loads and counts once the planner has nothing left
to do.
-/

namespace Dispatch

/-- A broken rule. -/
inductive Violation (κ : Type)
  | countsDiffer (jobs runs : Nat)
  | wrongKey (key job : String)
  | noJob (key : String)
  | ranUnstarted (key : String)
  | startedNowhere (key : String)
  | removingUnstopped (key : String)
  | executorMissing (key executor : String)
  | overCapacity (executor : String) (load capacity : κ)
  | tooManyStarting (executor : String) (starting limit : Nat)
  | tooManyStarted (started limit : Nat)

variable {κ : Type} [Quantity κ]

/-- The wording of a broken rule. -/
def Violation.message : Violation κ → String
  | .countsDiffer jobs runs => s!"{jobs} jobs but {runs} runs"
  | .wrongKey key job => s!"run keyed {key} holds job {job}"
  | .noJob key => s!"run {key} has no job"
  | .ranUnstarted key => s!"run {key} ran without being started"
  | .startedNowhere key => s!"run {key} started without an executor"
  | .removingUnstopped key => s!"run {key} is removing but not stopping"
  | .executorMissing key executor => s!"run {key} is bound to missing executor {executor}"
  | .overCapacity executor load capacity =>
    "executor " ++ executor ++ " carries " ++ Quantity.text load ++ " over capacity " ++
      Quantity.text capacity
  | .tooManyStarting executor starting limit =>
    s!"executor {executor} has {starting} starting runs, limit {limit}"
  | .tooManyStarted started limit => s!"{started} runs started, limit {limit}"

namespace Registry

variable (r : Registry κ) (config : Config κ)

/-- The first rule that a run breaks. -/
def runViolation? (key : String) (run : Run κ) : Option (Violation κ) :=
  if run.job.id ≠ key then some (.wrongKey key run.job.id)
  else if !r.jobs.contains key then some (.noJob key)
  else if run.ranAt.isSome && run.startedAt.isNone then some (.ranUnstarted key)
  else if run.startedAt.isSome && run.executor.isNone then some (.startedNowhere key)
  else if run.removing && !run.stopping then some (.removingUnstopped key)
  else
    match run.executor with
    | none => none
    | some id =>
      if !run.stopping && (r.executor? id).isNone then some (.executorMissing key id) else none

/-- The first limit that an executor breaks. -/
def executorViolation? (e : Executor κ) : Option (Violation κ) :=
  let carried := r.carriedBy e.id
  let load := Quantity.sum (carried.map (·.job.cost))
  let starting := carried.countP (·.isStarting)
  if e.capacity + Quantity.tolerance < load then some (.overCapacity e.id load e.capacity)
  else if config.simultaneousStarts < starting then
    some (.tooManyStarting e.id starting config.simultaneousStarts)
  else none

/-- The job cap, if it is broken. -/
def capViolation? : Option (Violation κ) :=
  let started := r.startedCount
  if 0 < config.maxJobs && config.maxJobs < started then
    some (.tooManyStarted started config.maxJobs)
  else none

/-- The first broken rule. -/
def violation? : Option (Violation κ) :=
  if r.jobs.size ≠ r.runs.size then some (.countsDiffer r.jobs.size r.runs.size)
  else
    (r.runs.entries.findSome? fun (key, run) => r.runViolation? key run).or
      ((r.executors.findSome? (r.executorViolation? config)).or (r.capViolation? config))

/-- The verdict on the registry. -/
def verify : Reply :=
  match r.violation? config with
  | none => .ok ()
  | some v => .error (.invariantViolated v.message)

end Registry

end Dispatch
