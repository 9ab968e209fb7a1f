import Dispatch.Config
import Dispatch.Registry.Basic

/-! # Summaries of executors

For each executor its load, whether it is alive, and how many runs on it are in which state.
-/

namespace Dispatch

/-- What is shown of an executor. -/
structure ExecutorSummary (κ : Type) where
  id : String
  name : String
  capacity : κ
  load : κ
  paused : Bool
  alive : Bool
  starting : Nat
  running : Nat
  stopping : Nat

variable {κ : Type} [Quantity κ]

/-- The summary of one executor. -/
def Executor.summary (e : Executor κ) (registry : Registry κ) (config : Config κ)
    (now : Instant) : ExecutorSummary κ :=
  let runs := registry.runsOn e.id
  { id := e.id
    name := e.name
    capacity := e.capacity
    load := Quantity.sum ((runs.filter (·.startedAt.isSome)).map (·.job.cost))
    paused := e.paused
    alive := e.isAlive now config.aliveWindow
    starting := runs.countP (·.state == .starting)
    running := runs.countP (·.state == .running)
    stopping := runs.countP (·.state == .stopping) }

/-- The summaries of all executors, in the order of addition. -/
def summaries (registry : Registry κ) (config : Config κ) (now : Instant) :
    List (ExecutorSummary κ) :=
  registry.executors.map (·.summary registry config now)

end Dispatch
