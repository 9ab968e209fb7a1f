import Dispatch.Capacity
import Dispatch.Config
import Dispatch.Selection

/-! # Load balancing

A running job may move to another executor when the part of capacity left there exceeds the part
left here by what the setting `balanceAt` makes of it.  `balanceMove?` looks at all runs and all
targets and keeps the move with the largest gain; gains that differ by no more than the tolerance
count as equal, and then the job that has been running longest moves.
-/

namespace Dispatch

/-- A possible move of a running job. -/
structure Move (κ : Type) where
  run : Run κ
  target : String
  /-- How much more of the target is left than of the present executor. -/
  gain : κ

variable {κ : Type} [Quantity κ]

namespace Move

omit [Quantity κ] in
/-- Whether the job of this move has been running longer, the order of addition deciding a tie. -/
def isSenior (a b : Move κ) : Bool :=
  match a.run.ranAt, b.run.ranAt with
  | none, none => a.run.ordinal < b.run.ordinal
  | none, some _ => true
  | some _, none => false
  | some s, some t => s < t || (s == t && a.run.ordinal < b.run.ordinal)

/-- Whether a move found later is preferred to the one held. -/
def beats (a held : Move κ) : Bool :=
  if held.gain + Quantity.tolerance < a.gain then true
  else if Quantity.distance a.gain held.gain ≤ Quantity.tolerance then a.isSenior held
  else false

end Move

/-- The gain that makes a move between two executors worth while. -/
def worthwhile (balanceAt : κ) (current other : Capacity κ) : κ :=
  Quantity.larger (balanceAt / current.capacity) (balanceAt / other.capacity)

/-- The move of a run to an executor, if it has room and the move is worth while. -/
def moveTo? (balanceAt : κ) (run : Run κ) (current other : Capacity κ) : Option (Move κ) :=
  let gain := other.spareRatio - current.spareRatio
  if other.executor == current.executor || other.capacity ≤ 0 then none
  else if other.exceededBy run.job.cost then none
  else if gain + Quantity.tolerance < worthwhile balanceAt current other then none
  else some { run, target := other.executor, gain }

/-- The moves of a run, in the order of the executors. -/
def movesOf (balanceAt : κ) (snapshot : Snapshot κ) (run : Run κ) : List (Move κ) :=
  if run.stopping || run.ranAt.isNone then []
  else
    match run.executor.bind snapshot.find with
    | none => []
    | some current =>
      if current.capacity ≤ 0 then [] else snapshot.filterMap (moveTo? balanceAt run current)

/-- The best move of a running job, if balancing is on and one is worth while. -/
def balanceMove? (runs : List (Run κ)) (snapshot : Snapshot κ) (config : Config κ) :
    Option (Move κ) :=
  if config.balanceAt ≤ 0 then none
  else pick Move.beats (runs.flatMap (movesOf config.balanceAt snapshot))

end Dispatch
