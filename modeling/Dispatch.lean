import Dispatch.Capacity
import Dispatch.Clock
import Dispatch.CommandLine.Options
import Dispatch.CommandLine.Simulate
import Dispatch.Config
import Dispatch.Decimal.Binary
import Dispatch.Decimal.Layout
import Dispatch.Decimal.Reader
import Dispatch.Decimal.Shortest
import Dispatch.Error
import Dispatch.Job
import Dispatch.Main
import Dispatch.Plan.Balance
import Dispatch.Plan.Basic
import Dispatch.Plan.Placement
import Dispatch.Plan.Stopping
import Dispatch.Plan.Wake
import Dispatch.Proofs.History.Action
import Dispatch.Proofs.History.Answers
import Dispatch.Proofs.History.Balancing
import Dispatch.Proofs.History.Binding
import Dispatch.Proofs.History.Calls
import Dispatch.Proofs.History.Confirmed
import Dispatch.Proofs.History.Converge
import Dispatch.Proofs.History.Course
import Dispatch.Proofs.History.Deed
import Dispatch.Proofs.History.Deployment
import Dispatch.Proofs.History.Desk
import Dispatch.Proofs.History.Drain
import Dispatch.Proofs.History.Drained
import Dispatch.Proofs.History.Feedback
import Dispatch.Proofs.History.HostReport
import Dispatch.Proofs.History.Hosting
import Dispatch.Proofs.History.Idle
import Dispatch.Proofs.History.Keeping
import Dispatch.Proofs.History.Late
import Dispatch.Proofs.History.Limits
import Dispatch.Proofs.History.Marks
import Dispatch.Proofs.History.Names
import Dispatch.Proofs.History.Outstanding
import Dispatch.Proofs.History.Pending
import Dispatch.Proofs.History.Phases
import Dispatch.Proofs.History.Positions
import Dispatch.Proofs.History.Published
import Dispatch.Proofs.History.Rebalance
import Dispatch.Proofs.History.Refusals
import Dispatch.Proofs.History.Removal
import Dispatch.Proofs.History.Replay
import Dispatch.Proofs.History.Revisions
import Dispatch.Proofs.History.Session
import Dispatch.Proofs.History.Shedding
import Dispatch.Proofs.History.Shutdown
import Dispatch.Proofs.History.Situations
import Dispatch.Proofs.History.Sound
import Dispatch.Proofs.History.Standing
import Dispatch.Proofs.History.Terms
import Dispatch.Proofs.History.Throttle
import Dispatch.Proofs.History.Turn
import Dispatch.Proofs.History.WellFormed
import Dispatch.Proofs.Keepalive
import Dispatch.Proofs.Numbers
import Dispatch.Proofs.Overflow
import Dispatch.Proofs.Plan.Admission
import Dispatch.Proofs.Plan.Balance
import Dispatch.Proofs.Plan.Decision
import Dispatch.Proofs.Plan.Limits
import Dispatch.Proofs.Plan.Moves
import Dispatch.Proofs.Plan.Overtaking
import Dispatch.Proofs.Plan.Placing
import Dispatch.Proofs.Plan.Quiet
import Dispatch.Proofs.Plan.Starting
import Dispatch.Proofs.Registry.Load
import Dispatch.Proofs.Registry.Operations
import Dispatch.Proofs.Registry.Snapshot
import Dispatch.Proofs.Registry.Sound
import Dispatch.Proofs.Selection
import Dispatch.Proofs.Simulation
import Dispatch.Proofs.Tables
import Dispatch.Proofs.Timings
import Dispatch.Quantity
import Dispatch.Registry.Basic
import Dispatch.Registry.Violation
import Dispatch.Rehearsal.Script
import Dispatch.Rehearsal.World
import Dispatch.Report.Dashboard
import Dispatch.Report.Documents
import Dispatch.Report.Tables
import Dispatch.Scheduler.Basic
import Dispatch.Scheduler.HostReport
import Dispatch.Scheduler.Runs
import Dispatch.Scheduler.Turn
import Dispatch.Selection
import Dispatch.Simulation.Hosting
import Dispatch.Situation
import Dispatch.Summary
import Dispatch.Table
import Dispatch.Text.Json
import Dispatch.Time
import Dispatch.Timings
import Dispatch.Proofs.Registry.Counting
