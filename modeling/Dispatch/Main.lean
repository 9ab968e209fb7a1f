import Dispatch.CommandLine.Simulate

/-! # The program

Reads the command line, runs the simulation on virtual time and prints its outcome.
-/

namespace Dispatch

/-- How the program is used. -/
def usage : String :=
  "Places cost-weighted jobs onto capacity-limited executors\n\n" ++
    "Usage: simulate [OPTIONS]\n\nOptions:\n" ++
    String.join
      (["executors", "capacity", "jobs", "job-cost", "job-duration-secs", "simultaneous-starts",
        "start-interval-ms", "load-balance", "alive-ms", "slack-ms", "max-jobs",
        "call-timeout-ms", "start-latency-ms", "stop-latency-ms", "failure-rate", "run-secs",
        "dashboard-port", "output"].map fun name => "  --" ++ name ++ " <VALUE>\n")

/-- What is said about a command line that is not carried out. -/
def UsageError.text : UsageError → String
  | .invalidValue => "error: invalid or missing value"
  | .valueValidation => "error: value cannot be read"
  | .unknownArgument => "error: unexpected argument"
  | .invalidSubcommand => "error: unrecognized subcommand"
  | .argumentConflict => "error: argument used more than once"
  | .tooManyValues => "error: unexpected value"
  | .displayHelp => usage
  | .displayVersion => "0.1.0"
  | .missingSubcommand => usage

end Dispatch

open Dispatch in
/-- Run the command line. -/
def main (args : List String) : IO UInt32 := do
  match readCommandLine args with
  | .error e =>
    match e with
    | .displayHelp | .displayVersion =>
      IO.println e.text
      return 0
    | _ =>
      IO.eprintln e.text
      return 2
  | .ok options =>
    match options.printed with
    | .ok text =>
      IO.print text
      return 0
    | .error e =>
      IO.eprintln ("Error: " ++ e.message)
      return 1
