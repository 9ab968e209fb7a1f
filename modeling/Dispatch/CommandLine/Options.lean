import Dispatch.Decimal.Reader
import Dispatch.Time

/-! # The command line

The one command is `simulate`.  Its options take a value, given either behind an equals sign or as
the next word, and each may be given once.  A value is checked when the next option, or the end of
the line, is reached; an unknown word is refused before that.
-/

namespace Dispatch

/-- Why a command line is not carried out. -/
inductive UsageError
  /-- The value of an option is missing, or not one of those listed. -/
  | invalidValue
  /-- The value of an option cannot be read. -/
  | valueValidation
  | unknownArgument
  | invalidSubcommand
  /-- An option was given twice. -/
  | argumentConflict
  /-- A flag was given a value. -/
  | tooManyValues
  | displayHelp
  | displayVersion
  /-- Nothing was asked for. -/
  | missingSubcommand
deriving DecidableEq, Repr

/-- How the outcome of a simulation is printed. -/
inductive OutputFormat
  | table
  | json
deriving DecidableEq, Repr

/-- The options of a simulation. -/
structure SimulateOptions where
  executors : Nat := 3
  capacity : Float := 10
  jobs : Nat := 20
  jobCost : Float := 1
  jobDurationSecs : Option Nat := none
  simultaneousStarts : Nat := 1
  startIntervalMs : Nat := 0
  loadBalance : Float := 0
  aliveMs : Nat := 2000
  slackMs : Nat := 0
  maxJobs : Nat := 0
  callTimeoutMs : Option Nat := none
  startLatencyMs : Nat := 50
  stopLatencyMs : Nat := 20
  failureRate : Float := 0
  runSecs : Nat := 10
  dashboardPort : Option Nat := none
  output : OutputFormat := .table

namespace SimulateOptions

/-- Read the value of an option. -/
def readWith {α : Type} (read : String → Option α) (value : String)
    (store : α → SimulateOptions) : Except UsageError SimulateOptions :=
  match read value with
  | some x => .ok (store x)
  | none => .error .valueValidation

/-- A whole number of 64 bits. -/
def readCount? : String → Option Nat := readNat? 18446744073709551615

/-- A whole number of 16 bits; a minus sign is taken in front of zero. -/
def readNat16? (s : String) : Option Nat :=
  let (negative, cs) := splitSign s.toList
  (digits? cs).bind fun n => if n ≤ 65535 && (!negative || n == 0) then some n else none

/-- Store the value of an option; none when there is no such option. -/
def set? (o : SimulateOptions) (name value : String) :
    Option (Except UsageError SimulateOptions) :=
  match name with
  | "executors" => some (readWith readCount? value ({ o with executors := · }))
  | "capacity" => some (readWith readFloat? value ({ o with capacity := · }))
  | "jobs" => some (readWith readCount? value ({ o with jobs := · }))
  | "job-cost" => some (readWith readFloat? value ({ o with jobCost := · }))
  | "job-duration-secs" =>
    some (readWith readCount? value fun n => { o with jobDurationSecs := some n })
  | "simultaneous-starts" =>
    some (readWith readCount? value ({ o with simultaneousStarts := · }))
  | "start-interval-ms" => some (readWith readCount? value ({ o with startIntervalMs := · }))
  | "load-balance" => some (readWith readFloat? value ({ o with loadBalance := · }))
  | "alive-ms" => some (readWith readCount? value ({ o with aliveMs := · }))
  | "slack-ms" => some (readWith readCount? value ({ o with slackMs := · }))
  | "max-jobs" => some (readWith readCount? value ({ o with maxJobs := · }))
  | "call-timeout-ms" =>
    some (readWith readCount? value fun n => { o with callTimeoutMs := some n })
  | "start-latency-ms" => some (readWith readCount? value ({ o with startLatencyMs := · }))
  | "stop-latency-ms" => some (readWith readCount? value ({ o with stopLatencyMs := · }))
  | "failure-rate" => some (readWith readFloat? value ({ o with failureRate := · }))
  | "run-secs" => some (readWith readCount? value ({ o with runSecs := · }))
  | "dashboard-port" => some (readWith readNat16? value fun n => { o with dashboardPort := some n })
  | "output" =>
    match value with
    | "table" => some (.ok { o with output := .table })
    | "json" => some (.ok { o with output := .json })
    | _ => some (.error .invalidValue)
  | _ => none

end SimulateOptions

/-- A word of the command line. -/
inductive Word
  /-- Two dashes; all that follows is no option. -/
  | escape
  | long (name : String) (value : Option String)
  | short (letters : List Char)
  | plain (text : String)

/-- What a word is. -/
def Word.ofString (s : String) : Word :=
  match s.toList with
  | ['-', '-'] => .escape
  | '-' :: '-' :: cs =>
    let name := String.ofList (cs.takeWhile (· ≠ '='))
    match cs.dropWhile (· ≠ '=') with
    | [] => .long name none
    | _ :: value => .long name (some (String.ofList value))
  | '-' :: c :: cs => .short (c :: cs)
  | _ => .plain s

/-- How far the options of a simulation have been read. -/
structure Reading where
  options : SimulateOptions := {}
  /-- The options stored so far. -/
  given : List String := []
  /-- The option read last, with its value if that has come. -/
  pending : Option (String × Option String) := none

namespace Reading

/-- Store an option that was given in full. -/
def store (r : Reading) (name value : String) : Except UsageError Reading :=
  if r.given.contains name then .error .argumentConflict
  else
    match r.options.set? name value with
    | none => .error .unknownArgument
    | some (.error e) => .error e
    | some (.ok options) => .ok { r with options, given := name :: r.given }

/-- Store the option read last. -/
def resolve (r : Reading) : Except UsageError Reading :=
  match r.pending with
  | none => .ok r
  | some (_, none) => .error .invalidValue
  | some (name, some value) => { r with pending := none }.store name value

/-- Take in an option, with its value if it comes in the same word. -/
def option (r : Reading) (name : String) (value : Option String) : Except UsageError Reading :=
  match r.resolve, value with
  | .error e, _ => .error e
  | .ok r, none => .ok { r with pending := some (name, none) }
  | .ok r, some value => r.store name value

/-- End the reading at a flag. -/
def flag (r : Reading) (e : UsageError) : UsageError :=
  match r.resolve with
  | .error e => e
  | .ok _ => e

/-- Whether there is an option of this name. -/
def isOption (name : String) : Bool := (({} : SimulateOptions).set? name "").isSome

/-- Take in a word that begins with two dashes. -/
def long (r : Reading) (name : String) (value : Option String) : Except UsageError Reading :=
  if isOption name then r.option name value
  else if name = "help" || name = "version" then
    if value.isSome then .error .tooManyValues
    else .error (r.flag (if name = "help" then .displayHelp else .displayVersion))
  else .error .unknownArgument

/-- Take in a word that begins with one dash. -/
def short (r : Reading) : List Char → Except UsageError Reading
  | ['o'] => r.option "output" none
  | 'o' :: '=' :: cs => r.option "output" (some (String.ofList cs))
  | 'o' :: cs => r.option "output" (some (String.ofList cs))
  | 'h' :: _ => .error (r.flag .displayHelp)
  | 'V' :: _ => .error (r.flag .displayVersion)
  | _ => .error .unknownArgument

/-- Take in a word without a dash: the value that the option read last still lacks. -/
def plain (r : Reading) (value : String) : Except UsageError Reading :=
  match r.pending with
  | some (name, none) => .ok { r with pending := some (name, some value) }
  | _ => .error .unknownArgument

/-- Read the options of a simulation. -/
def options? (r : Reading) : List String → Except UsageError SimulateOptions
  | [] => r.resolve.map (·.options)
  | word :: words =>
    let next : Except UsageError Reading :=
      match Word.ofString word with
      | .escape => if words.isEmpty then .ok r else .error .unknownArgument
      | .long name value => r.long name value
      | .short letters => r.short letters
      | .plain text => r.plain text
    match next with
    | .error e => .error e
    | .ok r => options? r words

end Reading

/-- Read a request for help. -/
def readHelp : List String → UsageError
  | [] | ["simulate"] | ["help"] => .displayHelp
  | _ => .invalidSubcommand

/-- Read a command line. -/
def readCommandLine : List String → Except UsageError SimulateOptions
  | [] => .error .missingSubcommand
  | "simulate" :: words => Reading.options? {} words
  | "help" :: words => .error (readHelp words)
  | word :: words =>
    match Word.ofString word with
    | .escape =>
      match words with
      | [] => .error .missingSubcommand
      | word :: _ =>
        .error (if word = "simulate" || word = "help" then .unknownArgument else .invalidSubcommand)
    | .long name value =>
      if name = "help" || name = "version" then
        if value.isSome then .error .tooManyValues
        else .error (if name = "help" then .displayHelp else .displayVersion)
      else .error .unknownArgument
    | .short ('h' :: _) => .error .displayHelp
    | .short ('V' :: _) => .error .displayVersion
    | .short _ => .error .unknownArgument
    | .plain _ => .error .invalidSubcommand

end Dispatch
