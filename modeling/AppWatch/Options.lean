/-
# Command line options

The options of the program and how a command line sets them.  An option has a long name and some
have a letter.  A value is the next argument, unless that argument looks like an option itself, or
is attached: behind `=`, or right behind the letter.  Letters may share one dash.

An option whose value stands apart is settled only when the next option is settled or the line
ends.  So an argument that no option can use is reported before a bad value in front of it.
-/
import AppWatch.Config
import AppWatch.Text.Number

namespace AppWatch

/-- What a command line asks for. -/
structure Options where
  /-- The configuration file. -/
  config : Option String := none
  /-- The context of the cluster to connect to. -/
  context : Option String := none
  /-- The namespaces to watch, in place of the configured ones. -/
  namespaces : List String := []
  /-- The length of a window, in place of the configured one. -/
  batchDurationMs : Option UInt64 := none
  /-- Whether to report in detail. -/
  debug : Bool := false
  /-- The file to write notices to. -/
  logFile : Option String := none
deriving DecidableEq

/-- Why a command line gives no options. -/
inductive UsageProblem where
  | unknownArgument
  | invalidValue
  | valueValidation
  | argumentConflict
  | tooManyValues
  | displayHelp
  | displayVersion
deriving DecidableEq, Repr

/-- An option of the command line. -/
inductive Flag where
  | config
  | context
  | «namespace»
  | batchDuration
  | debug
  | logFile
  | help
  | version
deriving DecidableEq, Repr

/-- The problem in one word. -/
def UsageProblem.name : UsageProblem → String
  | unknownArgument => "UnknownArgument"
  | invalidValue => "InvalidValue"
  | valueValidation => "ValueValidation"
  | argumentConflict => "ArgumentConflict"
  | tooManyValues => "TooManyValues"
  | displayHelp => "DisplayHelp"
  | displayVersion => "DisplayVersion"

/-! ## 1. The options by name -/

namespace Flag

/-- The option with the given long name. -/
def ofName? : String → Option Flag
  | "config" => some config
  | "context" => some context
  | "namespace" => some «namespace»
  | "batch-duration-ms" => some batchDuration
  | "debug" => some debug
  | "log-file" => some logFile
  | "help" => some help
  | "version" => some version
  | _ => none

/-- The option with the given letter. -/
def ofLetter? : Char → Option Flag
  | 'c' => some config
  | 'n' => some «namespace»
  | 'd' => some debug
  | 'h' => some help
  | 'V' => some version
  | _ => none

/-- Whether the option has a value. -/
def takesValue : Flag → Bool
  | config | context | «namespace» | batchDuration | logFile => true
  | debug | help | version => false

end Flag

namespace Options

/-- Whether an option that may be given once was given. -/
def isGiven (o : Options) : Flag → Bool
  | .config => o.config.isSome
  | .context => o.context.isSome
  | .batchDuration => o.batchDurationMs.isSome
  | .debug => o.debug
  | .logFile => o.logFile.isSome
  | .namespace | .help | .version => false

/-- Sets an option to a value that was given for it. -/
def setValue (o : Options) (value : String) : Flag → Except UsageProblem Options
  | .config =>
    if value = "" then .error .invalidValue else .ok { o with config := some value }
  | .context => .ok { o with context := some value }
  | .namespace => .ok { o with namespaces := o.namespaces ++ [value] }
  | .batchDuration =>
    match Text.word? value with
    | none => .error .valueValidation
    | some ms => .ok { o with batchDurationMs := some ms }
  | .logFile =>
    if value = "" then .error .invalidValue else .ok { o with logFile := some value }
  | .debug | .help | .version => .error .tooManyValues

/-- Turns an option without a value on. -/
def turnOn (o : Options) : Flag → Except UsageProblem Options
  | .debug => .ok { o with debug := true }
  | .help => .error .displayHelp
  | .version => .error .displayVersion
  | .config | .context | .namespace | .batchDuration | .logFile => .error .invalidValue

/-- Sets an option, which needs a value exactly if it takes one. -/
def set (o : Options) (flag : Flag) (value : Option String) : Except UsageProblem Options :=
  match value with
  | none =>
    if flag.takesValue then .error .invalidValue
    else if o.isGiven flag then .error .argumentConflict
    else o.turnOn flag
  | some value => if o.isGiven flag then .error .argumentConflict else o.setValue value flag

end Options

/-! ## 2. Reading a command line -/

/-- A command line that is being read. -/
structure OptionReading where
  options : Options := {}
  /-- An option that is not settled yet, with its value once that was seen. -/
  pending : Option (Flag × Option String) := none
  /-- Whether a double dash has ended the options. -/
  ended : Bool := false

namespace OptionReading

/-- Settles the pending option. -/
def settle (r : OptionReading) : Except UsageProblem OptionReading :=
  match r.pending with
  | none => .ok r
  | some (flag, value) => do
    return { r with options := ← r.options.set flag value, pending := none }

/-- Sets an option after the pending one. -/
def set (r : OptionReading) (flag : Flag) (value : Option String) :
    Except UsageProblem OptionReading := do
  let r ← r.settle
  return { r with options := ← r.options.set flag value }

/-- Leaves an option pending, after the one that was. -/
def expect (r : OptionReading) (flag : Flag) : Except UsageProblem OptionReading := do
  return { ← r.settle with pending := some (flag, none) }

/-- Reads the option with a long name and the value attached to it. -/
def long (r : OptionReading) (name : String) (attached : Option String) :
    Except UsageProblem OptionReading :=
  match Flag.ofName? name, attached with
  | none, _ => .error .unknownArgument
  | some flag, some value =>
    if flag.takesValue then r.set flag (some value) else .error .tooManyValues
  | some flag, none => if flag.takesValue then r.expect flag else r.set flag none

/-- Reads letters behind one dash; what stands behind a letter with a value is that value. -/
def letters (r : OptionReading) : List Char → Except UsageProblem OptionReading
  | [] => .ok r
  | c :: cs =>
    match Flag.ofLetter? c with
    | none => .error .unknownArgument
    | some flag =>
      if flag.takesValue then
        match cs with
        | [] => r.expect flag
        | '=' :: value | value => r.set flag (some (String.ofList value))
      else do (← r.set flag none).letters cs

/-- Reads an argument that is no option: the value that the pending option waits for. -/
def value (r : OptionReading) (arg : String) : Except UsageProblem OptionReading :=
  match r.pending with
  | some (flag, none) => .ok { r with pending := some (flag, some arg) }
  | _ => .error .unknownArgument

/-- Reads one argument. -/
def argument (r : OptionReading) (arg : String) : Except UsageProblem OptionReading :=
  if r.ended then .error .unknownArgument
  else match arg.toList with
    | ['-', '-'] => .ok { r with ended := true }
    | '-' :: '-' :: cs =>
      let name := String.ofList (cs.takeWhile (· ≠ '='))
      match cs.dropWhile (· ≠ '=') with
      | [] => r.long name none
      | _ :: attached => r.long name (some (String.ofList attached))
    | '-' :: c :: cs => r.letters (c :: cs)
    | _ => r.value arg

end OptionReading

namespace Options

/-- Reads the arguments of a command line. -/
def read (args : List String) : Except UsageProblem Options := do
  let r ← args.foldlM OptionReading.argument {}
  return (← r.settle).options

/-- Puts what the command line gives in place of what is configured. -/
def applyTo (o : Options) (c : Config) : Config :=
  { c with
    namespaces := if o.namespaces.isEmpty then c.namespaces else o.namespaces
    batchDurationMs := o.batchDurationMs.getD c.batchDurationMs }

end Options

end AppWatch
