import Intcode.Text.Decimal
set_option autoImplicit false

/-!
Command line arguments, read from left to right; the first one that makes no sense decides. Options
stand anywhere after the command. An option that takes a value has it attached, or takes the next
argument, provided that this does not look like an option itself.
-/
namespace Intcode.Console

structure Options where
  path : Option String := none
  input : Option String := none
  ascii : Bool := false
  interactive : Bool := false
  maxSteps : Option Count := none
  trace : Bool := false
  json : Bool := false
  strictMemory : Bool := false
  config : Option String := none
  snapshot : Option String := none
  deriving DecidableEq, Repr

inductive Command
  | overview
  | version
  | usage
  | run (path : String) (options : Options)
  | debug (path : String)
  | disasm (path : String)
  | selftest
  deriving DecidableEq, Repr

inductive Refusal
  | unknown (argument : String)
  | repeated (option : String)
  | missingValue (option : String)
  | unwantedValue (option : String)
  | badNumber (option value : String)
  | missingPath
  deriving DecidableEq, Repr

def Refusal.message : Refusal → String
  | .unknown argument => s!"unexpected argument '{argument}' found"
  | .repeated option => s!"the argument '{option}' cannot be used multiple times"
  | .missingValue option => s!"a value is required for '{option}' but none was supplied"
  | .unwantedValue option => s!"unexpected value for '{option}' found; no more were expected"
  | .badNumber option value => s!"invalid value '{value}' for '{option}'"
  | .missingPath => "the path of the program is missing"

inductive Setting
  | flag (isSet : Options → Bool) (set : Options → Options)
  | value (isSet : Options → Bool) (set : Options → String → Option Options)
  | help

structure OptionSpec where
  long : String
  short : Option Char
  setting : Setting

def Options.setMaxSteps (o : Options) (text : String) : Option Options :=
  match Text.Decimal.read Text.Decimal.count text.toList with
  | .ok n => some { o with maxSteps := some (UInt64.ofNat n.toNat) }
  | .error _ => none

def helpOption : OptionSpec := ⟨"help", some 'h', .help⟩

def runOptions : List OptionSpec := [
  ⟨"input", some 'i', .value (·.input.isSome) fun o v => some { o with input := some v }⟩,
  ⟨"ascii", some 'a', .flag (·.ascii) fun o => { o with ascii := true }⟩,
  ⟨"interactive", none, .flag (·.interactive) fun o => { o with interactive := true }⟩,
  ⟨"max-steps", some 'm', .value (·.maxSteps.isSome) Options.setMaxSteps⟩,
  ⟨"trace", some 't', .flag (·.trace) fun o => { o with trace := true }⟩,
  ⟨"json", none, .flag (·.json) fun o => { o with json := true }⟩,
  ⟨"strict-memory", none, .flag (·.strictMemory) fun o => { o with strictMemory := true }⟩,
  ⟨"config", some 'c', .value (·.config.isSome) fun o v => some { o with config := some v }⟩,
  ⟨"snapshot", none, .value (·.snapshot.isSome) fun o v => some { o with snapshot := some v }⟩,
  helpOption]

inductive Progress
  | options (o : Options)
  | help

/-- Whether an argument is an option and no value. A lone dash is a value. -/
def looksLikeOption (argument : String) : Bool :=
  match argument.toList with
  | '-' :: _ :: _ => true
  | _ => false

def OptionSpec.giveValue (s : OptionSpec) (isSet : Options → Bool)
    (set : Options → String → Option Options) (o : Options) (v : String) : Except Refusal Options :=
  if isSet o then .error (.repeated s.long)
  else match set o v with
    | some o => .ok o
    | none => .error (.badNumber s.long v)

def splitLong (cs : List Char) : String × Option String :=
  match cs.dropWhile (· ≠ '=') with
  | [] => (String.ofList cs, none)
  | _ :: v => (String.ofList (cs.takeWhile (· ≠ '=')), some (String.ofList v))

/-- The letters of one argument such as `-ti5`. A letter that takes a value takes the rest of the
argument, less an equals sign in front, or the next argument when nothing is left. The second part of
the answer tells whether the next argument was taken. -/
def shortLetters (specs : List OptionSpec) (next : Option String) :
    List Char → Options → Except Refusal (Progress × Bool)
  | [], o => .ok (.options o, false)
  | c :: rest, o =>
    match specs.find? fun s => s.short = some c with
    | none => .error (.unknown (String.ofList ['-', c]))
    | some s => match s.setting with
      | .help => .ok (.help, false)
      | .flag isSet set =>
        if isSet o then .error (.repeated s.long) else shortLetters specs next rest (set o)
      | .value isSet set => match rest with
        | '=' :: v => do return (.options (← s.giveValue isSet set o (String.ofList v)), false)
        | [] => match next with
          | some v => do return (.options (← s.giveValue isSet set o v), true)
          | none => .error (.missingValue s.long)
        | v => do return (.options (← s.giveValue isSet set o (String.ofList v)), false)

def longOption (specs : List OptionSpec) (next : Option String) (cs : List Char) (o : Options) :
    Except Refusal (Progress × Bool) :=
  let (name, attached) := splitLong cs
  match specs.find? fun s => s.long = name with
  | none => .error (.unknown name)
  | some s => match s.setting, attached with
    | .help, none => .ok (.help, false)
    | .help, some _ => .error (.unwantedValue name)
    | .flag isSet set, none =>
      if isSet o then .error (.repeated name) else .ok (.options (set o), false)
    | .flag _ _, some _ => .error (.unwantedValue name)
    | .value isSet set, some v => do return (.options (← s.giveValue isSet set o v), false)
    | .value isSet set, none => match next with
      | some v => do return (.options (← s.giveValue isSet set o v), true)
      | none => .error (.missingValue name)

def addPath (wantsPath : Bool) (o : Options) (path : String) : Except Refusal Options :=
  if wantsPath && o.path.isNone then .ok { o with path := some path } else .error (.unknown path)

def readPaths (wantsPath : Bool) : List String → Options → Except Refusal Options
  | [], o => .ok o
  | a :: rest, o => do readPaths wantsPath rest (← addPath wantsPath o a)

/-- The arguments of a command from the left. `taken` tells that the first one was already taken as the
value of the option before it. -/
def readArguments (specs : List OptionSpec) (wantsPath : Bool) :
    List String → Bool → Options → Except Refusal Progress
  | [], _, o => .ok (.options o)
  | _ :: rest, true, o => readArguments specs wantsPath rest false o
  | a :: rest, false, o =>
    let next := rest.head?.filter fun v => !looksLikeOption v
    match a.toList with
    | ['-', '-'] => (readPaths wantsPath rest o).map .options
    | '-' :: '-' :: cs => do
      match ← longOption specs next cs o with
      | (.help, _) => return .help
      | (.options o, taken) => readArguments specs wantsPath rest taken o
    | '-' :: c :: cs => do
      match ← shortLetters specs next (c :: cs) o with
      | (.help, _) => return .help
      | (.options o, taken) => readArguments specs wantsPath rest taken o
    | _ => do readArguments specs wantsPath rest false (← addPath wantsPath o a)

def pathCommand (specs : List OptionSpec) (make : String → Options → Command) (args : List String) :
    Except Refusal Command := do
  match ← readArguments specs true args false {} with
  | .help => return .usage
  | .options o => match o.path with
    | some path => return make path o
    | none => .error .missingPath

def bareCommand (command : Command) (args : List String) : Except Refusal Command := do
  match ← readArguments [helpOption] false args false {} with
  | .help => return .usage
  | .options _ => return command

def commandNames : List String := ["run", "debug", "disasm", "selftest", "help"]

def helpCommand : List String → Except Refusal Command
  | [] => .ok .usage
  | [name] => if name ∈ commandNames then .ok .usage else .error (.unknown name)
  | name :: next :: _ => .error (.unknown (if name ∈ commandNames then next else name))

def Command.ofArguments : List String → Except Refusal Command
  | [] => .ok .overview
  | "run" :: args => pathCommand runOptions .run args
  | "debug" :: args => pathCommand [helpOption] (fun path _ => .debug path) args
  | "disasm" :: args => pathCommand [helpOption] (fun path _ => .disasm path) args
  | "selftest" :: args => bareCommand .selftest args
  | "help" :: args => helpCommand args
  | "--version" :: _ => .ok .version
  | "--help" :: _ => .ok .usage
  | ["--"] => .ok .overview
  | a :: _ => match a.toList with
    | '-' :: 'V' :: _ => .ok .version
    | '-' :: 'h' :: _ => .ok .usage
    | _ => .error (.unknown a)

end Intcode.Console
