import SessionAttributes.Simulation

namespace SessionAttributes.CommandLine

inductive Format where
  | text
  | json
deriving DecidableEq, Repr

inductive Stop where
  | help
  | version
  | misuse
deriving DecidableEq, Repr

inductive Takes where
  | nothing
  | text
  /-- A text that is not empty. -/
  | path
  | format
  /-- A natural number of at most 64 bits. -/
  | count
deriving DecidableEq, Repr

structure Switch where
  name : String
  takes : Takes

def common : List Switch :=
  [⟨"config", .path⟩, ⟨"log", .text⟩, ⟨"format", .format⟩]

def simulateSwitches : List Switch :=
  [⟨"sessions", .count⟩, ⟨"attributes", .count⟩, ⟨"evict-every", .count⟩, ⟨"corrupt", .count⟩,
    ⟨"drain-timeout-ms", .count⟩]

def configSwitches : List Switch := [⟨"path", .nothing⟩]

/-- The number that decimal digits spell, with or without a plus, up to 64 bits. -/
def count? (s : String) : Option Nat := do
  let digits := match s.toList with
    | '+' :: rest => rest
    | cs => cs
  guard (!digits.isEmpty && digits.all Char.isDigit)
  let n : Nat := digits.foldl (fun n c => 10 * n + (c.toNat - '0'.toNat)) 0
  guard (n < 0x10000000000000000)
  return n

def format? : String → Option Format
  | "text" => some .text
  | "json" => some .json
  | _ => none

def Takes.accepts : Takes → String → Bool
  | .nothing, _ => false
  | .text, _ => true
  | .path, s => !s.isEmpty
  | .format, s => (format? s).isSome
  | .count, s => (count? s).isSome

/-- The options found so far, each with its value. One without a value has an empty one. -/
abbrev Settings := List (String × String)

def Settings.add (settings : Settings) (switch : Switch) (value : String) : Except Stop Settings :=
  if (settings.lookup switch.name).isSome then .error .misuse
  else if switch.takes ≠ .nothing ∧ !switch.takes.accepts value then .error .misuse
  else .ok (settings ++ [(switch.name, value)])

inductive Shape where
  | word
  /-- Two hyphens: only words may follow. -/
  | terminator
  /-- An option after two hyphens, with the value after its equals sign. -/
  | long (name : String) (value : Option String)
  /-- An option after one hyphen. -/
  | short (letter : Char)

def shape (argument : String) : Shape :=
  match argument.toList with
  | ['-', '-'] => .terminator
  | '-' :: '-' :: rest =>
    let name := rest.takeWhile (· != '=')
    match rest.dropWhile (· != '=') with
    | _ :: value => .long (String.ofList name) (some (String.ofList value))
    | [] => .long (String.ofList name) none
  | '-' :: letter :: _ => .short letter
  | _ => .word

/-- What the options of one level end in: a command and the arguments after it, or nothing. -/
abbrev Level := Settings × Option (String × List String)

/-- Asks for the help or the version, where that is possible. -/
def inform (isTop : Bool) : String → Option Stop
  | "help" => some .help
  | "version" => if isTop then some .version else none
  | _ => none

def letterName : Char → String
  | 'h' => "help"
  | 'V' => "version"
  | _ => ""

/-- Reads options up to the name of a command. Below the top level there is no command to name. -/
def readLevel (switches : List Switch) (isTop : Bool) :
    List String → Settings → Except Stop Level
  | [], settings => .ok (settings, none)
  | argument :: rest, settings =>
    match shape argument with
    | .word =>
      if isTop ∧ argument ∈ ["simulate", "config"] then .ok (settings, some (argument, rest))
      else .error .misuse
    | .terminator => if rest.isEmpty then .ok (settings, none) else .error .misuse
    | .short letter => .error ((inform isTop (letterName letter)).getD .misuse)
    | .long name value =>
      match switches.find? fun s => s.name == name with
      | none => .error (if value.isNone then (inform isTop name).getD .misuse else .misuse)
      | some switch =>
        match switch.takes, value with
        | .nothing, some _ => .error .misuse
        | .nothing, none => do readLevel switches isTop rest (← settings.add switch "")
        | _, some value => do readLevel switches isTop rest (← settings.add switch value)
        | _, none =>
          match rest with
          | [] => .error .misuse
          | value :: rest =>
            match shape value with
            | .word => do readLevel switches isTop rest (← settings.add switch value)
            | _ => .error .misuse

/-- The environment variable that stands in for an option. -/
def environmentName? : String → Option String
  | "config" => some "SOMBRA_SESSIONS_CONFIG"
  | "log" => some "SOMBRA_SESSIONS_LOG"
  | _ => none

/-- Adds what the environment says of options that were not given. -/
def fromEnvironment (environment : String → Option String) (settings : Settings) :
    Except Stop Settings :=
  common.foldlM (fun found switch =>
    match settings.lookup switch.name, (environmentName? switch.name).bind environment with
    | none, some value => Settings.add found switch value
    | _, _ => .ok found) []

inductive Command where
  | simulate (workload : Workload)
  /-- Shows the configuration, or only where it is looked for. -/
  | config (pathOnly : Bool)
deriving DecidableEq, Repr

structure Invocation where
  command : Command
  configFile : Option String
  format : Format
deriving DecidableEq, Repr

def Settings.count (settings : Settings) (name : String) (fallback : Nat) : Nat :=
  ((settings.lookup name).bind count?).getD fallback

def Settings.workload (settings : Settings) : Workload :=
  let fallback : Workload := {}
  { sessions := settings.count "sessions" fallback.sessions
    attributes := settings.count "attributes" fallback.attributes
    evictEvery := settings.count "evict-every" fallback.evictEvery
    corrupt := settings.count "corrupt" fallback.corrupt
    drainTimeout := settings.count "drain-timeout-ms" fallback.drainTimeout }

def Settings.command (settings : Settings) (name : String) : Command :=
  if name = "simulate" then .simulate settings.workload
  else .config (settings.lookup "path").isSome

/-- The settings that count, those of the command before those above it and the environment. -/
def Settings.invocation (settings : Settings) (name : String) : Invocation where
  command := settings.command name
  configFile := settings.lookup "config"
  format := ((settings.lookup "format").bind format?).getD .text

def switchesOf (command : String) : List Switch :=
  common ++ if command = "simulate" then simulateSwitches else configSwitches

def readInvocation (arguments : List String) (environment : String → Option String) :
    Except Stop Invocation := do
  match ← readLevel common true arguments [] with
  | (_, none) => .error .misuse
  | (above, some (command, rest)) =>
    let (below, _) ← readLevel (switchesOf command) false rest []
    let stand ← fromEnvironment environment below
    let _ ← fromEnvironment environment above
    return Settings.invocation (below ++ above ++ stand) command

end SessionAttributes.CommandLine
