import SessionAttributes.CommandLine.Arguments
import SessionAttributes.Simulation

namespace SessionAttributes.CommandLine

structure Outcome where
  code : Nat
  output : String
  errors : String
deriving DecidableEq, Repr

def Outcome.printed (output : String) : Outcome := ⟨0, output, ""⟩

def Outcome.failed (cause : String) : Outcome := ⟨1, "", "error: " ++ cause ++ "\n"⟩

def Outcome.starved : Outcome := ⟨101, "", ""⟩

def versionText : String := "sombra-sessions 0.1.0\n"

def joinPath (base part : String) : String :=
  if base.endsWith "/" then base ++ part else base ++ "/" ++ part

/-- Where the configuration is looked for when no file is named: below the configuration directory
of the user, which counts only if it is absolute, or below the home directory. -/
def defaultPath (environment : String → Option String) : Option String :=
  let home := ((environment "HOME").filter fun s => !s.isEmpty).map fun s => joinPath s ".config"
  let base := ((environment "XDG_CONFIG_HOME").filter fun s => s.startsWith "/").or home
  base.map fun s => joinPath (joinPath s "sombra") "sessions.toml"

structure Effective where
  path : Option String
  loaded : Bool
  config : Config

/-- Loads the configuration. A file that is not there leaves the defaults. -/
def load (path : Option String) (read : String → Except FileFault String) :
    Except String Effective :=
  match path with
  | none => .ok ⟨none, false, {}⟩
  | some p =>
    match read p with
    | .error .missing | .error .notDirectory | .error .nameTooLong | .error .nulInName =>
      .ok ⟨path, false, {}⟩
    | .error fault => .error ("failed to read sessions config " ++ p ++ ": " ++ fault.message)
    | .ok text =>
      match Config.ofToml text with
      | .error e => .error ("invalid sessions config " ++ p ++ ": " ++ e.message)
      | .ok config => .ok ⟨path, true, config⟩

def statsJson (s : StoreStats) : Json :=
  .object [
    ("active", Json.ofNat s.active),
    ("passivated", Json.ofNat s.passivated),
    ("passivations", Json.ofNat s.passivations),
    ("activations", Json.ofNat s.activations)]

def reportJson (r : Report) : Json :=
  .object [
    ("sessions", Json.ofNat r.sessions),
    ("attributes_per_session", Json.ofNat r.attributesPerSession),
    ("evicted", Json.ofNat r.evicted),
    ("cascade_drained", .bool r.drained),
    ("reloaded", Json.ofNat r.reloaded),
    ("corrupted", Json.ofNat r.corrupted),
    ("removed", Json.ofNat r.removed),
    ("metrics", r.metrics.toJson),
    ("metadata_store", statsJson r.metadataStore),
    ("names_store", statsJson r.namesStore),
    ("attribute_store", statsJson r.attributeStore)]

/-- A line of a report: a heading and labelled values. -/
def reportLine (heading : String) (values : List (String × String)) : String :=
  heading ++ ": " ++ " ".intercalate (values.map fun v => v.1 ++ "=" ++ v.2) ++ "\n"

def statsLine (store : String) (s : StoreStats) : String :=
  reportLine ("Store " ++ store) [
    ("active", toString s.active),
    ("passivated", toString s.passivated),
    ("passivations", toString s.passivations),
    ("activations", toString s.activations)]

def reportText (r : Report) : String :=
  let m := r.metrics
  reportLine "Workload" [
    ("sessions", toString r.sessions),
    ("attributes_per_session", toString r.attributesPerSession),
    ("evicted", toString r.evicted),
    ("corrupted", toString r.corrupted)] ++
  reportLine "Outcome" [
    ("reloaded", toString r.reloaded),
    ("removed", toString r.removed),
    ("cascade_drained", toString r.drained)] ++
  "\n" ++
  reportLine "Attributes" [
    ("loaded_sessions", toString m.sessionsLoaded),
    ("loaded_attributes", toString m.attributesLoaded),
    ("corrupt", toString m.sessionsCorrupt),
    ("written", toString m.attributesWritten),
    ("skipped", toString m.attributeWritesSkipped)] ++
  reportLine "Deletes" [
    ("removed", toString m.sessionsRemoved),
    ("purged", toString m.sessionsPurged),
    ("cascade_evictions", toString m.cascadeEvictions)] ++
  reportLine "Activation" [
    ("passivate", toString m.passivationNotifications),
    ("activate", toString m.activationNotifications)] ++
  "\n" ++
  statsLine "metadata" r.metadataStore ++
  statsLine "names" r.namesStore ++
  statsLine "attributes" r.attributeStore

def simulate (workload : Workload) (format : Format) (config : Config) : Outcome :=
  match Simulation.run .addressable config workload Schedule.eager AttributeId.ofNat with
  | .error (.failed e) => .failed e.message
  | .error .starved => .starved
  | .ok report =>
    .printed (match format with
      | .json => (reportJson report).pretty ++ "\n"
      | .text => reportText report)

/-- The line before a configuration that comes from no file. -/
def defaultsNote : String := "# defaults (no configuration file found)\n"

def showConfig (format : Format) (e : Effective) : Outcome :=
  match format with
  | .json => .printed (e.config.toJson.pretty ++ "\n")
  | .text =>
    match e.config.toToml with
    | .error fault => .failed ("failed to serialize sessions config: " ++ fault.message)
    | .ok text => .printed ((if e.loaded then "" else defaultsNote) ++ text)

def Invocation.path (i : Invocation) (environment : String → Option String) : Option String :=
  i.configFile.or (defaultPath environment)

/-- Runs a command. The configuration is loaded first, whatever the command is. -/
def runInvocation (i : Invocation) (environment : String → Option String)
    (read : String → Except FileFault String) : Outcome :=
  match load (i.path environment) read with
  | .error cause => .failed cause
  | .ok e =>
    match i.command with
    | .simulate workload => simulate workload i.format e.config
    | .config true => .printed (e.path.getD "<none>" ++ "\n")
    | .config false => showConfig i.format e

def run (arguments : List String) (environment : String → Option String)
    (read : String → Except FileFault String) : Outcome :=
  match readInvocation arguments environment with
  | .ok i => runInvocation i environment read
  | .error .version => .printed versionText
  | .error .help => .printed ""
  | .error .misuse => ⟨2, "", ""⟩

end SessionAttributes.CommandLine
