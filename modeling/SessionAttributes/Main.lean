import SessionAttributes.CommandLine.Run

open SessionAttributes

def fileFault : IO.Error → FileFault
  | .permissionDenied _ _ _ => .denied
  | .inappropriateType _ code _ => if code = 20 then .notDirectory else .isDirectory
  | _ => .missing

def readFileText (path : String) : IO (Except FileFault String) := do
  try
    let contents ← IO.FS.readBinFile path
    match Bytes.toText? contents.toList with
    | some text => return .ok text
    | none => return .error .notText
  catch e => return .error (fileFault e)

def environmentNames : List String :=
  ["HOME", "XDG_CONFIG_HOME", "SOMBRA_SESSIONS_CONFIG", "SOMBRA_SESSIONS_LOG"]

def main (arguments : List String) : IO UInt32 := do
  let found ← environmentNames.filterMapM fun name => do
    return (← IO.getEnv name).map fun value => (name, value)
  let environment (name : String) : Option String := found.lookup name
  let path := match CommandLine.readInvocation arguments environment with
    | .ok i => i.path environment
    | .error _ => none
  let contents ← match path with
    | some p => readFileText p
    | none => pure (.error .missing)
  let outcome := CommandLine.run arguments environment fun _ => contents
  IO.print outcome.output
  IO.eprint outcome.errors
  return outcome.code.toUInt32
