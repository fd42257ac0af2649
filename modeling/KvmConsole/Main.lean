import KvmConsole.CommandLine.Program

/-!
# kvmd-console

The outer layer of the program: it collects the environment and the files that the arguments name,
runs the program and prints what comes of it. It has no sockets, so the daemon is out of reach and
only what comes before the first request has an effect.
-/

open KvmConsole CommandLine

/-- What is at a path. -/
def entryAt (path : String) : IO (Option Entry) := do
  try
    return some (.file (← IO.FS.readBinFile path))
  catch
    | .noFileOrDirectory .. => return none
    | .permissionDenied .. => return some (.locked 0)
    | _ => return some (.directory 0)

/-- The texts of some variables of the environment. -/
def readEnvironment (names : List String) : IO Environment := do
  let read ← names.mapM fun name => return (name, ← IO.getEnv name)
  return fun name => (read.lookup name).join

/-- The entries at some paths. -/
def readFiles (paths : List String) : IO Files := do
  let read ← paths.mapM fun path => return (path, ← entryAt path)
  return fun path => (read.lookup path).join

def main (words : List String) : IO UInt32 := do
  let environment ← readEnvironment variableNames
  match Arguments.ofWords environment words with
  | .error stop =>
    if stop = .misuse then IO.eprint stop.text else IO.print stop.text
    return UInt32.ofNat stop.exitCode
  | .ok a =>
    let outcome := a.run environment (← readFiles a.paths) .unreachable
    outcome.log.forM fun record => IO.println record.line
    IO.eprint outcome.errors
    return UInt32.ofNat outcome.exitCode
