import KvmConsole.CommandLine.Arguments
import KvmConsole.Console.Image
import KvmConsole.Console.Journal
import KvmConsole.Console.Operation
import KvmConsole.Log.Filter

/-!
# The program

From the command line to the exit status. The program reads its arguments and its settings, makes a
console and runs one operation on it. Each stage ends the program if it fails, and only the last one
reaches the network.
-/

namespace KvmConsole.CommandLine

/-- What ends the program early: what it was doing, and the causes, from the outside in. -/
structure Failure where
  message : String
  causes : List String
  deriving DecidableEq, Repr

namespace Failure

/-- A text whose lines behind the first are indented. -/
def indented (width : Nat) (text : String) : String :=
  ("\n" ++ "".pushn ' ' width).intercalate (text.splitOn "\n")

/-- The lines of the causes. Several are numbered. -/
def causeLines : List String → List String
  | [] => []
  | [cause] => ["    " ++ indented 4 cause]
  | causes =>
    causes.zipIdx.map fun (cause, index) =>
      let number := toString index
      "".pushn ' ' (5 - number.length) ++ number ++ ": " ++ indented 7 cause

/-- What the program prints about a failure. -/
def text (f : Failure) : String :=
  let heading := if f.causes = [] then [] else ["", "Caused by:"]
  "\n".intercalate (("Error: " ++ f.message) :: heading ++ causeLines f.causes) ++ "\n"

end Failure

/-- What a run of the program comes to. -/
structure Outcome where
  exitCode : Nat
  /-- What is printed about errors. -/
  errors : String
  log : List Log.Record
  requests : List Daemon.Request
  deriving DecidableEq, Repr

/-! ## Settings -/

namespace Arguments

/-- Puts what was given on the command line over some settings. -/
def override (a : Arguments) (s : Settings) : Settings :=
  { s with
    daemonUrl := a.url.getD s.daemonUrl
    user := a.user.or s.user
    passwd := a.passwd.or s.passwd
    touchCapture := a.touch || s.touchCapture }

/-- The settings of a run: those at the given path, or else the default ones, under what was given
    on the command line. -/
def settings (a : Arguments) (files : Files) : Except Failure Settings :=
  match a.config with
  | none => .ok (a.override {})
  | some path =>
    match Settings.load files path with
    | .error fault => .error ⟨"cannot load config from " ++ path, fault.message :: fault.causes⟩
    | .ok s => .ok (a.override s)

end Arguments

/-- The variable with the log filter. -/
def filterVariable : String := "RUST_LOG"

/-- The log filter of a run, and complaints about it. The environment comes first; what cannot be
    read there does not count. -/
def logFilter (environment : Environment) (s : Settings) : Log.Filter × List String :=
  match (environment filterVariable).bind Log.Filter.ofText? with
  | some filter => (filter, [])
  | none => Log.Filter.ofTextLossy s.logLevel

/-! ## Running -/

/-- What the running of a command comes to. -/
structure Run where
  failure : Option Failure
  log : List Log.Record
  requests : List Daemon.Request
  deriving DecidableEq, Repr

/-- A record of the program's own work. -/
def note (message : String) : Log.Record := ⟨.info, "kvmd_console", message, []⟩

/-- The run of an operation. A fault is reported with what the operation was for, an end with a
    message. -/
def Run.ofOperation (operation : Console.Operation Unit) (purpose : String)
    (achievement : Option String) : Run :=
  let records := ({} : Presenter).journal operation.effects
  let requests := operation.result.requests
  match operation.result.result with
  | .error fault => ⟨some ⟨purpose, fault.message :: fault.causes⟩, records, requests⟩
  | .ok () => ⟨none, records ++ achievement.toList.map note, requests⟩

/-- Runs a command on a console. -/
def Command.run (c : Console) (files : Files) (network : Daemon.Network) : Command → Run
  | .watch => .ofOperation (c.watch true network) "control channel failed" none
  | .upload path name =>
    match Msd.ImageFile.ofPath files path name with
    | .error reason => ⟨some ⟨reason.message, reason.causes⟩, [], []⟩
    | .ok image =>
      .ofOperation (c.upload image files [] network) ("upload of " ++ path ++ " failed")
        (some "upload complete")
  | .connect target =>
    .ofOperation (c.command (.connect target) network) ("cannot connect the MSD to " ++ target.name)
      (some ("MSD connected to " ++ target.name))
  | .reset => .ofOperation (c.command .reset network) "MSD reset failed" (some "MSD reset")

/-- Makes a console and runs a command on it. -/
def Command.runWith (command : Command) (s : Settings) (files : Files) (network : Daemon.Network) :
    Run :=
  match Console.ofSettings s with
  | .error reason => ⟨some ⟨"invalid daemon settings", reason.message :: reason.causes⟩, [], []⟩
  | .ok console => command.run console files network

/-- Runs the program with arguments that have been read. -/
def Arguments.run (a : Arguments) (environment : Environment) (files : Files)
    (network : Daemon.Network) : Outcome :=
  match a.settings files with
  | .error failure => ⟨1, failure.text, [], []⟩
  | .ok s =>
    let (filter, complaints) := logFilter environment s
    let start := note ("kvmd-console starting, daemon=" ++ s.daemonUrl)
    let run := a.command.runWith s files network
    { exitCode := if run.failure.isSome then 1 else 0
      errors :=
        String.join (complaints.map (· ++ "\n")) ++ run.failure.elim "" Failure.text
      log := (start :: run.log).filter filter.allows
      requests := run.requests }

/-- Runs the program. What is printed about the use of the program is not part of the outcome. -/
def run (words : List String) (environment : Environment) (files : Files)
    (network : Daemon.Network) : Outcome :=
  match Arguments.ofWords environment words with
  | .error stop => ⟨stop.exitCode, "", [], []⟩
  | .ok a => a.run environment files network

/-! ## What the outer layer has to provide -/

/-- The variables that the program looks at. -/
def variableNames : List String :=
  [Slot.config, .url, .user, .passwd].filterMap Slot.variableName? ++ [filterVariable]

/-- The paths of the files that the program may read. -/
def Arguments.paths (a : Arguments) : List String :=
  a.config.toList ++
    match a.command with
    | .upload file _ => [file]
    | .watch | .connect _ | .reset => []

def usage : String :=
  "\n".intercalate
    ["Usage: kvmd-console [OPTIONS] <COMMAND>",
      "",
      "Commands:",
      "  watch                  Follow the control channel and log every state change",
      "  upload <FILE>          Upload an image to the Mass Storage Device [--name <NAME>]",
      "  connect <kvm|server>   Attach the Mass Storage Device",
      "  reset                  Reset the Mass Storage Device",
      "",
      "Options:",
      "  -c, --config <FILE>    TOML configuration file",
      "      --url <URL>        Daemon base URL",
      "      --user <USER>      Login user",
      "      --passwd <PASSWD>  Login password",
      "      --touch            Treat the pointer as always captured",
      "  -h, --help             Print help",
      "  -V, --version          Print version",
      ""]

/-- What is printed when there is nothing to run. -/
def Stop.text : Stop → String
  | misuse | help => usage
  | version => "kvmd-console 0.1.0\n"

end KvmConsole.CommandLine
