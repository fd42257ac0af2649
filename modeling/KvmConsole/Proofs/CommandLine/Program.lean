import KvmConsole.CommandLine.Program
import KvmConsole.Proofs.Console.EndToEnd
import KvmConsole.Proofs.Console.Success
import KvmConsole.Proofs.Wire.StatusRoundTrip

/-!
# What a run of the program comes to

A run has four stages: the arguments, the settings, a console for them, and the operation. Each of
the first three ends the program if it fails, before anything has been sent, and so does a file that
cannot be found. The exit status of the last stage is the verdict of the operation, so that it is
zero only for a request that the daemon has accepted.

Key results:
* `setUp_or_stopped`: how far a run gets before its operation.
* `Command.failure_eq_none_iff`: when an operation is taken as a success.
* `sends_and_reports`: what is sent, and what the exit status says about it.
-/

namespace KvmConsole.CommandLine

open Console (readyDevice)
open Msd (ImageFile)

variable {words : List String} {environment : Environment} {files : Files}
  {network : Daemon.Network}

/-! ## The stages before the operation -/

/-- What has to go well before the operation. -/
structure SetUp (words : List String) (environment : Environment) (files : Files) (a : Arguments)
    (s : Settings) (c : Console) : Prop where
  parsed : Arguments.ofWords environment words = .ok a
  settled : a.settings files = .ok s
  made : Console.ofSettings s = .ok c

/-- The console of some settings talks to the daemon through the client of the same settings. -/
private theorem client_of_ofSettings {s : Settings} {c : Console}
    (h : Console.ofSettings s = .ok c) :
    Daemon.Client.ofSettings s = .ok c.client := by
  unfold Console.ofSettings at h
  cases hclient : Daemon.Client.ofSettings s with
  | error reason =>
    rw [hclient] at h
    cases h
  | ok client =>
    rw [hclient] at h
    rw [← Except.ok.inj h]

/-- Past the stages before the operation a run sends the requests of its command, and its exit code
    tells whether that failed. -/
private theorem SetUp.run_eq {a : Arguments} {s : Settings} {c : Console}
    (h : SetUp words environment files a s c) (network : Daemon.Network) :
    (run words environment files network).requests = (a.command.run c files network).requests ∧
      ((run words environment files network).exitCode = 0 ↔
        (a.command.run c files network).failure = none) := by
  have hrun : a.command.runWith s files network = a.command.run c files network := by
    simp only [Command.runWith, h.made]
  simp only [run, h.parsed, Arguments.run, h.settled, hrun, true_and]
  cases (a.command.run c files network).failure <;> simp

/-- With arguments that can be read, a run comes to its operation, or has sent nothing and fails. -/
theorem setUp_or_stopped {a : Arguments} (h : Arguments.ofWords environment words = .ok a)
    (files : Files) (network : Daemon.Network) :
    (∃ s c, SetUp words environment files a s c) ∨
      (run words environment files network).requests = [] ∧
        (run words environment files network).exitCode = 1 := by
  cases hsettings : a.settings files with
  | error failure =>
    right
    simp only [run, h, Arguments.run, hsettings, true_and]
  | ok s =>
    cases hmade : Console.ofSettings s with
    | error reason =>
      right
      simp only [run, h, Arguments.run, hsettings, Command.runWith, hmade, true_and]
      rfl
    | ok c => exact .inl ⟨s, c, h, hsettings, hmade⟩

/-- A run that sends anything has passed every stage before the operation. -/
private theorem exists_setUp_of_requests (h : (run words environment files network).requests ≠ []) :
    ∃ a s c, SetUp words environment files a s c := by
  cases hparsed : Arguments.ofWords environment words with
  | error stop =>
    simp only [run, hparsed] at h
    exact absurd rfl h
  | ok a =>
    rcases setUp_or_stopped hparsed files network with ⟨s, c, hsetup⟩ | ⟨hnothing, -⟩
    · exact ⟨a, s, c, hsetup⟩
    · exact absurd hnothing h

/-! ## The operation -/

/-- The request that an operation is for, after the one for the status. -/
inductive FinalPost (client : Daemon.Client) (files : Files) : Command → Daemon.Request → Prop where
  | connect (target : Msd.Target) :
    FinalPost client files (.connect target) (client.commandRequest (.connect target))
  | reset : FinalPost client files .reset (client.commandRequest .reset)
  | upload {path : String} {name : Option String} {image : ImageFile} {bytes : ByteArray}
      (himage : ImageFile.ofPath files path name = .ok image)
      (hread : files.read path = .ok bytes) :
    FinalPost client files (.upload path name)
      (client.writeRequest image.name (client.sentData bytes []))

section Operation

variable {operation : Console.Operation Unit} {purpose : String} {achievement : Option String}

/-- A run reports its operation and sends nothing more. -/
@[simp] theorem Run.requests_ofOperation :
    (ofOperation operation purpose achievement).requests = operation.result.requests := by
  unfold ofOperation
  cases operation.result.result <;> rfl

/-- A run fails with its operation only. -/
@[simp] theorem Run.failure_ofOperation_eq_none_iff :
    (ofOperation operation purpose achievement).failure = none ↔
      operation.result.result = .ok () := by
  unfold ofOperation
  cases operation.result.result <;> simp

end Operation

/-- An image file keeps the path it was named by. -/
private theorem path_of_ofPath {path : String} {name : Option String} {image : ImageFile}
    (h : ImageFile.ofPath files path name = .ok image) : image.path = path := by
  unfold ImageFile.ofPath at h
  split at h
  · cases h
  · rw [← Except.ok.inj h]

/-- Nothing is sent about an image that cannot be found. -/
private theorem Command.exists_image_of_requests (c : Console) {path : String}
    {name : Option String}
    (h : ((Command.upload path name).run c files network).requests ≠ []) :
    ∃ image, ImageFile.ofPath files path name = .ok image := by
  cases himage : ImageFile.ofPath files path name with
  | error reason =>
    simp only [Command.run, himage] at h
    exact absurd rfl h
  | ok image => exact ⟨image, rfl⟩

/-- Following the control channel apart, an operation is taken as a success if the daemon has
    accepted its request. -/
theorem Command.failure_eq_none_iff {c : Console} {i : Bool} (hc : c.Rested i) {command : Command}
    (hwatch : command ≠ .watch) (files : Files) (network : Daemon.Network) :
    (command.run c files network).failure = none ↔
      ∃ post, FinalPost c.client files command post ∧
        c.client.Accepted network (command.run c files network).requests post := by
  cases command with
  | watch => exact absurd rfl hwatch
  | connect target =>
    simp only [Command.run, Run.failure_ofOperation_eq_none_iff, Run.requests_ofOperation,
      Console.command_eq_ok_iff hc]
    constructor
    · intro haccepted
      exact ⟨_, .connect target, haccepted⟩
    · rintro ⟨_, ⟨⟩, haccepted⟩
      exact haccepted
  | reset =>
    simp only [Command.run, Run.failure_ofOperation_eq_none_iff, Run.requests_ofOperation,
      Console.command_eq_ok_iff hc]
    constructor
    · intro haccepted
      exact ⟨_, .reset, haccepted⟩
    · rintro ⟨_, ⟨⟩, haccepted⟩
      exact haccepted
  | upload path name =>
    -- A file that cannot be used is refused before anything is sent.
    cases himage : ImageFile.ofPath files path name with
    | error reason =>
      simp only [Command.run, himage]
      refine iff_of_false nofun ?_
      rintro ⟨post, -, haccepted⟩
      exact Daemon.Client.not_accepted_nil haccepted
    | ok image =>
      simp only [Command.run, himage, Run.failure_ofOperation_eq_none_iff,
        Run.requests_ofOperation, Console.upload_eq_ok_iff hc, path_of_ofPath himage]
      constructor
      · rintro ⟨bytes, hread, haccepted⟩
        exact ⟨_, .upload himage hread, haccepted⟩
      · rintro ⟨_, hpost, haccepted⟩
        cases hpost with
        | upload himage' hread =>
          rw [himage] at himage'
          rw [← Except.ok.inj himage'] at haccepted
          exact ⟨_, hread, haccepted⟩

/-! ## Whole runs -/

/-- A run that has been set up is a success if the daemon has accepted its request. The arguments
    leave one way to set it up, so that the settings and the client are those of the run. -/
theorem SetUp.failure_eq_none_iff {a : Arguments} {s : Settings} {c : Console}
    (h : SetUp words environment files a s c) (hwatch : a.command ≠ .watch)
    (network : Daemon.Network) :
    (a.command.run c files network).failure = none ↔
      ∃ s client post, a.settings files = .ok s ∧ Daemon.Client.ofSettings s = .ok client ∧
        FinalPost client files a.command post ∧
        client.Accepted network (run words environment files network).requests post := by
  have hclient := client_of_ofSettings h.made
  rw [Command.failure_eq_none_iff (.made h.made) hwatch, (h.run_eq network).1]
  constructor
  · rintro ⟨post, hpost, haccepted⟩
    exact ⟨s, c.client, post, h.settled, hclient, hpost, haccepted⟩
  · rintro ⟨s', client, post, hsettled, hmade, hpost, haccepted⟩
    -- There is one way to set the run up.
    rw [h.settled] at hsettled
    rw [← Except.ok.inj hsettled, hclient] at hmade
    rw [← Except.ok.inj hmade] at hpost haccepted
    exact ⟨post, hpost, haccepted⟩

/-- Whatever the command line, the environment, the files and the network:

    * The program sends nothing unless its arguments and settings could be read, a client for them
      could be made, and the image to upload, if any, was found.
    * A command or an upload exits with status 0 if the daemon got the request for the status and
      then the one with the command or the image, to which it replied with status 200, and under no
      other circumstances. -/
theorem sends_and_reports (words : List String) (environment : Environment) (files : Files)
    (network : Daemon.Network) :
    let outcome := run words environment files network
    (outcome.requests ≠ [] → ∃ a s client, Arguments.ofWords environment words = .ok a ∧
      a.settings files = .ok s ∧ Daemon.Client.ofSettings s = .ok client ∧
      ∀ path name, a.command = .upload path name →
        ∃ image, ImageFile.ofPath files path name = .ok image) ∧
    ∀ a, Arguments.ofWords environment words = .ok a → a.command ≠ .watch →
      (outcome.exitCode = 0 ↔ ∃ s client post, a.settings files = .ok s ∧
        Daemon.Client.ofSettings s = .ok client ∧ FinalPost client files a.command post ∧
        client.Accepted network outcome.requests post) := by
  intro outcome
  constructor
  · intro hsent
    obtain ⟨a, s, c, hsetup⟩ := exists_setUp_of_requests hsent
    refine ⟨a, s, c.client, hsetup.parsed, hsetup.settled, client_of_ofSettings hsetup.made, ?_⟩
    intro path name hcommand
    have hrequests := (hsetup.run_eq network).1
    rw [hcommand] at hrequests
    apply Command.exists_image_of_requests c
    rwa [← hrequests]
  · intro a hparsed hwatch
    rcases setUp_or_stopped hparsed files network with ⟨s, c, hsetup⟩ | ⟨hnothing, hexit⟩
    · exact (hsetup.run_eq network).2.trans (hsetup.failure_eq_none_iff hwatch network)
    · refine iff_of_false (fun hzero => ?_) ?_
      · rw [hexit] at hzero
        cases hzero
      · rintro ⟨s, client, post, -, -, -, haccepted⟩
        rw [hnothing] at haccepted
        exact Daemon.Client.not_accepted_nil haccepted

/-- A device that works is reset, and the program reports it. -/
theorem sends_and_reports_reset :
    let network := .daemon [.response 200 (Wire.Envelope.okText readyDevice.text),
      .response 200 ""]
    let outcome := run ["reset"] (fun _ => none) (fun _ => none) network
    Arguments.ofWords (fun _ => none) ["reset"] = .ok ⟨none, none, none, none, false, .reset⟩ ∧
    outcome.requests ≠ [] ∧
    (∃ a s client, Arguments.ofWords (fun _ => none) ["reset"] = .ok a ∧
      a.settings (fun _ => none) = .ok s ∧ Daemon.Client.ofSettings s = .ok client) ∧
    outcome.exitCode = 0 := by
  intro network outcome
  obtain ⟨c, hmade⟩ := Console.exists_ofSettings_default
  have hrested := Console.Rested.made hmade
  have hparsed : Arguments.ofWords (fun _ => none) ["reset"] =
      .ok ⟨none, none, none, none, false, .reset⟩ := by decide +kernel
  have hsetup : SetUp ["reset"] (fun _ => none) (fun _ => none)
      ⟨none, none, none, none, false, .reset⟩ {} c := ⟨hparsed, rfl, hmade⟩
  -- The status is told and allows the reset, so that both requests are made.
  have hlearns := c.client.learns_okText readyDevice
  have hstatus := Daemon.Client.status_eq hrested.grounded hlearns [.response 200 ""]
  have hend := Daemon.Client.command_eq hrested.grounded .reset (.response 200 "") []
  have hallowed : readyDevice.Allows .reset := by decide
  have hrequests : outcome.requests = [c.client.statusRequest, c.client.commandRequest .reset] := by
    have hoperation := Console.command_of_allowed hrested.toAtRest hstatus hallowed hend
    rw [(hsetup.run_eq network).1]
    simp only [Command.run, Run.requests_ofOperation]
    rw [hoperation.result]
    rfl
  obtain ⟨hsent, hreported⟩ :=
    sends_and_reports ["reset"] (fun _ => none) (fun _ => none) network
  have hne : outcome.requests ≠ [] := by
    rw [hrequests]
    nofun
  obtain ⟨a, s, client, hparsed', hsettled, hclient, -⟩ := hsent hne
  refine ⟨hparsed, hne, ⟨a, s, client, hparsed', hsettled, hclient⟩, ?_⟩
  apply (hreported _ hparsed nofun).mpr
  exact ⟨{}, c.client, _, rfl, client_of_ofSettings hmade, .reset, _, "", [], rfl, hrequests⟩

end KvmConsole.CommandLine
