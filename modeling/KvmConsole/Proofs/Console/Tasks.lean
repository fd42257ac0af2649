import KvmConsole.Proofs.Console.Between

/-!
# Tasks

The operations of the console as one kind of thing, with what any of them comes to: the console
afterwards, and how the operation has ended. A task is started on a console at rest, and there is
nothing that it can find there but what the task itself has brought.

Key results:
* `AtRest.perform_leads`: the ways in which a task can end.
* `Leads.client`, `Leads.reports`: what a task leaves as it was.
* `Leads.fault_isOwn`: the faults that do not occur.
* `perform_eq_of_unreached`: a task that does not reach the daemon is not begun.
-/

namespace KvmConsole.Console

/-- What the console can be asked to do from beginning to end. -/
inductive Task where
  | refresh
  | command (command : Msd.Command)
  | upload (file : Msd.ImageFile) (files : Files) (limits : List Nat)
  | watch (running : Bool)

/-- Does a task. The status that a refresh has found is not handed on. -/
def perform (c : Console) : Task → Daemon.Network → Operation Unit
  | .refresh, network =>
    (c.refresh network).map fun exchange => exchange.map fun result => result.map fun _ => ()
  | .command command, network => c.command command network
  | .upload file files limits, network => c.upload file files limits network
  | .watch running, network => c.watch running network

/-- The first request of a task, without which nothing is done: the one for the control channel if
    it is to be followed, and the one for the status otherwise. -/
def contact (c : Console) : Task → Daemon.Network → Daemon.Exchange (Except Daemon.Failure Unit)
  | .watch _, network =>
    (c.client.openChannel network).map fun result => result.map fun _ => ()
  | _, network => (c.client.status network).map fun result => result.map fun _ => ()

/-! ## What tasks come to -/

/-- How a task may end that is done on a console at rest, and the console that it leaves. -/
inductive Leads (c : Console) : Console → Except Fault Unit → Prop where
  | unreached (reason : Daemon.Failure) : Leads c c (.error (.daemon reason))
  | refreshed (s : Msd.Status) : Leads c (c.seen s) (.ok ())
  | disabled (s : Msd.Status) (action : Action) : Leads c (c.seen s) (.error (.disabled action))
  | commanded (s : Msd.Status) (action : Action) (status : UInt16) (body : String) :
    Leads c { c.seen s with reports := [] }
      (verdict action (status = Msd.Panel.httpOk) status body)
  | tooBig (s : Msd.Status) (size : UInt64) :
    Leads c { c.seen s with panel := { (c.seen s).panel with selected := none } }
      (.error (.msd (.imageTooBig size s.info.size)))
  | uploaded (s : Msd.Status) (status : UInt16) (body : String) :
    Leads c
      { c with
        panel := { c.panel with
          status := some s
          selected := none
          upload := none
          progress := .waiting
          started := c.panel.started + 1 }
        reports := [] }
      (verdict .upload (status = Msd.Panel.httpOk) status body)
  | aborted (s : Msd.Status) (file : Msd.ImageFile) :
    Leads c
      { c with
        panel := { c.panel with
          status := some s
          selected := some file
          upload := none
          progress := .waiting
          started := c.panel.started + 1 }
        reports := [] }
      (.error .aborted)
  | watched (forwarder : Pointer.Forwarder) :
    Leads c { c with panel := { c.panel with status := none }, forwarder } (.ok ())

/-- The faults that a console brings about by its own doing: it waits for an end that is not
    reported, or asks the panel for what the panel cannot do. -/
def Fault.isOwn : Fault → Bool
  | .disconnected | .msd .unavailable | .msd .noImageSelected | .msd .uploadInProgress => true
  | .daemon _ | .msd (.imageTooBig _ _) | .disabled _ | .rejected _ _ _ | .aborted => false

/-- A verdict is about the daemon's answer, so that its fault is none of the console's own. -/
private theorem isOwn_of_verdict {action : Action} {status : UInt16} {body : String} {fault : Fault}
    (h : verdict action (status = Msd.Panel.httpOk) status body = .error fault) :
    fault.isOwn = false := by
  rw [eq_of_verdict_eq_error h]
  rfl

namespace Leads

variable {c c' : Console} {result : Except Fault Unit}

/-- No task changes the client. -/
theorem client (h : Leads c c' result) : c'.client = c.client := by
  cases h <;> rfl

/-- A task takes reports out of the queue and puts none there. -/
theorem reports (h : Leads c c' result) (hreports : c.reports = []) : c'.reports = [] := by
  cases h with
  | commanded | uploaded | aborted => rfl
  | unreached | refreshed | disabled | tooBig | watched => exact hreports

/-- A console at rest waits for nothing that does not come, and asks for nothing that it does not
    get. -/
theorem fault_isOwn {fault : Fault} (h : Leads c c' result) (hfault : result = .error fault) :
    fault.isOwn = false := by
  cases h with
  | refreshed | watched => cases hfault
  | unreached | disabled | tooBig | aborted =>
    cases hfault
    rfl
  | commanded s action status body => exact isOwn_of_verdict hfault
  | uploaded s status body => exact isOwn_of_verdict hfault

end Leads

/-- An operation that comes to a console and a result leads there. -/
private theorem Operation.ComesTo.leads {c c' : Console} {operation : Operation Unit}
    {exchange : Daemon.Exchange (Except Fault Unit)} {shown : List String}
    (h : operation.ComesTo c' exchange shown) (hleads : Leads c c' exchange.result) :
    Leads c operation.state operation.result.result := by
  rw [h.state, h.result]
  exact hleads

section Ends

variable {c : Console}

/-- A refresh fails or shows the status. -/
private theorem refresh_leads (c : Console) (network : Daemon.Network) :
    Leads c (c.perform .refresh network).state (c.perform .refresh network).result.result := by
  rcases hstatus : c.client.status network with ⟨outcome, requests, network'⟩
  cases outcome with
  | error reason =>
    have h := refresh_of_error hstatus
    simp only [perform, Turn.map, Daemon.Exchange.map, h.state, h.result]
    exact .unreached reason
  | ok s =>
    have h := refresh_of_ok hstatus
    simp only [perform, Turn.map, Daemon.Exchange.map, h.state, h.result]
    exact .refreshed s

/-- A command fails to reach the daemon, is disabled, or is answered. -/
private theorem AtRest.command_leads (hc : c.AtRest) (command : Msd.Command)
    (network : Daemon.Network) :
    Leads c (c.command command network).state (c.command command network).result.result := by
  rcases hstatus : c.client.status network with ⟨outcome, requests, network'⟩
  cases outcome with
  | error reason => exact (command_of_error hstatus command).leads (.unreached reason)
  | ok s =>
    by_cases hs : s.Allows command
    · obtain ⟨status, body, hresult⟩ := c.client.exists_command_result command network'
      rcases hsent : c.client.command command network' with ⟨reports, requests', network''⟩
      rw [hsent] at hresult
      subst hresult
      exact (command_of_allowed hc hstatus hs hsent).leads (.commanded s _ status body)
    · exact (command_of_disabled hc hstatus hs).leads (.disabled s _)

/-- An upload fails to reach the daemon, is disabled, is too big, ends, or is aborted. -/
private theorem AtRest.upload_leads (hc : c.AtRest) (file : Msd.ImageFile) (files : Files)
    (limits : List Nat) (network : Daemon.Network) :
    Leads c (c.upload file files limits network).state
      (c.upload file files limits network).result.result := by
  -- The checks come in the order of the code: the status, the button, the size.
  rcases hstatus : c.client.status network with ⟨outcome, requests, network'⟩
  cases outcome with
  | error reason => exact (upload_of_error hstatus file files limits).leads (.unreached reason)
  | ok s =>
    by_cases hs : s.AllowsUpload
    · by_cases hsize : s.info.size < file.size
      · exact (upload_of_tooBig hc hstatus hs hsize files limits).leads (.tooBig s file.size)
      · have hfits := UInt64.not_lt.mp hsize
        obtain ⟨chunks, last, hresult⟩ :=
          c.client.exists_upload_result ⟨c.panel.started + 1⟩ file files limits network'
        rcases hsent : c.client.upload ⟨c.panel.started + 1⟩ file files limits network' with
          ⟨reports, requests', network''⟩
        rw [hsent] at hresult
        subst hresult
        -- Either the reports have an end, or the user has to make one.
        cases last with
        | none =>
          rw [Option.map_none, Option.toList_none, List.append_nil] at hsent
          exact (upload_of_noEnd hc hstatus hs hfits hsent).leads (.aborted s file)
        | some last =>
          exact (upload_of_end hc hstatus hs hfits hsent).leads (.uploaded s last.1 last.2)
    · exact (upload_of_disabled hc hstatus hs file files limits).leads (.disabled s .upload)

/-- A watch fails to open the channel, or ends with a pointer that has moved on. -/
private theorem AtRest.watch_leads (hc : c.AtRest) (running : Bool) (network : Daemon.Network) :
    Leads c (c.watch running network).state (c.watch running network).result.result := by
  -- Nothing is reported while the channel is followed.
  have hattend : ∀ (inputs : List Input) (farewell : String),
      inputs.filterMap Input.report? = [] → Leads c (c.attend inputs farewell).state (.ok ()) := by
    intro inputs farewell hinputs
    have hnone : ∀ e ∈ inputs.filterMap Input.report?, ∃ u, e.upload? = some u := by
      rw [hinputs]
      nofun
    obtain ⟨forwarder, hstate⟩ := exists_attend_state hc.upload hnone farewell
    rw [hstate]
    exact .watched forwarder
  cases hchannel : (c.client.openChannel network).result with
  | error reason =>
    simp only [Console.watch, hchannel]
    exact .unreached reason
  | ok frames =>
    simp only [Console.watch, hchannel]
    -- A watch that was stopped before it began follows nothing.
    cases running with
    | false => exact hattend [] "shutdown flag set; leaving watch loop" rfl
    | true => exact hattend _ "control channel closed" (filterMap_report?_watched frames)

/-- Every way in which a task can end. -/
theorem AtRest.perform_leads (hc : c.AtRest) (task : Task) (network : Daemon.Network) :
    Leads c (c.perform task network).state (c.perform task network).result.result := by
  cases task with
  | refresh => exact c.refresh_leads network
  | command command => exact hc.command_leads command network
  | upload file files limits => exact hc.upload_leads file files limits network
  | watch running => exact hc.watch_leads running network

end Ends

/-! ## Tasks that are not begun -/

/-- An operation that ends with a fault is the whole of what is built on it. -/
private theorem Operation.bind_eq_of_error {α β : Type} {operation : Operation α}
    {next : Console → Daemon.Network → α → Operation β} {fault : Fault}
    (h : operation.result.result = .error fault) :
    operation.bind next =
      operation.map fun exchange => ⟨.error fault, exchange.requests, exchange.network⟩ := by
  simp only [Operation.bind, h]
  rfl

/-- A refresh that cannot read the status changes nothing. -/
private theorem refresh_eq_of_error {c : Console} {network network' : Daemon.Network}
    {requests : List Daemon.Request} {reason : Daemon.Failure}
    (h : (c.client.status network).map (fun result => result.map fun _ => ()) =
      ⟨.error reason, requests, network'⟩) :
    c.refresh network = .idle c ⟨.error (.daemon reason), requests, network'⟩ := by
  rcases hexchange : c.client.status network with ⟨outcome, requests, network'⟩
  rw [hexchange] at h
  cases outcome with
  | error e =>
    cases h
    simp only [refresh, hexchange]
    rfl
  | ok s => cases h

/-- If the daemon does not answer, or not with what is needed, nothing happens: the console and both
    of its panels stay as they were, and nothing is shown. -/
theorem perform_eq_of_unreached {c : Console} {task : Task} {network network' : Daemon.Network}
    {requests : List Daemon.Request} {reason : Daemon.Failure}
    (h : c.contact task network = ⟨.error reason, requests, network'⟩) :
    c.perform task network = .idle c ⟨.error (.daemon reason), requests, network'⟩ := by
  cases task with
  -- Each task begins by contacting the daemon, and goes no further without an answer.
  | refresh =>
    rw [perform, refresh_eq_of_error h]
    rfl
  | command command =>
    rw [perform, Console.command, refresh_eq_of_error h, Operation.bind_eq_of_error rfl]
    rfl
  | upload file files limits =>
    rw [perform, Console.upload, refresh_eq_of_error h, Operation.bind_eq_of_error rfl]
    rfl
  | watch running =>
    rcases hexchange : c.client.openChannel network with ⟨outcome, requests, network'⟩
    simp only [contact, hexchange] at h
    cases outcome with
    | error e =>
      cases h
      simp only [perform, watch, hexchange]
      rfl
    | ok frames => cases h

end KvmConsole.Console
