import KvmConsole.Proofs.Console.Outcome

/-!
# Between operations

The consoles that there can be between two operations: those that have just been made, and those
that operations leave behind, in any number and order and whatever the network does. An upload that
the user interrupts is the only thing that leaves traces. Its file stays selected, and reports about
it may come in at any time afterwards. One that comes in during an operation might as well have been
in the queue before: a wait passes over it wherever it stands (`append_of_cons`).

Key results:
* `Between.rested`: whatever has happened, the console has come to rest.
* `Between.watch`: following the control channel is one of the ways in which `Between` says that it
  may be followed.
-/

namespace KvmConsole.Console

/-- The user has interrupted the operation. -/
def Operation.isInterrupted {α : Type} (operation : Operation α) : Bool :=
  match operation.result.result with
  | .error .aborted => true
  | _ => false

/-- The report that an input brings. -/
def Input.report? : Input → Option Msd.Event
  | .network event => some event
  | _ => none

/-- The consoles between two operations. The flag says whether an upload has been interrupted. -/
inductive Between : Bool → Console → Prop where
  | made {s : Settings} {c : Console} (hmade : ofSettings s = .ok c) : Between false c
  | refresh {i : Bool} {c : Console} (network : Daemon.Network) (h : Between i c) :
    Between i (c.refresh network).state
  | command {i : Bool} {c : Console} (command : Msd.Command) (network : Daemon.Network)
      (h : Between i c) :
    Between i (c.command command network).state
  | upload {i : Bool} {c : Console} (file : Msd.ImageFile) (files : Files) (limits : List Nat)
      (network : Daemon.Network) (h : Between i c) :
    Between (i || (c.upload file files limits network).isInterrupted)
      (c.upload file files limits network).state
  /-- More is reported about uploads that were started before. -/
  | late {c : Console} (events : List Msd.Event) (h : Between true c)
      (hevents : ∀ e ∈ events, ∃ u, e.upload? = some u ∧ u.number ≤ c.panel.started) :
    Between true { c with reports := c.reports ++ events }
  /-- The control channel has been followed. Among other inputs, and in any order with them, the
      console has taken in the first reports of the queue. -/
  | attend {i : Bool} {c : Console} (inputs : List Input) (farewell : String)
      (waiting : List Msd.Event) (h : Between i c)
      (hreports : c.reports = inputs.filterMap Input.report? ++ waiting) :
    Between i ({ c with reports := waiting }.attend inputs farewell).state
  /-- The user has moved the pointer or pressed a button. -/
  | point {i : Bool} {c : Console} (step : Pointer.Step) (h : Between i c) :
    Between i (c.onPointer (·.step step)).state

/-- A console at rest that can reach the daemon. It has no file selected, unless an upload has been
    interrupted. -/
structure Rested (i : Bool) (c : Console) : Prop extends AtRest c where
  grounded : c.client.IsGrounded
  unselected : i = false → c.panel.selected = none

variable {i : Bool} {c : Console}

/-! ## What keeps a console at rest -/

/-- A new console is at rest, with no file selected. -/
theorem Rested.made {s : Settings} (h : ofSettings s = .ok c) : c.Rested false := by
  unfold ofSettings at h
  cases hclient : Daemon.Client.ofSettings s with
  | error reason =>
    rw [hclient] at h
    cases h
  | ok client =>
    rw [hclient] at h
    have hc := (Except.ok.inj h).symm
    subst hc
    exact
      { upload := rfl
        pending := rfl
        progress := rfl
        stale := fun e he => absurd he List.not_mem_nil
        grounded := Daemon.Client.isGrounded_of_ofSettings hclient
        unselected := fun _ => rfl }

/-- A console that has seen a status is as much at rest as before. -/
theorem Rested.seen (hc : c.Rested i) (s : Msd.Status) : (c.seen s).Rested i :=
  ⟨⟨hc.upload, hc.pending, hc.progress, hc.stale⟩, hc.grounded, hc.unselected⟩

/-- A refresh leaves a console at rest. -/
private theorem Rested.after_refresh (hc : c.Rested i) (network : Daemon.Network) :
    (c.refresh network).state.Rested i := by
  rcases hstatus : c.client.status network with ⟨outcome, requests, network'⟩
  cases outcome with
  | error reason =>
    rw [(refresh_of_error hstatus).state]
    exact hc
  | ok s =>
    rw [(refresh_of_ok hstatus).state]
    exact hc.seen s

/-- A command leaves a console at rest, whether it was sent or not. -/
private theorem Rested.after_command (hc : c.Rested i) (command : Msd.Command)
    (network : Daemon.Network) :
    (c.command command network).state.Rested i := by
  rcases hstatus : c.client.status network with ⟨outcome, requests, network'⟩
  cases outcome with
  | error reason =>
    rw [(command_of_error hstatus command).state]
    exact hc
  | ok s =>
    -- The answer is awaited, and clears the pending command.
    by_cases hs : s.Allows command
    · obtain ⟨status, body, hresult⟩ := c.client.exists_command_result command network'
      rcases hsent : c.client.command command network' with ⟨reports, requests', network''⟩
      rw [hsent] at hresult
      subst hresult
      rw [(command_of_allowed hc.toAtRest hstatus hs hsent).state]
      exact ⟨⟨hc.upload, hc.pending, hc.progress, nofun⟩, hc.grounded, hc.unselected⟩
    · rw [(command_of_disabled hc.toAtRest hstatus hs).state]
      exact hc.seen s

/-- After an upload the console has no file selected, unless the upload was interrupted or an
    earlier one was. -/
private theorem Rested.after_upload (hc : c.Rested i) (file : Msd.ImageFile) (files : Files)
    (limits : List Nat) (network : Daemon.Network) :
    (c.upload file files limits network).state.Rested
      (i || (c.upload file files limits network).isInterrupted) := by
  rcases hstatus : c.client.status network with ⟨outcome, requests, network'⟩
  cases outcome with
  | error reason =>
    have h := upload_of_error hstatus file files limits
    simp only [Operation.isInterrupted, h.result, h.state, Bool.or_false]
    exact hc
  | ok s =>
    by_cases hs : s.AllowsUpload
    · by_cases hsize : s.info.size < file.size
      · have h := upload_of_tooBig hc.toAtRest hstatus hs hsize files limits
        simp only [Operation.isInterrupted, h.result, h.state, Bool.or_false]
        exact ⟨⟨hc.upload, hc.pending, hc.progress, hc.stale⟩, hc.grounded, fun _ => rfl⟩
      · have hfits := UInt64.not_lt.mp hsize
        obtain ⟨chunks, last, hresult⟩ :=
          c.client.exists_upload_result ⟨c.panel.started + 1⟩ file files limits network'
        rcases hsent : c.client.upload ⟨c.panel.started + 1⟩ file files limits network' with
          ⟨reports, requests', network''⟩
        rw [hsent] at hresult
        subst hresult
        -- Whether the reports have an end decides whether the user has to interrupt.
        cases last with
        | none =>
          rw [Option.map_none, Option.toList_none, List.append_nil] at hsent
          have h := upload_of_noEnd hc.toAtRest hstatus hs hfits hsent
          simp only [Operation.isInterrupted, h.result, h.state, Bool.or_true]
          exact ⟨⟨rfl, hc.pending, rfl, nofun⟩, hc.grounded, nofun⟩
        | some last =>
          have h := upload_of_end hc.toAtRest hstatus hs hfits hsent
          have hverdict : (c.upload file files limits network).isInterrupted = false := by
            rw [Operation.isInterrupted, h.result]
            split
            · rename_i heq
              exact nomatch eq_of_verdict_eq_error heq
            · rfl
          rw [hverdict, Bool.or_false, h.state]
          exact ⟨⟨rfl, hc.pending, rfl, nofun⟩, hc.grounded, fun _ => rfl⟩
    · have h := upload_of_disabled hc.toAtRest hstatus hs file files limits
      simp only [Operation.isInterrupted, h.result, h.state, Bool.or_false]
      exact hc.seen s

/-! ## Following the control channel -/

/-- While no upload is in flight, an input changes the status and the pointer at most: a report
    about an upload is stale. -/
private theorem exists_react_state (hupload : c.panel.upload = none) {input : Input}
    (hinput : ∀ e, input.report? = some e → ∃ u, e.upload? = some u) :
    ∃ status forwarder,
      (c.react input).state = { c with panel := { c.panel with status }, forwarder } := by
  cases input with
  -- What the daemon pushes is a status, a state of the device, or nothing of interest.
  | daemon event =>
    cases event with
    | msdState s => exact ⟨some s, c.forwarder, rfl⟩
    | hidState ok => exact ⟨c.panel.status, (c.forwarder.setDevice ok).state, rfl⟩
    | other => exact ⟨c.panel.status, c.forwarder, rfl⟩
  | network event =>
    -- With no upload in flight, the report is stale.
    obtain ⟨u, hu⟩ := hinput event rfl
    have hflight : c.panel.upload ≠ some u := by
      rw [hupload]
      nofun
    obtain ⟨-, hstate, -⟩ := Msd.Panel.handle_of_stale hu hflight
    refine ⟨c.panel.status, c.forwarder, ?_⟩
    show { c with panel := (c.panel.handle event).state } = c
    rw [hstate]
  | tick => exact ⟨c.panel.status, c.forwarder.tick.state, rfl⟩

/-- Following inputs without an upload in flight changes the status and the pointer only. -/
private theorem exists_follow_state (hupload : c.panel.upload = none) {inputs : List Input}
    (hinputs : ∀ e ∈ inputs.filterMap Input.report?, ∃ u, e.upload? = some u) :
    ∃ status forwarder,
      (c.follow inputs).state = { c with panel := { c.panel with status }, forwarder } := by
  induction inputs generalizing c with
  | nil => exact ⟨c.panel.status, c.forwarder, rfl⟩
  | cons input rest ih =>
    have hinput : ∀ e, input.report? = some e → ∃ u, e.upload? = some u := fun e he =>
      hinputs e (List.mem_filterMap.mpr ⟨input, List.mem_cons_self, he⟩)
    obtain ⟨status, forwarder, hreact⟩ := exists_react_state hupload hinput
    have hrest : ∀ e ∈ rest.filterMap Input.report?, ∃ u, e.upload? = some u := by
      intro e he
      obtain ⟨x, hx, hxe⟩ := List.mem_filterMap.mp he
      exact hinputs e (List.mem_filterMap.mpr ⟨x, List.mem_cons_of_mem input hx, hxe⟩)
    -- By induction along the inputs, since the state after one of them has no upload in flight
    -- either.
    obtain ⟨status', forwarder', hfollow⟩ :=
      ih (c := { c with panel := { c.panel with status }, forwarder }) hupload hrest
    refine ⟨status', forwarder', ?_⟩
    show ((c.react input).state.follow rest).state = _
    rw [hreact, hfollow]

/-- When the channel is left, nothing is known of the device any more. -/
theorem exists_attend_state (hupload : c.panel.upload = none) {inputs : List Input}
    (hinputs : ∀ e ∈ inputs.filterMap Input.report?, ∃ u, e.upload? = some u)
    (farewell : String) :
    ∃ forwarder,
      (c.attend inputs farewell).state =
        { c with panel := { c.panel with status := none }, forwarder } := by
  obtain ⟨status, forwarder, hfollow⟩ :=
    exists_follow_state (c := (c.onPointer (·.setChannel (some .accepting))).state) hupload hinputs
  refine ⟨(forwarder.setChannel none).state, ?_⟩
  have hstate : (c.attend inputs farewell).state =
      (((((c.onPointer (·.setChannel (some .accepting))).state.follow inputs).state.onPointer
        (·.setChannel none)).state).onPanel (·.setStatus none)).state := rfl
  rw [hstate, hfollow]
  rfl

/-- Attending to the channel leaves a console at rest. -/
private theorem Rested.after_attend (hc : c.Rested i) {inputs : List Input}
    {waiting : List Msd.Event}
    (hreports : c.reports = inputs.filterMap Input.report? ++ waiting) (farewell : String) :
    ({ c with reports := waiting }.attend inputs farewell).state.Rested i := by
  have hstale : ∀ e ∈ inputs.filterMap Input.report?, ∃ u, e.upload? = some u := by
    intro e he
    obtain ⟨u, hu, -⟩ := hc.stale e (by rw [hreports]; exact List.mem_append_left _ he)
    exact ⟨u, hu⟩
  obtain ⟨forwarder, hstate⟩ :=
    exists_attend_state (c := { c with reports := waiting }) hc.upload hstale farewell
  rw [hstate]
  -- What has not been taken in was in the queue before.
  have hwaiting : ∀ e ∈ waiting, ∃ u, e.upload? = some u ∧ u.number ≤ c.panel.started :=
    fun e he => hc.stale e (by rw [hreports]; exact List.mem_append_right _ he)
  exact ⟨⟨hc.upload, hc.pending, hc.progress, hwaiting⟩, hc.grounded, hc.unselected⟩

/-! ## Everything that leads from one operation to the next -/

/-- Between two operations a console is at rest, whatever has happened before. -/
theorem Between.rested (h : Between i c) : c.Rested i := by
  induction h with
  | made hmade => exact .made hmade
  | refresh network _ ih => exact ih.after_refresh network
  | command command network _ ih => exact ih.after_command command network
  | upload file files limits network _ ih => exact ih.after_upload file files limits network
  -- Late reports are stale like those that were waiting.
  | late events _ hevents ih =>
    refine ⟨⟨ih.upload, ih.pending, ih.progress, fun e he => ?_⟩, ih.grounded, ih.unselected⟩
    rcases List.mem_append.mp he with hqueue | hlate
    · exact ih.stale e hqueue
    · exact hevents e hlate
  | attend inputs farewell waiting _ hreports ih => exact ih.after_attend hreports farewell
  | point step _ ih =>
    exact ⟨⟨ih.upload, ih.pending, ih.progress, ih.stale⟩, ih.grounded, ih.unselected⟩

/-- None of the inputs while the control channel is followed by `watch` is a report. -/
theorem filterMap_report?_watched (frames : List Daemon.Frame) :
    (Input.tick :: (understood frames).map Input.daemon).filterMap Input.report? = [] := by
  rw [List.filterMap_cons_none rfl, List.filterMap_map, List.filterMap_eq_nil_iff]
  intro event _
  rfl

/-- `watch` leaves all reports in the queue. -/
theorem Between.watch (h : Between i c) (running : Bool) (network : Daemon.Network) :
    Between i (c.watch running network).state := by
  have hattend : ∀ (inputs : List Input) (farewell : String),
      inputs.filterMap Input.report? = [] → Between i (c.attend inputs farewell).state := by
    intro inputs farewell hinputs
    exact h.attend inputs farewell c.reports (by rw [hinputs, List.nil_append])
  -- A channel that does not open leaves the console as it is.
  cases hchannel : (c.client.openChannel network).result with
  | error reason =>
    simp only [Console.watch, hchannel]
    exact h
  | ok frames =>
    simp only [Console.watch, hchannel]
    cases running with
    | false => exact hattend [] "shutdown flag set; leaving watch loop" rfl
    | true => exact hattend _ "control channel closed" (filterMap_report?_watched frames)

end KvmConsole.Console
