import KvmConsole.Proofs.Console.EndToEnd
import KvmConsole.Proofs.Console.Sides
import KvmConsole.Proofs.Console.Tasks
import KvmConsole.Proofs.Msd.Renumbering

/-!
# Operations without a past

Nothing that the console has done makes a difference to what it does next, unless the user has
interrupted an upload. Between two operations the panel is as it was made, but for the status and
for the number of uploads so far. The first thing that a command or an upload does is to ask for the
status, and the numbers are not seen: the console and one that has just been made go through the
same turns from there on, only under other numbers.

Key results:
* `Mirrors.awaitCommand`, `Mirrors.awaitUpload`: two consoles that differ by the numbers wait alike.
* `Alike.command`, `Alike.upload`: they go alike through whole operations.
* `idle_and_history_free`: the console between operations.
-/

namespace KvmConsole

/-! ## Reports under other numbers -/

/-- What is reported about an upload under a higher number is the same, with the higher number. -/
private theorem Daemon.Client.upload_shift (c : Client) (k : Nat) (id : Msd.UploadId)
    (file : Msd.ImageFile) (files : Files) (limits : List Nat) (network : Network) :
    c.upload (id.shift k) file files limits network =
      (c.upload id file files limits network).map (·.map (Msd.Event.shift k)) := by
  have hprogress (chunks : List (List UInt8)) :
      progressEvents (id.shift k) file.size chunks =
        (progressEvents id file.size chunks).map (Msd.Event.shift k) := by
    rw [progressEvents, progressEvents, List.map_map]
    rfl
  -- The number is in the reports only, in no request.
  unfold Client.upload
  split
  · rfl
  · rfl
  · simp only [Exchange.map, hprogress]
    split
    · rw [List.map_append]
      rfl
    · rfl
    · split
      · rfl
      · rw [List.map_append]
        rfl

/-- A panel with nothing of its own under way. -/
structure Msd.Panel.IsIdle (p : Panel) : Prop where
  upload : p.upload = none
  selected : p.selected = none
  pending : p.pending = none
  progress : p.progress = .waiting

/-- But for the status, an idle panel is one that has just been made, under other numbers. -/
private theorem Msd.Panel.IsIdle.with_status_eq {p : Panel} (h : p.IsIdle)
    (status : Option Status) :
    { p with status } = ({ status } : Panel).shift p.started := by
  obtain ⟨_, _, _, _, _, started⟩ := p
  obtain ⟨hupload, hselected, hpending, hprogress⟩ := h
  dsimp only at hupload hselected hpending hprogress
  subst hupload hselected hpending hprogress
  rw [shift, Nat.zero_add]
  rfl

namespace Console

/-! ## Consoles under other numbers -/

/-- The views and the errors of the mass storage panel, in order. -/
def shownBy (effects : List Effect) : List Msd.Effect :=
  (effects.filterMap Effect.msd?).filter Msd.Effect.isSeen

/-- What two parts show comes one after the other. -/
private theorem shownBy_append (first second : List Effect) :
    shownBy (first ++ second) = shownBy first ++ shownBy second := by
  rw [shownBy, List.filterMap_append, List.filter_append]
  rfl

/-- The second console has the same client, and the same panel and reports with all uploads numbered
    higher by `k`. -/
structure Mirrors (k : Nat) (c c' : Console) : Prop where
  client : c'.client = c.client
  panel : c'.panel = c.panel.shift k
  reports : c'.reports = c.reports.map (Msd.Event.shift k)

/-- The second turn is the first with all uploads numbered higher by `k`, as far as can be seen of
    the mass storage panel. -/
structure Alike {α : Type} (k : Nat) (first second : Turn Console Effect α) : Prop where
  state : Mirrors k first.state second.state
  result : second.result = first.result
  shown : shownBy second.effects = shownBy first.effects

section Alike

variable {α β : Type} {k : Nat} {c c' : Console}

/-- Reports under the two numbers may be added to both. -/
private theorem Mirrors.with_reports (h : Mirrors k c c') (reports : List Msd.Event) :
    Mirrors k { c with reports }
      { c' with reports := reports.map (Msd.Event.shift k) } :=
  ⟨h.client, h.panel, rfl⟩

/-- Doing nothing is alike. -/
theorem Mirrors.idle (h : Mirrors k c c') (result : α) :
    Alike k (.idle c result) (.idle c' result) :=
  ⟨h, rfl, rfl⟩

/-- What the panels do alike the consoles do alike. -/
private theorem onPanel_alike (hclient : c'.client = c.client)
    (hreports : c'.reports = c.reports.map (Msd.Event.shift k))
    {turn turn' : Msd.Panel → Turn Msd.Panel Msd.Effect α}
    (hturn : Msd.Panel.Agrees k (turn c.panel) (turn' c'.panel)) :
    Alike k (c.onPanel turn) (c'.onPanel turn') := by
  refine ⟨⟨hclient, hturn.state, hreports⟩, hturn.result, ?_⟩
  simp only [shownBy, onPanel, filterMap_msd?_map_msd]
  exact hturn.seen

/-- Mirrored consoles do alike what their panels do alike. -/
theorem Mirrors.onPanel (h : Mirrors k c c')
    (turn turn' : Msd.Panel → Turn Msd.Panel Msd.Effect α)
    (hturn : Msd.Panel.Agrees k (turn c.panel) (turn' (c.panel.shift k))) :
    Alike k (c.onPanel turn) (c'.onPanel turn') := by
  rw [← h.panel] at hturn
  exact onPanel_alike h.client h.reports hturn

namespace Alike

variable {first second : Turn Console Effect α}

/-- A change of the result is alike on both sides. -/
protected theorem map (h : Alike k first second) (f : α → β) :
    Alike k (first.map f) (second.map f) :=
  ⟨h.state, congrArg f h.result, h.shown⟩

/-- The same note may come before both. -/
theorem after_note (h : Alike k first second) (level : Log.Level) (message : String)
    (fields : List (String × Log.Value)) :
    Alike k (first.after [note level message fields]) (second.after [note level message fields]) :=
  ⟨h.state, h.result, h.shown⟩

/-- Two turns go on alike if consoles under other numbers do. -/
theorem andThen (h : Alike k first second) {next next' : Console → Turn Console Effect β}
    (hnext : ∀ {d d'}, Mirrors k d d' → Alike k (next d) (next' d')) :
    Alike k (first.andThen next) (second.andThen next') := by
  have hlast := hnext h.state
  refine ⟨hlast.state, hlast.result, ?_⟩
  simp only [Turn.andThen, Turn.after, shownBy_append, h.shown, hlast.shown]

/-- Two operations go on alike, or end alike. -/
theorem bind {operation operation' : Operation α} (h : Alike k operation operation')
    {next : Console → Daemon.Network → α → Operation β}
    (hnext : ∀ {d d'}, Mirrors k d d' → ∀ network value,
      Alike k (next d network value) (next d' network value)) :
    Alike k (operation.bind next) (operation'.bind next) := by
  -- The two end alike, so that either both go on or neither does.
  cases hresult : operation.result.result with
  | error fault =>
    simp only [Operation.bind, h.result, hresult]
    exact h.map _
  | ok value =>
    simp only [Operation.bind, h.result, hresult]
    apply h.andThen
    intro d d' hd
    exact (hnext hd _ value).map _

end Alike

/-! ## Waiting under other numbers -/

/-- A report is handled alike under the two numbers. -/
theorem Mirrors.handle (h : Mirrors k c c') (e : Msd.Event) (rest : List Msd.Event) :
    Alike k ({ c with reports := rest }.onPanel (·.handle e))
      ({ c' with reports := rest.map (Msd.Event.shift k) }.onPanel (·.handle (e.shift k))) :=
  (h.with_reports rest).onPanel (·.handle e) (·.handle (e.shift k)) (c.panel.handle_shift e)

/-- The wait for a command is alike under the two numbers. -/
theorem Mirrors.awaitCommand (h : Mirrors k c c') (command : Msd.Command)
    (events : List Msd.Event) :
    Alike k (c.awaitCommand command events)
      (c'.awaitCommand command (events.map (Msd.Event.shift k))) := by
  induction events generalizing c c' with
  | nil => exact (h.with_reports []).idle _
  | cons e rest ih =>
    have hturn := h.handle e rest
    have hrest := hturn.andThen fun hd => ih hd
    cases e with
    | uploadProgress | uploadFinished => exact hrest
    | commandFinished done status body =>
      -- Both see the same command in the report.
      show Alike k (if done = command then _ else _) (if done = command then _ else _)
      by_cases hdone : done = command
      · rw [if_pos hdone, if_pos hdone]
        exact hturn.map _
      · rw [if_neg hdone, if_neg hdone]
        exact hrest

/-- The wait for an upload is alike under the two numbers. -/
theorem Mirrors.awaitUpload (h : Mirrors k c c') (events : List Msd.Event) :
    Alike k (c.awaitUpload events) (c'.awaitUpload (events.map (Msd.Event.shift k))) := by
  induction events generalizing c c' with
  | nil =>
    -- No report is left and the user has interrupted, so both panels abort their uploads.
    have habort := (h.with_reports []).onPanel (·.abortUpload) (·.abortUpload)
      c.panel.abortUpload_shift
    exact (habort.after_note .warn "interrupted; aborting upload" []).map _
  | cons e rest ih =>
    have hturn := h.handle e rest
    have hrest := hturn.andThen fun hd => ih hd
    cases e with
    | uploadProgress | commandFinished => exact hrest
    | uploadFinished u status body =>
      -- Both take it for the end of their upload, or neither does.
      have hresult := hturn.result
      cases houtcome :
          ({ c with reports := rest }.onPanel
            (·.handle (.uploadFinished u status body))).result with
      | uploadFinished ok =>
        rw [houtcome] at hresult
        simp only [Console.awaitUpload, List.map_cons, Msd.Event.shift] at hresult ⊢
        rw [houtcome, hresult]
        exact hturn.map _
      | _ =>
        rw [houtcome] at hresult
        simp only [Console.awaitUpload, List.map_cons, Msd.Event.shift] at hresult ⊢
        rw [houtcome, hresult]
        exact hrest

/-! ## Whole operations under other numbers -/

/-- A command is issued alike. -/
theorem Mirrors.issue (h : Mirrors k c c') (command : Msd.Command) :
    Alike k (c.issue command) (c'.issue command) := by
  cases command with
  | connect target =>
    exact h.onPanel (·.switchTo target) (·.switchTo target)
      (c.panel.issue_shift (.connect target))
  | reset =>
    exact h.onPanel (·.reset) (·.reset) (c.panel.issue_shift .reset)

/-- The same buttons are enabled. -/
private theorem Mirrors.view_eq (h : Mirrors k c c') : c'.panel.view = c.panel.view := by
  rw [h.panel, Msd.Panel.view_shift]

/-- The daemon is told the same, whatever number an upload has here. -/
theorem Mirrors.upload_eq (h : Mirrors k c c') (id : Msd.UploadId) (file : Msd.ImageFile)
    (files : Files) (limits : List Nat) (network : Daemon.Network) :
    c'.client.upload (id.shift k) file files limits network =
      (c.client.upload id file files limits network).map (·.map (Msd.Event.shift k)) := by
  rw [h.client, Daemon.Client.upload_shift]

variable {network : Daemon.Network}

/-- Two consoles that find the same status carry out a command alike. -/
theorem Alike.command (h : Alike k (c.refresh network) (c'.refresh network))
    (command : Msd.Command) :
    Alike k (c.command command network) (c'.command command network) := by
  unfold Console.command
  apply h.bind
  intro d d' hd network _
  rw [hd.view_eq]
  by_cases hdisabled : isDisabled d.panel.view.disabled command
  · rw [if_pos hdisabled, if_pos hdisabled]
    exact hd.idle _
  · rw [if_neg hdisabled, if_neg hdisabled]
    -- The end of the command is reported without a number.
    obtain ⟨status, body, hend⟩ := d.client.exists_command_result command network
    have hshift : (d.client.command command network).result =
        (d.client.command command network).result.map (Msd.Event.shift k) := by
      rw [hend]
      rfl
    rw [hd.client]
    apply Alike.map
    apply (hd.issue command).andThen
    intro e e' he
    rw [he.reports, hshift, ← List.map_append, ← hshift]
    exact he.awaitCommand command _

/-- Two consoles that find the same status carry out an upload alike. -/
theorem Alike.upload (h : Alike k (c.refresh network) (c'.refresh network))
    (file : Msd.ImageFile) (files : Files) (limits : List Nat) :
    Alike k (c.upload file files limits network) (c'.upload file files limits network) := by
  unfold Console.upload
  apply h.bind
  intro d d' hd network _
  rw [hd.view_eq]
  by_cases hdisabled : d.panel.view.disabled.selectNewImage
  · rw [if_pos hdisabled, if_pos hdisabled]
    exact hd.idle _
  · rw [if_neg hdisabled, if_neg hdisabled]
    have hselect := hd.onPanel (·.select file) (·.select file) (d.panel.select_shift file)
    have hanswer := hselect.result
    -- Both select the file, or both refuse it.
    cases hselected : (d.onPanel (·.select file)).result with
    | error refusal =>
      rw [hselected] at hanswer
      simp only [hselected, hanswer]
      exact hselect.map _
    | ok =>
      rw [hselected] at hanswer
      simp only [hselected, hanswer]
      apply hselect.andThen
      intro e e' he
      -- The second upload has the greater number.
      have hstart := he.onPanel (fun p => p.startUpload.map (·.map (Msd.UploadId.shift k)))
        (·.startUpload) e.panel.startUpload_shift
      have hnumber : (e'.onPanel (·.startUpload)).result =
          (e.onPanel (·.startUpload)).result.map (Msd.UploadId.shift k) := hstart.result
      cases hstarted : (e.onPanel (·.startUpload)).result with
      | error refusal =>
        rw [hstarted] at hnumber
        simp only [hnumber, Except.map]
        let ending : Daemon.Exchange (Except Fault Unit) := ⟨.error (.msd refusal), [], network⟩
        exact hstart.map fun _ => ending
      | ok id =>
        rw [hstarted] at hnumber
        simp only [hnumber, Except.map, he.upload_eq]
        have hwait : ∀ {f f'}, Mirrors k f f' → ∀ reports,
            Alike k (f.awaitUpload (f.reports ++ reports))
              (f'.awaitUpload (f'.reports ++ reports.map (Msd.Event.shift k))) := by
          intro f f' hf reports
          rw [hf.reports, ← List.map_append]
          exact hf.awaitUpload _
        exact (hstart.andThen fun hf => hwait hf _).map _

end Alike

/-! ## Consoles with a past -/

/-- A new console has a fresh panel and no reports. -/
private theorem panel_and_reports_of_ofSettings {s : Settings} {c : Console}
    (h : ofSettings s = .ok c) :
    c.panel = {} ∧ c.reports = [] := by
  unfold ofSettings at h
  cases hclient : Daemon.Client.ofSettings s with
  | error reason =>
    rw [hclient] at h
    cases h
  | ok client =>
    rw [hclient] at h
    rw [← Except.ok.inj h]
    exact ⟨rfl, rfl⟩

/-- What a new console may become as long as the user interrupts nothing. The control channel may
    also be followed with ticks and events in any order. -/
inductive Continues (fresh : Console) : Console → Prop where
  | start : Continues fresh fresh
  | perform {c : Console} (task : Task) (network : Daemon.Network) (h : Continues fresh c)
      (hdone : (c.perform task network).isInterrupted = false) :
    Continues fresh (c.perform task network).state
  | attend {c : Console} (inputs : List Input) (farewell : String) (h : Continues fresh c)
      (hinputs : inputs.filterMap Input.report? = []) :
    Continues fresh (c.attend inputs farewell).state
  /-- The user has moved the pointer or pressed a button. -/
  | point {c : Console} (step : Pointer.Step) (h : Continues fresh c) :
    Continues fresh (c.onPointer (·.step step)).state

namespace Continues

variable {s : Settings} {fresh c : Console}

/-- A console with such a past is between two operations, and nothing has been interrupted. -/
theorem between (hfresh : ofSettings s = .ok fresh) (h : Continues fresh c) : Between false c := by
  induction h with
  | start => exact .made hfresh
  | @perform c task network _ hdone ih =>
    cases task with
    | refresh => exact ih.refresh network
    | command command => exact ih.command command network
    -- An upload that has been interrupted is not part of the past.
    | upload file files limits =>
      have hstate := ih.upload file files limits network
      rw [Bool.false_or] at hstate
      rw [← hdone]
      exact hstate
    | watch running => exact ih.watch running network
  | @attend c inputs farewell _ hinputs ih =>
    exact ih.attend inputs farewell c.reports (by rw [hinputs, List.nil_append])
  | point step _ ih => exact ih.point step

/-- The daemon is still the same, and no report has been left over. -/
private theorem client_and_reports (hfresh : ofSettings s = .ok fresh) (h : Continues fresh c) :
    c.client = fresh.client ∧ c.reports = [] := by
  induction h with
  | start => exact ⟨rfl, (panel_and_reports_of_ofSettings hfresh).2⟩
  | perform task network h _ ih =>
    have hleads := (h.between hfresh).rested.perform_leads task network
    exact ⟨hleads.client.trans ih.1, hleads.reports ih.2⟩
  | @attend c inputs farewell _ _ ih =>
    have hruns := c.runs_attend inputs farewell
    exact ⟨hruns.client.trans ih.1, hruns.reports.trans ih.2⟩
  | point step _ ih => exact ih

/-- A console with a past is idle. -/
private theorem isIdle (hfresh : ofSettings s = .ok fresh) (h : Continues fresh c) :
    c.panel.IsIdle := by
  have hrested := (h.between hfresh).rested
  exact ⟨hrested.upload, hrested.unselected rfl, hrested.pending, hrested.progress⟩

/-- Having asked for the status, the console is like a new one that has done so. -/
private theorem refresh_alike (hfresh : ofSettings s = .ok fresh) (h : Continues fresh c)
    {network network' : Daemon.Network} {requests : List Daemon.Request} {status : Msd.Status}
    (hstatus : fresh.client.status network = ⟨.ok status, requests, network'⟩) :
    Alike c.panel.started (fresh.refresh network) (c.refresh network) := by
  obtain ⟨hclient, hreports⟩ := h.client_and_reports hfresh
  obtain ⟨hpanel, hempty⟩ := panel_and_reports_of_ofSettings hfresh
  have hqueue : c.reports = fresh.reports.map (Msd.Event.shift c.panel.started) := by
    rw [hreports, hempty]
    rfl
  -- Whatever status the panels knew, they now know the same.
  have hturn : Msd.Panel.Agrees c.panel.started (fresh.panel.setStatus (some status))
      (c.panel.setStatus (some status)) := by
    rw [hpanel]
    exact .shown ((h.isIdle hfresh).with_status_eq (some status)) rfl ()
  unfold refresh
  rw [hclient, hstatus]
  exact (onPanel_alike hclient hqueue hturn).map _

end Continues

/-- A console between two operations that the user has not interrupted, whatever operations there
    were before and however they ended.

    * Its panel has no upload in flight, no file selected, no command to wait for and no progress,
      and no report is left in the queue.
    * To ask for the status, to send a command or to upload a file comes to the same as on a console
      that has just been made: the same result with the same requests, and the same views and errors
      of the mass storage panel, in the same order. Nothing is assumed of the network.
    * No operation finds that its requests are not reported about, that no file is selected, that
      another upload is under way or that the state of the device is not known.
    * If the daemon does not tell the status, or the control channel cannot be opened, the operation
      leaves the console as it was, with both panels, and shows nothing. -/
theorem idle_and_history_free {s : Settings} {fresh c : Console} (hfresh : ofSettings s = .ok fresh)
    (hc : Continues fresh c) :
    (c.panel.IsIdle ∧ c.reports = []) ∧
    (∀ task network, (∀ running, task ≠ .watch running) →
      (c.perform task network).result = (fresh.perform task network).result ∧
      shownBy (c.perform task network).effects = shownBy (fresh.perform task network).effects) ∧
    (∀ task network fault, (c.perform task network).result.result = .error fault →
      fault ≠ .disconnected ∧ fault ≠ .msd .noImageSelected ∧ fault ≠ .msd .uploadInProgress ∧
        fault ≠ .msd .unavailable) ∧
    ∀ task network reason, (c.contact task network).result = .error reason →
      (c.perform task network).state = c ∧ (c.perform task network).effects = [] ∧
        (c.perform task network).result.result = .error (.daemon reason) := by
  obtain ⟨hclient, hreports⟩ := hc.client_and_reports hfresh
  refine ⟨⟨hc.isIdle hfresh, hreports⟩, ?_, ?_, ?_⟩
  · intro task network htask
    rcases hstatus : fresh.client.status network with ⟨outcome, requests, network'⟩
    cases outcome with
    | error reason =>
      -- Neither console does anything.
      have hcontact : fresh.contact task network = ⟨.error reason, requests, network'⟩ := by
        cases task with
        | watch running => exact absurd rfl (htask running)
        | _ =>
          simp only [contact, hstatus]
          rfl
      have hcontact' : c.contact task network = ⟨.error reason, requests, network'⟩ := by
        rw [← hcontact]
        unfold contact
        rw [hclient]
      rw [perform_eq_of_unreached hcontact, perform_eq_of_unreached hcontact']
      exact ⟨rfl, rfl⟩
    | ok status =>
      have hrefresh := hc.refresh_alike hfresh hstatus
      have halike :
          Alike c.panel.started (fresh.perform task network) (c.perform task network) := by
        cases task with
        | refresh => exact hrefresh.map _
        | command command => exact hrefresh.command command
        | upload file files limits => exact hrefresh.upload file files limits
        | watch running => exact absurd rfl (htask running)
      exact ⟨halike.result, halike.shown⟩
  · -- The faults of the console itself are never seen.
    intro task network fault hfault
    have hown := ((hc.between hfresh).rested.perform_leads task network).fault_isOwn hfault
    refine ⟨?_, ?_, ?_, ?_⟩ <;>
    · rintro rfl
      cases hown
  · intro task network reason hreason
    have heq : c.contact task network =
        ⟨.error reason, (c.contact task network).requests, (c.contact task network).network⟩ := by
      rw [← hreason]
    rw [perform_eq_of_unreached heq]
    exact ⟨rfl, rfl, rfl⟩

/-- A console whose upload the daemon has turned down, and which has found a button disabled after
    that, sends a command as a new one does. It has seen the status and counted an upload, and that
    is all that is left. -/
theorem history_free_after_rejected_upload :
    ∃ fresh, ofSettings {} = .ok fresh ∧
      let files : Files := fun _ => some (.file ⟨#[3, 10, 17]⟩)
      let first := fresh.perform (.upload ⟨"disk.img", 3, "disk.img"⟩ files [2])
        (.daemon [readyReply, .response 507 "full"])
      let second := first.state.perform (.command (.connect .kvm)) (.daemon [readyReply])
      let c := second.state
      let connect := Task.command (.connect .server)
      let network : Daemon.Network := .daemon [readyReply, .response 200 ""]
      first.result.result = .error (.rejected .upload 507 "full") ∧
      second.result.result = .error (.disabled (.command (.connect .kvm))) ∧
      c.panel.status = some readyDevice ∧ c.panel.started = 1 ∧ c.panel.IsIdle ∧
      (c.perform connect network).result.requests =
        [fresh.client.statusRequest, fresh.client.commandRequest (.connect .server)] ∧
      (c.perform connect network).result.result = .ok () ∧
      (c.perform connect network).result = (fresh.perform connect network).result ∧
      shownBy (c.perform connect network).effects =
        shownBy (fresh.perform connect network).effects := by
  obtain ⟨fresh, hfresh⟩ := exists_ofSettings_default
  refine ⟨fresh, hfresh, ?_⟩
  intro files first second c connect network
  have hrested := (Between.made hfresh).rested
  have hlearns := learns_readyReply fresh.client
  -- The upload is sent and turned down.
  have hread : files.read (⟨"disk.img", 3, "disk.img"⟩ : Msd.ImageFile).path =
      .ok ⟨#[3, 10, 17]⟩ := rfl
  have hfits : (⟨"disk.img", 3, "disk.img"⟩ : Msd.ImageFile).size ≤ readyDevice.info.size := by
    decide
  have hreply : Daemon.Reply.response 507 "full" ≠ .silence := by
    intro h
    cases h
  have hfirst := upload_of_end hrested.toAtRest
    (Daemon.Client.status_eq hrested.grounded hlearns [.response 507 "full"]) (by decide) hfits
    (Daemon.Client.upload_eq hrested.grounded hread ⟨fresh.panel.started + 1⟩ [2] hreply [])
  have hrejected : first.result.result = .error (.rejected .upload 507 "full") :=
    congrArg (·.result) hfirst.result
  have hdone : first.isInterrupted = false := by rw [Operation.isInterrupted, hrejected]
  have hcontinues := Continues.start.perform _ _ hdone
  -- The device is attached to the KVM already, so that the button is disabled.
  have hrested' := (hcontinues.between hfresh).rested
  have hattached : ¬ readyDevice.Allows (.connect .kvm) := by decide
  have hsecond := command_of_disabled hrested'.toAtRest
    (Daemon.Client.status_eq hrested'.grounded (learns_readyReply first.state.client) []) hattached
  have hdisabled : second.result.result = .error (.disabled (.command (.connect .kvm))) :=
    congrArg (·.result) hsecond.result
  have hdone' : second.isInterrupted = false := by rw [Operation.isInterrupted, hdisabled]
  obtain ⟨⟨hidle, -⟩, hsame, -⟩ :=
    idle_and_history_free hfresh (hcontinues.perform _ _ hdone')
  have hcommand : ∀ running, Task.command (.connect .server) ≠ .watch running := by
    intro running h
    cases h
  obtain ⟨hresult, hshown⟩ := hsame connect network hcommand
  -- On the new console the command is sent and carried out.
  have hallowed : readyDevice.Allows (.connect .server) := by decide
  have hconnect := command_of_allowed hrested.toAtRest
    (Daemon.Client.status_eq hrested.grounded hlearns [.response 200 ""]) hallowed
    (Daemon.Client.command_eq hrested.grounded (.connect .server) (.response 200 "") [])
  have hsent : (fresh.perform connect network).result.requests =
      [fresh.client.statusRequest, fresh.client.commandRequest (.connect .server)] :=
    congrArg (·.requests) hconnect.result
  have hcarried : (fresh.perform connect network).result.result = .ok () :=
    congrArg (·.result) hconnect.result
  have hstatus : c.panel.status = some readyDevice := congrArg (·.panel.status) hsecond.state
  have hstarted : c.panel.started = 1 := by
    have hkept : c.panel.started = first.state.panel.started :=
      congrArg (·.panel.started) hsecond.state
    have hcounted : first.state.panel.started = fresh.panel.started + 1 :=
      congrArg (·.panel.started) hfirst.state
    rw [hkept, hcounted, (panel_and_reports_of_ofSettings hfresh).1]
  exact ⟨hrejected, hdisabled, hstatus, hstarted, hidle, hresult ▸ hsent, hresult ▸ hcarried,
    hresult, hshown⟩

end Console

end KvmConsole
