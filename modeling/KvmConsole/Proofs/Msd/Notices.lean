import KvmConsole.Proofs.Msd.UploadAccount

/-!
# Alarms

A panel shows an error to the user in three cases: a file is picked that does not fit the storage,
the upload under way has failed, or a command has failed. Whether there is reason for alarm, and
what it says, follows from what has happened before. The error about a command names the command
that the answer belongs to, whichever one is pending when it comes in. An alarm is shown before the
panel is shown as it is then.

Key results:
* `after_status`: the status of a panel is the one taken over last.
* `Reacts.notifies`: a step shows the alarm that there is reason for, or no error.
* `notices_of_history`: the errors shown in a session.
-/

namespace KvmConsole.Msd

open Panel

/-- The status that was taken over last in a history. Before any was, none is known. -/
def statusIn (h : List Moment) : Option Status :=
  (h.filterMap (·.input.status?)).getLast?.getD none

/-- The alarm that a step is reason for, after what has happened before. -/
def alarm? (past : List Moment) : Step → Option String
  | .select file =>
    (statusIn past).bind fun status =>
      if status.info.size < file.size then
        some ("New image is too big for your Mass Storage Device. Maximum: " ++
          sizeText status.info.size)
      else none
  | .event (.uploadFinished u status body) =>
    if Underway past u ∧ status ≠ 200 then
      some ("Can't upload image to the Mass Storage Device: " ++ body)
    else none
  | .event (.commandFinished (.connect target) status body) =>
    if status ≠ 200 then
      some ("Can't switch the Mass Storage Device to " ++ target.name ++ ": " ++ body)
    else none
  | .event (.commandFinished .reset status body) =>
    if status ≠ 200 then some ("Mass Storage Device reset failed: " ++ body) else none
  | _ => none

/-- With a status known, the alarm of a selection is that the file is too big. -/
private theorem alarm?_select {past : List Moment} {status : Status}
    (h : statusIn past = some status)
    (file : ImageFile) :
    alarm? past (.select file) =
      if status.info.size < file.size then some (tooBigMessage status.info.size) else none := by
  rw [alarm?, h, Option.bind_some]
  rfl

/-- The alarm of an answer is that the command has failed. -/
private theorem alarm?_commandFinished (past : List Moment) (command : Command) (status : UInt16)
    (body : String) :
    alarm? past (.event (.commandFinished command status body)) =
      if status = httpOk then none else some (commandFailedMessage command body) := by
  cases command <;> exact ite_not _ _ _

/-- The alarms that there is reason for in what follows a history, in order. -/
def alarmsSince (past : List Moment) : List Moment → List String
  | [] => []
  | m :: since => (alarm? past m.input).toList ++ alarmsSince (past ++ [m]) since

/-- The errors shown in a history, in order. -/
def noticesIn (h : List Moment) : List String := h.flatMap Moment.notices

namespace Panel

/-- The status is the one that was set last. -/
theorem Reacts.status_eq {p : Panel} {s : Step} {turn : Turn Panel Effect Reply}
    (h : p.Reacts s turn) : turn.state.status = s.status?.getD p.status := by
  cases h <;> rfl

/-- The status of a panel is the one taken over last. -/
theorem after_status (steps : List Step) : (after steps).status = statusIn (history steps) :=
  Turn.final_eq_getLast? step {} (·.status) Step.status?
    (fun p s => (reacts_step p s).status_eq) steps

/-! ## One step -/

/-- The two things that a moment can do after `past`. -/
inductive Notifies (past : List Moment) (m : Moment) : Prop where
  /-- The alarm is shown, and then the panel. -/
  | alarms (message : String) (halarm : alarm? past m.input = some message)
      (hactions : m.actions = [.notify message, .render m.turn.state.view])
      (hnotices : m.notices = [message])
  | silent (halarm : alarm? past m.input = none) (hnotices : m.notices = [])

/-- An error that there is reason for is shown with the panel after the step. -/
private theorem Notifies.of_alarm {past : List Moment} {p q : Panel} {s : Step} {message : String}
    (halarm : alarm? past s = some message) (result : Reply) :
    Notifies past ⟨p, s, q.shown [.notify message] result⟩ :=
  .alarms message halarm rfl rfl

/-- A panel that knows the status and the upload of a history notifies as the history has it. -/
theorem Reacts.notifies {p : Panel} {s : Step} {turn : Turn Panel Effect Reply}
    (h : p.Reacts s turn) {past : List Moment} (hknown : p.status = statusIn past)
    (hunderway : ∀ u, p.upload = some u ↔ Underway past u) : Notifies past ⟨p, s, turn⟩ := by
  cases h with
  -- The status the panel knows is the one of the history, and so is the upload under way.
  | selectUnknown file hstatus =>
    refine .silent ?_ rfl
    simp only [alarm?, ← hknown, hstatus, Option.bind_none]
  | selectTooBig file status hstatus hsize =>
    have halarm := alarm?_select (hknown.symm.trans hstatus) file
    rw [if_pos hsize] at halarm
    exact .of_alarm halarm _
  | select file status hstatus hsize =>
    have halarm := alarm?_select (hknown.symm.trans hstatus) file
    rw [if_neg (UInt64.not_lt.mpr hsize)] at halarm
    exact .silent halarm rfl
  -- The end of an upload is an alarm only if the upload was under way.
  | staleEnd u status body hupload =>
    rw [Ne, hunderway] at hupload
    exact .silent (if_neg fun h => hupload h.1) rfl
  | finish u status body hupload =>
    rw [hunderway] at hupload
    by_cases hok : status = httpOk
    · rw [if_pos hok]
      exact .silent (if_neg fun h => h.2 hok) rfl
    · rw [if_neg hok]
      have halarm : alarm? past (.event (.uploadFinished u status body)) =
          some (uploadFailedMessage body) := if_pos ⟨hupload, hok⟩
      exact .of_alarm halarm _
  | answered command status body =>
    have halarm := alarm?_commandFinished past command status body
    by_cases hok : status = httpOk
    · rw [if_pos hok] at halarm ⊢
      exact .silent halarm rfl
    · rw [if_neg hok] at halarm ⊢
      exact .of_alarm halarm _
  | _ => exact .silent rfl rfl

end Panel

/-! ## Whole sessions -/

/-- At every moment of a session, the panel knows the status and the upload of what came before. -/
private theorem notifies_of_cut {steps : List Step} {past since : List Moment} {m : Moment}
    (hcut : history steps = past ++ m :: since) : Notifies past m := by
  have hm : m ∈ history steps := by
    rw [hcut]
    simp
  obtain ⟨hpast, hbefore, -, -⟩ := Turn.history_eq_append_cons step {} hcut
  have hpast : past = history (past.map (·.input)) := hpast
  have hbefore : m.before = after (past.map (·.input)) := hbefore
  refine (reacts_of_mem_history hm).notifies ?_ fun u => ?_
  · rw [hbefore, after_status, ← hpast]
  · rw [hbefore, after_upload_eq_some_iff, ← hpast]

/-- From any moment on, the notifications are the alarms of the history. -/
private theorem noticesIn_since {steps : List Step} {past since : List Moment}
    (hcut : history steps = past ++ since) : noticesIn since = alarmsSince past since := by
  induction since generalizing past with
  | nil => rfl
  | cons m since ih =>
    rw [noticesIn, List.flatMap_cons, ← noticesIn, alarmsSince,
      ih (hcut.trans (List.append_cons past m since))]
    -- The first moment notifies of its alarm, which needs all that came before it.
    cases notifies_of_cut hcut with
    | alarms message halarm _ hnotices =>
      rw [hnotices, halarm]
      rfl
    | silent halarm hnotices =>
      rw [hnotices, halarm]
      rfl

/-- No failure in a session is silent, and no alarm is false.

    * The errors shown are the alarms that there is reason for, in order: one for each file that
      does not fit the storage known last, one for each upload under way that ends with another
      status than 200, and one for each command that does.
    * A step that is reason for an alarm shows it and then the panel as it is after the step. Apart
      from records in the log it does nothing else.
    * A step that is reason for none shows no error. -/
theorem notices_of_history (steps : List Step) :
    noticesIn (history steps) = alarmsSince [] (history steps) ∧
    ∀ past m since, history steps = past ++ m :: since →
      (∀ message, alarm? past m.input = some message →
        m.actions = [.notify message, .render m.turn.state.view]) ∧
      (alarm? past m.input = none → m.notices = []) := by
  refine ⟨noticesIn_since (List.nil_append _).symm, fun past m since hcut => ?_⟩
  cases notifies_of_cut hcut with
  | alarms message halarm hactions _ =>
    refine ⟨fun message' halarm' => ?_, fun hnone => ?_⟩
    · rw [hactions, Option.some.inj (halarm.symm.trans halarm')]
    · rw [halarm] at hnone
      cases hnone
  | silent halarm hnotices =>
    refine ⟨fun message halarm' => ?_, fun _ => hnotices⟩
    rw [halarm] at halarm'
    cases halarm'

/-- The answer to a command that another one has replaced. -/
example :
    noticesIn (history
      [.switchTo .kvm, .reset, .event (.commandFinished (.connect .kvm) 500 "busy")]) =
      ["Can't switch the Mass Storage Device to kvm: busy"] := by
  decide +kernel

end KvmConsole.Msd
