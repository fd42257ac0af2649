import KvmConsole.Proofs.Msd.UploadAccount

/-!
# The selected file

An upload sends the file that is selected when it is started. A file gets selected by passing one
check, against the size of the storage that is known at that moment, and no later change of the
storage takes it back. What does is another file, whether it fits or not, and the end of an upload.
So behind every upload there is the one check that has admitted its file.

Key results:
* `selected_eq_some_iff`: what one step does to the selected file.
* `after_selected_eq_some_iff`: the selected file is the one admitted last.
* `Reacts.refuses_tooBig`: what comes of a file that does not fit.
* `uploaded_files_admitted`: the files of a session.
-/

namespace KvmConsole.Msd

open Panel

namespace Moment

variable (m : Moment)

/-- A file is selected, and it fits the storage of the status known at that moment. -/
def Admits (file : ImageFile) : Prop :=
  m.input = .select file ∧ m.turn.result = .selected ∧
    ∃ status, m.before.status = some status ∧ file.size ≤ status.info.size

/-- A file is picked while a status is known, so that it takes the place of the one before or is
    refused. -/
def Picks : Prop := (∃ file, m.input = .select file) ∧ m.before.status ≠ none

end Moment

/-- The file has been admitted. Since then no other has been picked, and no upload has ended. -/
def Admitted (h : List Moment) (file : ImageFile) : Prop :=
  Turn.HoldsSince (fun _ m => m.Admits file) (fun m => ¬ m.Picks ∧ m.finished = []) h

namespace Panel

/-! ## One step -/

/-- After a step, the selected file is the one that the step admitted, or the one from before if the
    step neither picked a file nor saw an upload end. -/
theorem selected_eq_some_iff {p : Panel} {s : Step} {turn : Turn Panel Effect Reply}
    (h : p.Reacts s turn) (file : ImageFile) :
    turn.state.selected = some file ↔
      Moment.Admits ⟨p, s, turn⟩ file ∨
        p.selected = some file ∧ ¬ Moment.Picks ⟨p, s, turn⟩ ∧
          Moment.finished ⟨p, s, turn⟩ = [] := by
  cases h with
  | selectUnknown other hstatus =>
    -- With no status known there is nothing to check against, and the selection stays.
    simp [Moment.Admits, Moment.Picks, Moment.finished, hstatus]
  | selectTooBig other status hstatus hsize =>
    simp [Moment.Admits, Moment.Picks, shown, hstatus]
  | select other status hstatus hsize =>
    have hfits : other = file → file.size ≤ status.info.size := by
      intro hother
      rw [← hother]
      exact hsize
    simpa [Moment.Admits, Moment.Picks, shown, hstatus] using hfits
  -- The end of an upload clears the selection.
  | finish u status body hupload =>
    simp [Moment.Admits, Moment.finished, shown]
  | _ => simp [Moment.Admits, Moment.Picks, Moment.finished, shown, Turn.idle, Turn.map, issue]

/-- A file that does not fit is refused, with its size and that of the storage. One error is shown,
    and of the panel nothing changes but that no file is selected. -/
theorem Reacts.refuses_tooBig {p : Panel} {file : ImageFile} {turn : Turn Panel Effect Reply}
    (h : p.Reacts (.select file) turn) {status : Status} (hstatus : p.status = some status)
    (hsize : status.info.size < file.size) :
    turn.result = .refused (.imageTooBig file.size status.info.size) ∧
      turn.effects.filterMap Effect.notice? = [tooBigMessage status.info.size] ∧
      turn.state = { p with selected := none } ∧
      Moment.started ⟨p, .select file, turn⟩ = [] ∧
      Moment.cancelled ⟨p, .select file, turn⟩ = [] := by
  cases h with
  -- The size is known, and the file does not fit: only one of the three reactions is left.
  | selectUnknown _ hunknown =>
    rw [hunknown] at hstatus
    cases hstatus
  | selectTooBig _ known hknown _ =>
    have hsame : known = status := Option.some.inj (hknown.symm.trans hstatus)
    subst hsame
    exact ⟨rfl, rfl, rfl, rfl, rfl⟩
  | select _ known hknown hfits =>
    have hsame : known = status := Option.some.inj (hknown.symm.trans hstatus)
    subst hsame
    exact absurd hsize (UInt64.not_lt.mpr hfits)

end Panel

/-! ## Whole sessions -/

/-- What is selected can be told from the history. -/
theorem after_selected_eq_some_iff (steps : List Step) (file : ImageFile) :
    (after steps).selected = some file ↔ Admitted (history steps) file :=
  Turn.final_iff_holdsSince step (P := (·.selected = some file))
    (fun p s => selected_eq_some_iff (reacts_step p s) file) (Option.some_ne_none file).symm steps

/-- The files of any session, those that are uploaded and those that are refused.

    * Whenever a file is handed to the network, it has been admitted before: it was picked while a
      status was known whose storage it fits. Since then no file has been picked under a known
      status, and no end of an upload has been taken in.
    * A file that does not fit is refused, with its size and that of the storage, and one error is
      shown. No file is selected after that. Otherwise the panel is as it was, with its upload, its
      command and its progress, and nothing is started or cancelled. -/
theorem uploaded_files_admitted (steps : List Step) :
    (∀ past m since, history steps = past ++ m :: since →
      ∀ u file, .startUpload u file ∈ m.turn.effects → Admitted past file) ∧
    (∀ m ∈ history steps, ∀ file status, m.input = .select file → m.before.status = some status →
      status.info.size < file.size →
        m.turn.result = .refused (.imageTooBig file.size status.info.size) ∧
        m.turn.effects.filterMap Effect.notice? = [tooBigMessage status.info.size] ∧
        m.turn.state = { m.before with selected := none } ∧
        m.started = [] ∧ m.cancelled = []) := by
  constructor
  · intro past m since hcut u file hstart
    have hm : m ∈ history steps := by
      rw [hcut]
      simp
    -- The file is the selected one, and what comes before the start is a session of its own.
    have hselected : m.before.selected = some file :=
      ((startUpload_mem_effects_iff (reacts_of_mem_history hm) file).mp ⟨u, hstart⟩).2.2
    obtain ⟨hpast, hbefore, -, -⟩ := Turn.history_eq_append_cons step {} hcut
    have hafter : m.before = after (past.map (·.input)) := hbefore
    have hhistory : past = history (past.map (·.input)) := hpast
    rw [hafter, after_selected_eq_some_iff, ← hhistory] at hselected
    exact hselected
  · intro m hm file status hinput hstatus hsize
    have hreacts := reacts_of_mem_history hm
    obtain ⟨before, input, turn⟩ := m
    subst hinput
    exact hreacts.refuses_tooBig hstatus hsize

end KvmConsole.Msd
