import KvmConsole.Proofs.Msd.Session
import Mathlib.Data.List.Nodup
import Mathlib.Data.List.Range

/-!
# The account of uploads

A panel remembers one upload at most, and everything that it does about uploads is in its history.
The two agree: the upload in flight is the one that was started and has not come to an end since,
and every upload that was ever started is in flight, has been cancelled, or has finished, and only
one of the three.

Key results:
* `upload_eq_some_iff`: what one step does to the upload in flight.
* `started_balance`: what one step does to the account.
* `uploads_accounted_for`: the account of a whole session.
-/

namespace KvmConsole.Msd

open Panel

/-- The upload whose end a step reports. -/
def Step.ended? : Step → Option UploadId
  | .event (.uploadFinished u _ _) => some u
  | _ => none

/-- Only the report of an end ends an upload. -/
private theorem Step.ended?_eq_some_iff {s : Step} {u : UploadId} :
    s.ended? = some u ↔ ∃ status body, s = .event (.uploadFinished u status body) := by
  cases s with
  | event e => cases e <;> simp [ended?]
  | _ => simp [ended?]

namespace Moment

/-- The moment answers that upload `u` has been started. -/
def Starts (m : Moment) (u : UploadId) : Prop :=
  m.input = .startUpload ∧ m.turn.result = .started u

/-- The moment takes in a request to abort, or a report that upload `u` has ended. -/
def Ends (m : Moment) (u : UploadId) : Prop :=
  m.input = .abortUpload ∨ ∃ status body, m.input = .event (.uploadFinished u status body)

instance (m : Moment) (u : UploadId) : Decidable (m.Starts u) :=
  inferInstanceAs (Decidable (_ ∧ _))

instance (m : Moment) (u : UploadId) : Decidable (m.Ends u) :=
  decidable_of_iff (m.input = .abortUpload ∨ m.input.ended? = some u)
    (or_congr_right Step.ended?_eq_some_iff)

end Moment

/-- Upload `u` has been started, and neither an abort nor its end has been taken in since. -/
def Underway (h : List Moment) (u : UploadId) : Prop :=
  ∃ past m since, h = past ++ m :: since ∧ m.Starts u ∧ ∀ x ∈ since, ¬ x.Ends u

instance (h : List Moment) (u : UploadId) : Decidable (Underway h u) :=
  inferInstanceAs
    (Decidable (Turn.HoldsSince (fun _ (m : Moment) => m.Starts u) (fun m => ¬ m.Ends u) h))

/-! ## One step -/

/-- After a step, the upload in flight is the one that the step started, or the one that was in
    flight before and did not end in it. -/
theorem upload_eq_some_iff {p : Panel} {s : Step} {turn : Turn Panel Effect Reply}
    (h : p.Reacts s turn) (u : UploadId) :
    turn.state.upload = some u ↔
      Moment.Starts ⟨p, s, turn⟩ u ∨ p.upload = some u ∧ ¬ Moment.Ends ⟨p, s, turn⟩ u := by
  cases h with
  | staleEnd v _ _ hupload =>
    -- The report is about another upload than the one in flight.
    have hne : p.upload = some u → v ≠ u := fun hu hv => hupload (hv ▸ hu)
    simpa [Moment.Starts, Moment.Ends] using hne
  | _ => simp [Moment.Starts, Moment.Ends, shown, Turn.idle, Turn.map, issue, *]

/-- What a step starts goes into flight, and what it takes out of flight it has cancelled or seen
    finished. -/
theorem started_balance {m : Moment} (h : MovesUpload m) :
    m.started ++ m.before.upload.toList =
      m.cancelled ++ m.finished ++ m.turn.state.upload.toList := by
  -- The two sides are the same two lists in each of the four cases.
  cases h with
  | starts hbefore hstarted hcancelled hfinished hafter _ =>
    rw [hbefore, hstarted, hcancelled, hfinished, hafter]
    rfl
  | cancels u hbefore hstarted hcancelled hfinished hafter _ =>
    rw [hbefore, hstarted, hcancelled, hfinished, hafter]
    rfl
  | finishes u hbefore hstarted hcancelled hfinished hafter _ =>
    rw [hbefore, hstarted, hcancelled, hfinished, hafter]
    rfl
  | rests hstarted hcancelled hfinished hafter _ =>
    rw [hstarted, hcancelled, hfinished, hafter]
    rfl

/-- A step hands the selected file to the network if it is asked to and no upload is in flight, and
    under no other circumstances. -/
theorem startUpload_mem_effects_iff {p : Panel} {s : Step} {turn : Turn Panel Effect Reply}
    (h : p.Reacts s turn) (file : ImageFile) :
    (∃ u, .startUpload u file ∈ turn.effects) ↔
      s = .startUpload ∧ p.upload = none ∧ p.selected = some file := by
  cases h with
  | start file' hupload hselected =>
    simp [shown, rendering, note, hupload, hselected, eq_comm]
  | finish _ status _ _ =>
    by_cases hok : status = httpOk <;> simp [shown, rendering, note, hok]
  | answered _ status _ =>
    by_cases hok : status = httpOk <;> simp [shown, rendering, note, hok]
  | _ => simp [shown, rendering, note, Turn.idle, Turn.map, issue, *]

/-- Uploads are numbered as they are started. -/
private theorem started_eq_range' {m : Moment} (h : MovesUpload m) :
    ∃ n, m.turn.state.started = m.before.started + n ∧
      m.started = (List.range' (m.before.started + 1) n).map UploadId.mk := by
  cases h with
  | starts _ hstarted _ _ _ hcount => exact ⟨1, hcount, hstarted⟩
  | cancels _ _ hstarted _ _ _ hcount | finishes _ _ hstarted _ _ _ hcount
  | rests hstarted _ _ _ hcount => exact ⟨0, hcount, hstarted⟩

/-- An upload that is answered as started has been handed to the network. -/
private theorem mem_started_of_starts {p : Panel} {s : Step} {turn : Turn Panel Effect Reply}
    (h : p.Reacts s turn) {u : UploadId} (hu : Moment.Starts ⟨p, s, turn⟩ u) :
    u ∈ Moment.started ⟨p, s, turn⟩ := by
  cases h with
  | start file _ _ =>
    obtain ⟨-, hresult⟩ := hu
    have hu : (⟨p.started + 1⟩ : UploadId) = u := by simpa [shown] using hresult
    simp [Moment.started, shown, note, List.filterMap_cons, hu]
  | _ => simp [Moment.Starts, shown, Turn.idle] at hu

/-! ## Whole sessions -/

/-- The uploads handed to the network in a history, in order. -/
def startedIn (h : List Moment) : List UploadId := h.flatMap Moment.started

/-- The uploads cancelled in a history, in order. -/
def cancelledIn (h : List Moment) : List UploadId := h.flatMap Moment.cancelled

/-- The uploads whose end was taken in in a history, in order. -/
def finishedIn (h : List Moment) : List UploadId := h.flatMap Moment.finished

/-- What is under way can be told from the history. -/
theorem after_upload_eq_some_iff (steps : List Step) (u : UploadId) :
    (after steps).upload = some u ↔ Underway (history steps) u :=
  Turn.final_iff_holdsSince step (P := (·.upload = some u))
    (fun p s => upload_eq_some_iff (reacts_step p s) u) (Option.some_ne_none u).symm steps

/-- Uploads are numbered from one, without gaps. -/
private theorem startedIn_history (steps : List Step) :
    startedIn (history steps) = (List.range' 1 (after steps).started).map UploadId.mk := by
  induction steps using List.reverseRecOn with
  | nil => rfl
  | append_singleton steps s ih =>
    obtain ⟨n, hstate, hstarted⟩ := started_eq_range' (reacts_step (after steps) s).movesUpload
    rw [history_concat, after_concat, hstate, startedIn, List.flatMap_append,
      List.flatMap_singleton, hstarted, ← startedIn, ih, ← List.map_append, Nat.add_comm _ 1,
      List.range'_append_1]

/-- No number is used twice. -/
theorem nodup_startedIn_history (steps : List Step) : (startedIn (history steps)).Nodup := by
  rw [startedIn_history]
  exact List.Nodup.map (fun _ _ hab => congrArg UploadId.number hab) List.nodup_range'

/-- Every upload that was started has been cancelled, has finished, or is in flight. -/
private theorem startedIn_perm (steps : List Step) :
    (startedIn (history steps)).Perm
      (cancelledIn (history steps) ++ finishedIn (history steps) ++
        (after steps).upload.toList) := by
  induction steps using List.reverseRecOn with
  | nil => exact .refl _
  | append_singleton steps s ih =>
    -- One upload is counted on both sides. A step adds as much to the one as to the other.
    rw [List.perm_iff_count] at ih ⊢
    intro u
    have hbefore := ih u
    have hmoves := (reacts_step (after steps) s).movesUpload
    have hstep := congrArg (List.count u) (started_balance hmoves)
    simp only [startedIn, cancelledIn, finishedIn, history_concat, after_concat,
      List.flatMap_append, List.flatMap_singleton, List.count_append] at hbefore hstep ⊢
    omega

/-- What starts at a moment is among what starts in the session. -/
private theorem started_mem_startedIn {steps : List Step} {m : Moment} (hm : m ∈ history steps)
    {u : UploadId} (hu : m.Starts u) : u ∈ startedIn (history steps) :=
  List.mem_flatMap.mpr ⟨m, hm, mem_started_of_starts (reacts_of_mem_history hm) hu⟩

/-- The account of the uploads of any session, whatever happens in it and whatever uploads the
    network reports about. A session cut short is a session, so the first part says what is in
    flight after every step.

    * The upload in flight is the one that was started and has neither been aborted nor ended since.
    * A file is handed to the network when a start is asked for while no upload is in flight and the
      file is selected, and at no other time.
    * Every upload that is answered as started is handed to the network once. It is cancelled or
      taken in as finished at most once, and not both.
    * The uploads started are as many as those cancelled, those finished, and the one in flight. -/
theorem uploads_accounted_for (steps : List Step) :
    (∀ u, (after steps).upload = some u ↔ Underway (history steps) u) ∧
    (∀ m ∈ history steps, ∀ file, (∃ u, .startUpload u file ∈ m.turn.effects) ↔
      m.input = .startUpload ∧ m.before.upload = none ∧ m.before.selected = some file) ∧
    (∀ m ∈ history steps, ∀ u, m.Starts u → (startedIn (history steps)).count u = 1) ∧
    (∀ u, (cancelledIn (history steps)).count u + (finishedIn (history steps)).count u ≤
      (startedIn (history steps)).count u ∧ (startedIn (history steps)).count u ≤ 1) ∧
    (startedIn (history steps)).length =
      (cancelledIn (history steps)).length + (finishedIn (history steps)).length +
        if (after steps).upload.isSome then 1 else 0 := by
  have hnodup := nodup_startedIn_history steps
  have hperm := startedIn_perm steps
  refine ⟨after_upload_eq_some_iff steps, ?_, ?_, ?_, ?_⟩
  · intro m hm file
    exact startUpload_mem_effects_iff (reacts_of_mem_history hm) file
  · intro m hm u hu
    exact List.count_eq_one_of_mem hnodup (started_mem_startedIn hm hu)
  · -- An upload is among those started once, so it is at most once among those that came to an end.
    intro u
    have hcount := hperm.count_eq u
    rw [List.count_append, List.count_append] at hcount
    exact ⟨by omega, List.nodup_iff_count_le_one.mp hnodup u⟩
  · -- What has neither been cancelled nor finished is under way.
    rw [hperm.length_eq, List.length_append, List.length_append]
    cases (after steps).upload <;> rfl

end KvmConsole.Msd
