import KvmConsole.Console.Journal
import KvmConsole.Proofs.Console.Reports
import KvmConsole.Proofs.Console.Views
import Mathlib.Data.List.Destutter

/-!
# What a journal reports

The presenter remembers the last view of each panel, and a view is reported if it is another one.
So of the views of a panel, the first one of each run of equal views is reported, whatever was
shown or said in between. What the other panel shows has no part in it: how views and notifications
alternate decides the order of the records, and nothing else.

Key results:
* `destutter_ne_concat`: runs of equal elements, and one more element.
* `Presenter.journal_eq_flatMap_history`: a journal as the run of a machine.
* `Presenter.Remembers`: what a presenter makes of the views of one panel.
* `Presenter.Remembers.logged_eq`: the records of a panel that is remembered.
* `Presenter.journal_perm`: the records of a journal, apart from their order.
* `journal_of_changes`: what is logged for each panel and for notifications.
-/

namespace KvmConsole

/-- Runs of equal elements collapse to one element each. One more element at the end starts a run of
    its own if it is another one than the last. -/
theorem destutter_ne_concat {α : Type} [DecidableEq α] (l : List α) (a : α) :
    (l ++ [a]).destutter (· ≠ ·) =
      if l.getLast? = some a then l.destutter (· ≠ ·) else l.destutter (· ≠ ·) ++ [a] := by
  cases l with
  | nil => rfl
  | cons b rest =>
    rw [List.cons_append, List.destutter_cons', List.destutter_cons']
    -- Only the last element of the list matters to the new one.
    induction rest generalizing b with
    | nil => by_cases h : b = a <;> simp [h]
    | cons c rest ih =>
      rw [List.cons_append, List.getLast?_cons_cons]
      by_cases h : b = c
      · -- The run of `b` goes on.
        subst h
        rw [List.destutter'_cons_neg _ (by simp), List.destutter'_cons_neg _ (by simp)]
        exact ih b
      · rw [List.destutter'_cons_pos _ h, List.destutter'_cons_pos _ h, ih c]
        split <;> rfl

namespace Console.Effect

/-- The view of the mass storage panel that an effect shows. -/
def panelView? : Console.Effect → Option Msd.View
  | .msd e => e.shown?
  | _ => none

/-- The view of the pointer panel that an effect shows. -/
def pointerView? : Console.Effect → Option Pointer.View
  | .pointer e => e.shown?
  | _ => none

/-- The records of an effect that shows no view: those of a notification, and those that the
    console and its panels write themselves. -/
def plainRecords : Console.Effect → List Log.Record
  | .msd (.notify message) => Presenter.notify message
  | .msd (.log record) | .pointer (.log record) | .log record => [record]
  | _ => []

end Console.Effect

open Console.Effect

namespace Presenter

/-- One effect of the console is presented. -/
def step (p : Presenter) (e : Console.Effect) : Turn Presenter Log.Record Unit :=
  ⟨(p.present e).1, (p.present e).2, ()⟩

/-- The moments at which a fresh presenter presents some effects. -/
def history (effects : List Console.Effect) :
    List (Turn.Moment Presenter Console.Effect Log.Record Unit) :=
  Turn.history step {} effects

/-- The records that were logged for the effects of one kind. -/
def loggedFor {α : Type} (kind? : Console.Effect → Option α) (effects : List Console.Effect) :
    List Log.Record :=
  ((history effects).filter fun m => (kind? m.input).isSome).flatMap (·.turn.effects)

section LoggedFor

variable {α : Type} {kind? : Console.Effect → Option α} (effects : List Console.Effect)
  {e : Console.Effect}

/-- An effect of the kind adds the records of its step. -/
private theorem loggedFor_concat_of_some {a : α} (he : kind? e = some a) :
    loggedFor kind? (effects ++ [e]) =
      loggedFor kind? effects ++ ((Turn.final step {} effects).step e).effects := by
  rw [loggedFor, history, Turn.history_concat, List.filter_append, List.flatMap_append]
  simp [he, loggedFor, history]

/-- An effect of another kind adds nothing. -/
private theorem loggedFor_concat_of_none (he : kind? e = none) :
    loggedFor kind? (effects ++ [e]) = loggedFor kind? effects := by
  rw [loggedFor, history, Turn.history_concat, List.filter_append, List.flatMap_append]
  simp [he, loggedFor, history]

end LoggedFor

/-- A journal is the records of the effects, in order. -/
theorem journal_eq_flatMap_history (p : Presenter) (effects : List Console.Effect) :
    p.journal effects = (Turn.history step p effects).flatMap (·.turn.effects) := by
  induction effects generalizing p with
  | nil => rfl
  | cons e rest ih =>
    rw [Turn.history, List.flatMap_cons, ← ih]
    rfl

/-! ## One panel -/

section Rendering

variable (p : Presenter)

/-- A rendered view is remembered. -/
private theorem msd_renderMsd (v : Msd.View) : (p.renderMsd v).1.msd = some v := by
  unfold renderMsd
  split
  · assumption
  · rfl

/-- A view of the mass storage does not touch what is remembered of the pointer. -/
private theorem pointer_renderMsd (v : Msd.View) : (p.renderMsd v).1.pointer = p.pointer := by
  unfold renderMsd
  split <;> rfl

/-- A view is logged unless it is the one remembered. -/
private theorem snd_renderMsd (v : Msd.View) :
    (p.renderMsd v).2 = if p.msd = some v then [] else msdRecords v := by
  unfold renderMsd
  split <;> rfl

/-- A rendered view of the pointer is remembered. -/
private theorem pointer_renderPointer (v : Pointer.View) :
    (p.renderPointer v).1.pointer = some v := by
  unfold renderPointer
  split
  · assumption
  · rfl

/-- A view of the pointer does not touch what is remembered of the mass storage. -/
private theorem msd_renderPointer (v : Pointer.View) : (p.renderPointer v).1.msd = p.msd := by
  unfold renderPointer
  split <;> rfl

/-- A view of the pointer is logged unless it is the one remembered. -/
private theorem snd_renderPointer (v : Pointer.View) :
    (p.renderPointer v).2 = if p.pointer = some v then [] else pointerRecords v := by
  unfold renderPointer
  split <;> rfl

end Rendering

section Remembers

variable {α : Type} [DecidableEq α] {slot : Presenter → Option α}
  {view? : Console.Effect → Option α} {records : α → List Log.Record}

/-- A presenter remembers the views of a panel: it keeps the last one, and reports a view if it is
    another one than that. -/
structure Remembers (slot : Presenter → Option α) (view? : Console.Effect → Option α)
    (records : α → List Log.Record) : Prop where
  fresh : slot {} = none
  keeps : ∀ p e, slot (p.step e).state = (view? e).or (slot p)
  reports : ∀ p e v, view? e = some v →
    (p.step e).effects = if slot p = some v then [] else records v

/-- The presenter remembers the views of the mass storage. -/
private theorem remembers_msd : Remembers (·.msd) panelView? msdRecords where
  fresh := rfl
  keeps p e := by
    cases e with
    | msd effect =>
      cases effect with
      | render v => exact p.msd_renderMsd v
      | _ => rfl
    | pointer effect =>
      cases effect with
      | render v => exact p.msd_renderPointer v
      | _ => rfl
    | log => rfl
  reports p e v hv := by
    cases e with
    | msd effect =>
      cases effect with
      | render v' =>
        rw [← Option.some.inj hv]
        exact p.snd_renderMsd v'
      | _ => cases hv
    | _ => cases hv

/-- The presenter remembers the views of the pointer. -/
private theorem remembers_pointer : Remembers (·.pointer) pointerView? pointerRecords where
  fresh := rfl
  keeps p e := by
    cases e with
    | msd effect =>
      cases effect with
      | render v => exact p.pointer_renderMsd v
      | _ => rfl
    | pointer effect =>
      cases effect with
      | render v => exact p.pointer_renderPointer v
      | _ => rfl
    | log => rfl
  reports p e v hv := by
    cases e with
    | pointer effect =>
      cases effect with
      | render v' =>
        rw [← Option.some.inj hv]
        exact p.snd_renderPointer v'
      | _ => cases hv
    | _ => cases hv

/-- What is remembered of a panel is its last view. -/
private theorem Remembers.slot_eq (h : Remembers slot view? records)
    (effects : List Console.Effect) :
    slot (Turn.final step {} effects) = (effects.filterMap view?).getLast? := by
  induction effects using List.reverseRecOn with
  | nil => exact h.fresh
  | append_singleton effects e ih =>
    rw [Turn.final_concat, h.keeps, ih, List.filterMap_append, List.getLast?_append]
    cases he : view? e <;> simp [he]

/-- What is logged for a panel: the first view of each run of equal ones. -/
theorem Remembers.logged_eq (h : Remembers slot view? records) (effects : List Console.Effect) :
    loggedFor view? effects =
      ((effects.filterMap view?).destutter (· ≠ ·)).flatMap records := by
  induction effects using List.reverseRecOn with
  | nil => rfl
  | append_singleton effects e ih =>
    have hslot := h.slot_eq effects
    rw [List.filterMap_append]
    cases he : view? e with
    | none =>
      rw [loggedFor_concat_of_none effects he, ih]
      simp [he]
    | some v =>
      have hlast : [e].filterMap view? = [v] := by simp [he]
      -- The view is dropped on both sides if it is the last one seen.
      rw [loggedFor_concat_of_some effects he, ih, h.reports _ e v he, hlast,
        destutter_ne_concat, hslot]
      split
      · rw [List.append_nil]
      · rw [List.flatMap_append, List.flatMap_singleton]

end Remembers

/-! ## All records -/

/-- What is no view is logged in the same way whatever has been shown. -/
private theorem effects_step_of_plain (p : Presenter) {e : Console.Effect}
    (hpanel : panelView? e = none)
    (hpointer : pointerView? e = none) : (p.step e).effects = e.plainRecords := by
  cases e with
  | msd effect =>
    cases effect with
    | render => cases hpanel
    | _ => rfl
  | pointer effect =>
    cases effect with
    | render => cases hpointer
    | _ => rfl
  | log => rfl

/-- Only a notification notifies. -/
private theorem eq_of_notice? {e : Console.Effect} {message : String}
    (h : notice? e = some message) :
    e = .msd (.notify message) := by
  cases e with
  | msd effect =>
    cases effect with
    | notify => rw [Option.some.inj h]
    | _ => cases h
  | _ => cases h

/-- A view of the mass storage is none of the pointer. -/
private theorem pointerView?_of_panelView? {e : Console.Effect} {v : Msd.View}
    (h : panelView? e = some v) : pointerView? e = none := by
  cases e with
  | msd => rfl
  | _ => cases h

/-- The views have no plain records. -/
private theorem plainRecords_of_isSome {e : Console.Effect}
    (h : (panelView? e).isSome ∨ (pointerView? e).isSome) : e.plainRecords = [] := by
  cases e with
  | msd effect => cases effect <;> simp_all [panelView?, pointerView?, plainRecords]
  | pointer effect => cases effect <;> simp_all [panelView?, pointerView?, plainRecords]
  | log => simp [panelView?, pointerView?] at h

/-- The records of a journal, apart from their order: those for each panel, and all others. -/
theorem journal_perm (effects : List Console.Effect) :
    (({} : Presenter).journal effects).Perm
      (loggedFor panelView? effects ++ (loggedFor pointerView? effects ++
        effects.flatMap plainRecords)) := by
  induction effects using List.reverseRecOn with
  | nil => exact .refl _
  | append_singleton effects e ih =>
    rw [journal_eq_flatMap_history] at ih ⊢
    rw [Turn.history_concat, List.flatMap_append, List.flatMap_singleton, List.flatMap_append,
      List.flatMap_singleton, List.perm_iff_count]
    intro r
    -- What is logged for the effect is counted on one of the three sides.
    have hcount := ih.count_eq r
    cases hpanel : panelView? e with
    | some v =>
      have hpointer : pointerView? e = none := pointerView?_of_panelView? hpanel
      rw [loggedFor_concat_of_some effects hpanel, loggedFor_concat_of_none effects hpointer,
        plainRecords_of_isSome (.inl (by simp [hpanel]))]
      simp only [List.count_append, List.count_nil] at hcount ⊢
      omega
    | none =>
      rw [loggedFor_concat_of_none effects hpanel]
      cases hpointer : pointerView? e with
      | some v =>
        rw [loggedFor_concat_of_some effects hpointer,
          plainRecords_of_isSome (.inr (by simp [hpointer]))]
        simp only [List.count_append, List.count_nil] at hcount ⊢
        omega
      | none =>
        rw [loggedFor_concat_of_none effects hpointer, effects_step_of_plain _ hpanel hpointer]
        simp only [List.count_append] at hcount ⊢
        omega

/-- Every notification is logged, in one record. -/
private theorem loggedFor_notice? (effects : List Console.Effect) :
    loggedFor notice? effects = (effects.filterMap notice?).map (note .error · []) := by
  -- By induction from the end, since the presenter is the one that has seen all effects before.
  induction effects using List.reverseRecOn with
  | nil => rfl
  | append_singleton effects e ih =>
    rw [List.filterMap_append, List.map_append]
    cases he : notice? e with
    | none =>
      rw [loggedFor_concat_of_none effects he, ih]
      simp [he]
    | some message =>
      have hlast : [e].filterMap notice? = [message] := by simp [he]
      rw [loggedFor_concat_of_some effects he, ih, hlast]
      obtain rfl : e = .msd (.notify message) := eq_of_notice? he
      rfl

end Presenter

open Presenter

/-- What a journal reports of any effects of the console: it is the records of the effects, in
    order.

    * For the views of the mass storage panel, the records of each view that is not equal to the one
      shown before it, and nothing for the others: runs of equal views collapse to the first. The
      records of a view are that of the panel, those of its two banners and that of the picked
      file, as far as they are there and in this order.
    * The same for the views of the pointer panel, which have one record each.
    * For a notification, one record of an error, every time.

    If the same views are shown in each panel, and the other records are the same, then the journals
    have the same records. How the effects alternate decides nothing but their order. -/
theorem journal_of_changes (effects : List Console.Effect) :
    let place := "kvmd_web_console::infrastructure::presenter"
    ({} : Presenter).journal effects = (history effects).flatMap (·.turn.effects) ∧
    loggedFor panelView? effects =
      ((effects.filterMap panelView?).destutter (· ≠ ·)).flatMap (fun v =>
        [⟨.info, place, "msd",
          [("mode", .plain v.mode.name), ("led", .quoted v.led.className),
            ("status", .plain v.statusText), ("image", .plain v.imageName),
            ("image_size", .plain v.imageSize), ("storage", .plain v.storageSize),
            ("progress", .plain v.progress.label)]⟩] ++
        (if v.otherUserUploading then
          [⟨.info, place, "msd: someone else is uploading an image", []⟩] else []) ++
        (if v.imageBroken then [⟨.info, place, "msd: the current image is broken", []⟩] else []) ++
        match v.pendingFile with
        | some file =>
          [⟨.info, place, "msd: image selected",
            [("name", .plain file.name), ("size", .plain file.size)]⟩]
        | none => []) ∧
    loggedFor pointerView? effects =
      ((effects.filterMap pointerView?).destutter (· ≠ ·)).map (fun v =>
        ⟨.info, place, v.indicator.title,
          [("capture", .flag v.captureActive), ("led", .quoted v.indicator.led.className)]⟩) ∧
    loggedFor notice? effects =
      (effects.filterMap notice?).map (fun message => ⟨.error, place, message, []⟩) ∧
    ∀ others : List Console.Effect,
      others.filterMap panelView? = effects.filterMap panelView? →
      others.filterMap pointerView? = effects.filterMap pointerView? →
      (others.flatMap plainRecords).Perm (effects.flatMap plainRecords) →
      (({} : Presenter).journal others).Perm (({} : Presenter).journal effects) := by
  intro place
  refine ⟨journal_eq_flatMap_history {} effects, ?_, ?_, loggedFor_notice? effects, ?_⟩
  · rw [remembers_msd.logged_eq]
    congr 1
    funext v
    unfold msdRecords
    cases v.pendingFile <;> rfl
  · rw [remembers_pointer.logged_eq, List.map_eq_flatMap]
    rfl
  · -- The three parts of the journal make up the whole, whatever the order.
    intro others hpanel hpointer hplain
    have hjournal := journal_perm effects
    have hothers := journal_perm others
    rw [remembers_msd.logged_eq, remembers_pointer.logged_eq] at hjournal hothers
    rw [hpanel, hpointer] at hothers
    exact hothers.trans (((hplain.append_left _).append_left _).trans hjournal.symm)

end KvmConsole
