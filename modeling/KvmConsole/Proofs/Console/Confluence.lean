import KvmConsole.Proofs.Console.Views
import KvmConsole.Proofs.Interleaving

/-!
# The order of the inputs does not matter

Nothing says whether the console takes in an event of the daemon, a report of the network or a tick
first. It makes no difference: a status of the daemon is not looked at when a report is taken in,
and a tick sends the position whether or not the input device works. Two inputs from different
sources may be swapped, and so may any number of them.

Key results:
* `Panel.handle_with_status`: a report is taken in alike under every status.
* `reordered_panelSteps`, `reordered_pointerSteps`: interleavings of the inputs are interleavings of
  the steps on each side.
* `follow_confluent`: what does not depend on the interleaving.
-/

namespace KvmConsole

/-! ## The mass storage panel -/

namespace Msd

/-- That the panel is shown, whatever the view. -/
def Effect.showing? (effect : Effect) : Option Unit := effect.shown?.map fun _ => ()

namespace Panel

/-- A step that shows the view counts as one showing, after those before it. -/
private theorem filterMap_showing?_shown {α : Type} (p : Panel) (first : List Effect) (result : α) :
    (p.shown first result).effects.filterMap Effect.showing? =
      first.filterMap Effect.showing? ++ [()] := by
  rw [shown, List.filterMap_append]
  rfl

/-- A report is taken in alike under every status, which it leaves as it is. Only the views are
    different ones. -/
theorem handle_with_status (p : Panel) (status : Option Status) (e : Event) :
    ({ p with status }.handle e).state = { (p.handle e).state with status } ∧
      ({ p with status }.handle e).result = (p.handle e).result ∧
      ({ p with status }.handle e).effects.filterMap Effect.showing? =
        (p.handle e).effects.filterMap Effect.showing? := by
  cases e with
  -- No branch asks for the status; only the view that is shown differs.
  | uploadProgress u loaded total =>
    simp only [handle]
    split
    · exact ⟨rfl, rfl, rfl⟩
    · split <;> exact ⟨rfl, rfl, rfl⟩
  | uploadFinished u code body =>
    simp only [handle]
    split
    · exact ⟨rfl, rfl, rfl⟩
    · exact ⟨rfl, rfl, by rw [filterMap_showing?_shown, filterMap_showing?_shown]⟩
  | commandFinished command code body =>
    simp only [handle]
    exact ⟨rfl, rfl, by rw [filterMap_showing?_shown, filterMap_showing?_shown]⟩

/-- A status and a report may be swapped: the report has the same outcome. -/
private theorem swappable_outcomes (status : Option Status) (e : Event) :
    Turn.Swappable step outcomes (.setStatus status) (.event e) where
  state p := (p.handle_with_status status e).1
  seen p := by
    have hresult := (p.handle_with_status status e).2.1
    simp only [Turn.run, List.flatMap_cons, List.flatMap_nil, outcomes]
    exact congrArg (fun outcome => [outcome]) hresult

/-- A list of showings only has a length. -/
private theorem append_unit (units : List Unit) : units ++ [()] = () :: units := by
  induction units with
  | nil => rfl
  | cons _ rest ih => rw [List.cons_append, ih]

/-- A status and a report may be swapped: the panel is shown as often. -/
private theorem swappable_showings (status : Option Status) (e : Event) :
    Turn.Swappable step (·.effects.filterMap Effect.showing?) (.setStatus status) (.event e) where
  state p := (p.handle_with_status status e).1
  seen p := by
    have hshowings := (p.handle_with_status status e).2.2
    simp only [Turn.run, List.flatMap_cons, List.flatMap_nil, List.append_nil]
    show () :: ({ p with status }.handle e).effects.filterMap Effect.showing? =
      (p.handle e).effects.filterMap Effect.showing? ++ [()]
    rw [hshowings, append_unit]

end Panel

end Msd

/-! ## The pointer forwarder -/

namespace Pointer

/-- That the panel is shown, whatever the view. -/
def Effect.showing? (effect : Effect) : Option Unit := effect.shown?.map fun _ => ()

namespace Forwarder

/-- The health of the device and a tick may be swapped: the events on the channel are those of the
    tick. -/
private theorem swappable_events {seen : Effect → Option HidEvent}
    (hseen : ∀ view, seen (.render view) = none) (ok : Bool) :
    Turn.Swappable step (·.effects.filterMap seen) (.setDevice ok) .tick where
  state _ := rfl
  seen f := by
    have hdevice (f : Forwarder) : (f.setDevice ok).effects.filterMap seen = [] :=
      List.filterMap_cons_none (hseen _)
    simp only [Turn.run, step, List.flatMap_cons, List.flatMap_nil, hdevice, List.nil_append,
      List.append_nil]
    rfl

/-- The health of the device and a tick may be swapped: the panel is shown as often, and not in the
    tick. -/
private theorem swappable_showings (ok : Bool) :
    Turn.Swappable step (·.effects.filterMap Effect.showing?) (.setDevice ok) .tick where
  state _ := rfl
  seen f := by
    have htick (f : Forwarder) : f.tick.effects.filterMap Effect.showing? = [] := by
      have hshown : f.tick.effects.filterMap Effect.shown? = [] := f.filterMap_shown?_send _
      rw [List.filterMap_eq_nil_iff] at hshown ⊢
      exact fun e he => congrArg (Option.map _) (hshown e he)
    simp only [Turn.run, step, List.flatMap_cons, List.flatMap_nil, htick]
    rfl

end Forwarder

end Pointer

namespace Console

/-- Where an input comes from. -/
inductive Source where
  | daemon
  | network
  | clock
  deriving DecidableEq

def Input.source : Input → Source
  | .daemon _ => .daemon
  | .network _ => .network
  | .tick => .clock

/-- Interleavings of the inputs are interleavings of what the mass storage panel is told. -/
theorem reordered_panelSteps {free : Msd.Step → Msd.Step → Prop}
    (hsymm : ∀ s t, free s t → free t s)
    (hfree : ∀ status e, free (.setStatus status) (.event e)) {inputs inputs' : List Input}
    (h : Turn.Reordered (fun a b => Input.source a ≠ Input.source b) inputs inputs') :
    Turn.Reordered free (panelSteps inputs) (panelSteps inputs') := by
  refine h.filterMap fun a b x y hab hx hy => ?_
  rcases a with (status | _ | _) | e | _ <;> cases hx <;>
    rcases b with (status' | _ | _) | e' | _ <;> cases hy
  · exact absurd rfl hab
  · exact hfree _ e'
  · exact hsymm _ _ (hfree _ e)
  · exact absurd rfl hab

/-- Interleavings of the inputs are interleavings of what the pointer forwarder is told. -/
theorem reordered_pointerSteps {free : Pointer.Step → Pointer.Step → Prop}
    (hsymm : ∀ s t, free s t → free t s) (hfree : ∀ ok, free (.setDevice ok) .tick)
    {inputs inputs' : List Input}
    (h : Turn.Reordered (fun a b => Input.source a ≠ Input.source b) inputs inputs') :
    Turn.Reordered free (pointerSteps inputs) (pointerSteps inputs') := by
  refine h.filterMap fun a b x y hab hx hy => ?_
  rcases a with (_ | ok | _) | _ | _ <;> cases hx <;>
    rcases b with (_ | ok' | _) | _ | _ <;> cases hy
  · exact absurd rfl hab
  · exact hfree ok
  · exact hsymm _ _ (hfree ok')
  · exact absurd rfl hab

/-- The events that the channel has taken in some effects, in order. -/
def sentEvents (effects : List Effect) : List Pointer.HidEvent :=
  (effects.filterMap Effect.pointer?).filterMap Pointer.Effect.sent?

/-- The events that the channel has refused in some effects, in order. -/
def refusedEvents (effects : List Effect) : List Pointer.HidEvent :=
  (effects.filterMap Effect.pointer?).filterMap Pointer.Effect.refused?

/-- Two lists that are as long, and end with the same element if with any, end alike. -/
private theorem getLast?_eq_of_length {α : Type} {list list' : List α} {x : α}
    (hlength : list.map (fun _ => ()) = list'.map fun _ => ())
    (hlast : ∀ y, list.getLast? = some y → y = x) (hlast' : ∀ y, list'.getLast? = some y → y = x) :
    list.getLast? = list'.getLast? := by
  have hnil : list = [] ↔ list' = [] := by
    rw [← List.map_eq_nil_iff, hlength, List.map_eq_nil_iff]
  rw [← List.getLast?_eq_none_iff, ← List.getLast?_eq_none_iff] at hnil
  cases h : list.getLast? with
  | none => exact (hnil.mp h).symm
  | some y =>
    cases h' : list'.getLast? with
    | none => exact absurd (hnil.mpr h') (by simp [h])
    | some y' => rw [hlast y h, hlast' y' h']

/-- It makes no difference in which order the console takes in what comes from the daemon, from the
    network and from the clock, as long as what comes from each of them stays in order.

    * The console ends up in the same state, with both its panels.
    * Each report has the same outcome.
    * The last view of each panel is the same, or there is none in either case.
    * The same events are sent on the channel, in order, and the same are refused. -/
theorem follow_confluent (c : Console) (inputs inputs' : List Input)
    (hsame : ∀ source, inputs.filter (·.source = source) = inputs'.filter (·.source = source)) :
    (c.follow inputs).state = (c.follow inputs').state ∧
    (c.follow inputs).result = (c.follow inputs').result ∧
    (panelViews (c.follow inputs).effects).getLast? =
      (panelViews (c.follow inputs').effects).getLast? ∧
    (pointerViews (c.follow inputs).effects).getLast? =
      (pointerViews (c.follow inputs').effects).getLast? ∧
    sentEvents (c.follow inputs).effects = sentEvents (c.follow inputs').effects ∧
    refusedEvents (c.follow inputs).effects = refusedEvents (c.follow inputs').effects := by
  have hreordered := Turn.reordered_of_filter_eq Input.source hsame
  have h := c.runs_follow inputs
  have h' := c.runs_follow inputs'
  -- On each side, what came from different sources may be swapped.
  have houtcomes : Turn.Reordered (Turn.Swappable Msd.Panel.step Msd.outcomes) _ _ :=
    reordered_panelSteps (fun _ _ => .symm) Msd.Panel.swappable_outcomes hreordered
  have hpanelShowings : Turn.Reordered
      (Turn.Swappable Msd.Panel.step (·.effects.filterMap Msd.Effect.showing?)) _ _ :=
    reordered_panelSteps (fun _ _ => .symm) Msd.Panel.swappable_showings hreordered
  have hpointerShowings : Turn.Reordered
      (Turn.Swappable Pointer.Forwarder.step (·.effects.filterMap Pointer.Effect.showing?)) _ _ :=
    reordered_pointerSteps (fun _ _ => .symm) Pointer.Forwarder.swappable_showings hreordered
  have hevents (seen : Pointer.Effect → Option Pointer.HidEvent)
      (hseen : ∀ view, seen (.render view) = none) :
      Turn.Reordered (Turn.Swappable Pointer.Forwarder.step (·.effects.filterMap seen)) _ _ :=
    reordered_pointerSteps (fun _ _ => .symm) (Pointer.Forwarder.swappable_events hseen) hreordered
  have hstate : (c.follow inputs).state = (c.follow inputs').state := by
    rw [h.state_eq, h'.state_eq, Turn.final_of_reordered houtcomes,
      Turn.final_of_reordered hpointerShowings]
  -- The last view is the current one, if anything was shown at all, and that is a matter of number.
  refine ⟨hstate, ?_, ?_, ?_, ?_, ?_⟩
  · rw [follow_result, follow_result]
    exact Turn.flatMap_run_of_reordered houtcomes c.panel
  · refine getLast?_eq_of_length ?_
      (fun v => h.panel_view_of_getLast? (abortUpload_notMem_panelSteps inputs)) (fun v hv => ?_)
    · rw [panelViews, panelViews, List.map_filterMap, List.map_filterMap]
      rw [h.filterMap_msd, h'.filterMap_msd]
      exact Turn.flatMap_run_of_reordered hpanelShowings c.panel
    · rw [hstate]
      exact h'.panel_view_of_getLast? (abortUpload_notMem_panelSteps inputs') hv
  · refine getLast?_eq_of_length ?_ (fun v => h.pointer_view_of_getLast?) (fun v hv => ?_)
    · rw [pointerViews, pointerViews, List.map_filterMap, List.map_filterMap]
      rw [h.filterMap_pointer, h'.filterMap_pointer]
      exact Turn.flatMap_run_of_reordered hpointerShowings c.forwarder
    · rw [hstate]
      exact h'.pointer_view_of_getLast? hv
  · rw [sentEvents, sentEvents, h.filterMap_pointer, h'.filterMap_pointer]
    exact Turn.flatMap_run_of_reordered (hevents _ fun _ => rfl) c.forwarder
  · rw [refusedEvents, refusedEvents, h.filterMap_pointer, h'.filterMap_pointer]
    exact Turn.flatMap_run_of_reordered (hevents _ fun _ => rfl) c.forwarder

/-- The daemon tells of a device that is out of operation and of a broken input device, the network
    answers a reset, and a tick comes last. -/
def daemonFirst : List Input :=
  [.daemon (.msdState ⟨.server, false, false, ⟨0, none⟩⟩), .daemon (.hidState false),
    .network (.commandFinished .reset 200 ""), .tick]

/-- The same, with the tick first and the answer between the two events of the daemon. -/
def tickFirst : List Input :=
  [.tick, .daemon (.msdState ⟨.server, false, false, ⟨0, none⟩⟩),
    .network (.commandFinished .reset 200 ""), .daemon (.hidState false)]

/-- A console with the default settings gets the same out of both. -/
theorem follow_confluent_tickFirst :
    ∃ c, ofSettings {} = .ok c ∧
      (∀ source, daemonFirst.filter (·.source = source) = tickFirst.filter (·.source = source)) ∧
      (c.follow daemonFirst).state = (c.follow tickFirst).state ∧
      (c.follow tickFirst).result = [.commandFinished .reset true] := by
  have hsame : ∀ source,
      daemonFirst.filter (·.source = source) = tickFirst.filter (·.source = source) := by
    intro source
    cases source <;> rfl
  have hmade : (ofSettings {}).toOption.isSome := rfl
  cases hc : ofSettings {} with
  | error reason =>
    rw [hc] at hmade
    cases hmade
  | ok c =>
    obtain ⟨hstate, hresult, -⟩ := follow_confluent c daemonFirst tickFirst hsame
    exact ⟨c, rfl, hsame, hstate, hresult.symm.trans rfl⟩

end Console

end KvmConsole
