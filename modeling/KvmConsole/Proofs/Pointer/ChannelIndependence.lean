import KvmConsole.Proofs.Pointer.Session

/-!
# The channel has no say in what is given out

A forwarder's tracker knows nothing of the channel: it gives out the same events whether they are
taken, refused or lost, and goes on from the same position. So two sessions that differ in when a
channel comes, goes or closes differ in nothing but what becomes of the events.

Key results:
* `map_tracker_history`: the tracker of a session runs by itself.
* `channel_never_influences`: two sessions with the same steps besides those about the channel.
-/

namespace KvmConsole.Pointer

/-- A step about the channel tells the tracker nothing. -/
theorem Tracker.step_of_isChannel (t : Tracker) {s : Step} (hs : s.isChannel) :
    t.step s = ⟨t, [], ()⟩ := by
  cases s with
  | setChannel => rfl
  | _ => cases hs

namespace Forwarder

/-- At the moments that are not about the channel, the tracker of a run does what it does when it
    runs by itself. -/
theorem map_tracker_history (f : Forwarder) (steps : List Step) :
    ((Turn.history step f steps).filter (!·.input.isChannel)).map
        (fun m => (m.turn.state.tracker, Moment.generated m)) =
      (Turn.history Tracker.step f.tracker (steps.filter (!·.isChannel))).map
        fun m => (m.turn.state, m.turn.effects) := by
  induction steps generalizing f with
  | nil => rfl
  | cons s rest ih =>
    have htracker := f.tracker_step s
    dsimp only [Turn.history]
    cases hs : s.isChannel with
    | true =>
      -- The moment is left out, and the tracker has not changed.
      rw [Tracker.step_of_isChannel f.tracker hs] at htracker
      rw [List.filter_cons_of_neg (by simp [hs]), List.filter_cons_of_neg (by simp [hs]), ih,
        htracker]
    | false =>
      -- The tracker of the forwarder takes the step as a tracker of its own would.
      rw [List.filter_cons_of_pos (by simp [hs]), List.filter_cons_of_pos (by simp [hs])]
      have hrest := ih (f.step s).state
      rw [htracker] at hrest
      exact List.cons_eq_cons.mpr ⟨Prod.ext htracker rfl, hrest⟩

/-- What is taken in some moments is what was given out in those with an accepting channel. -/
private theorem sentIn_eq_flatMap_generated {h : List Moment}
    (hturn : ∀ m ∈ h, m.turn = m.before.step m.input) :
    sentIn h = (h.filter (·.before.channel = some .accepting)).flatMap Moment.generated := by
  induction h with
  | nil => rfl
  | cons m rest ih =>
    have hrest := ih fun x hx => hturn x (List.mem_cons_of_mem m hx)
    obtain ⟨hsent, -⟩ := sent_and_refused_of_turn_eq (hturn m List.mem_cons_self)
    rw [sentIn, List.flatMap_cons, ← sentIn, hrest, hsent]
    -- A step sends what it generates, or nothing at all.
    by_cases hopen : m.before.channel = some .accepting
    · rw [if_pos hopen, List.filter_cons_of_pos (by simp [hopen]), List.flatMap_cons]
    · rw [if_neg hopen, List.filter_cons_of_neg (by simp [hopen]), List.nil_append]

end Forwarder

open Forwarder

/-- The channel never influences what a forwarder gives out. Take two sessions that differ only in
    the steps about the channel: which channels are set, and when.

    * At each other step, both have the same tracker afterwards and give out the same events.
    * A channel that accepts events takes all that is given out while it is set, in order, and a
      closed one refuses all of it. Without a channel nothing becomes of it. A step about the
      channel itself gives out nothing.
    * What is taken in a session is what was given out at the steps at which the channel was open,
      once each and in order. -/
theorem channel_never_influences (touchCapture : Bool) (steps steps' : List Step)
    (hsteps : steps.filter (!·.isChannel) = steps'.filter (!·.isChannel)) :
    ((history touchCapture steps).filter (!·.input.isChannel)).map
        (fun m => (m.turn.state.tracker, m.generated)) =
      ((history touchCapture steps').filter (!·.input.isChannel)).map
        (fun m => (m.turn.state.tracker, m.generated)) ∧
    (∀ past m since, history touchCapture steps = past ++ m :: since →
      m.before.channel = channelIn past ∧
      (channelIn past = some .accepting → m.sent = m.generated ∧ m.refused = []) ∧
      (channelIn past = some .closed → m.sent = [] ∧ m.refused = m.generated) ∧
      (channelIn past = none → m.sent = [] ∧ m.refused = []) ∧
      (m.input.isChannel → m.generated = [])) ∧
    sentIn (history touchCapture steps) =
      ((history touchCapture steps).filter (·.before.channel = some .accepting)).flatMap
        Moment.generated := by
  refine ⟨?_, ?_, ?_⟩
  · -- Both runs are compared with the run of the tracker alone, which sees no channel.
    have h := map_tracker_history { touchCapture } steps
    have h' := map_tracker_history { touchCapture } steps'
    exact h.trans (hsteps ▸ h'.symm)
  · -- The channel before the moment decides what becomes of its events.
    intro past m since hcut
    obtain ⟨hchannel, hturn⟩ := step_of_history_eq hcut
    obtain ⟨hsent, hrefused⟩ := sent_and_refused_of_turn_eq hturn
    rw [hchannel] at hsent hrefused
    refine ⟨hchannel, ?_, ?_, ?_, ?_⟩
    · intro hopen
      rw [hsent, hrefused, hopen]
      exact ⟨rfl, rfl⟩
    · intro hclosed
      rw [hsent, hrefused, hclosed]
      exact ⟨rfl, rfl⟩
    · intro hnone
      rw [hsent, hrefused, hnone]
      exact ⟨rfl, rfl⟩
    · intro hinput
      rw [Moment.generated, Tracker.step_of_isChannel _ hinput]
  · exact sentIn_eq_flatMap_generated fun m hm =>
      Turn.turn_of_mem_history step { touchCapture } hm

/-- The pointer moves and a tick comes, with a channel from the beginning. -/
def earlyChannel : List Step :=
  [.setChannel (some .accepting), .move 3 4 ⟨0, 0, 8, 6⟩, .tick]

/-- The same, with a channel at the end only. -/
def lateChannel : List Step :=
  [.move 3 4 ⟨0, 0, 8, 6⟩, .tick, .setChannel (some .accepting)]

/-- Both sessions give out the same, and only one of them is heard. -/
theorem channel_never_influences_late :
    earlyChannel.filter (!·.isChannel) = lateChannel.filter (!·.isChannel) ∧
    ((history false earlyChannel).filter (!·.input.isChannel)).map
        (fun m => (m.turn.state.tracker, m.generated)) =
      ((history false lateChannel).filter (!·.input.isChannel)).map
        (fun m => (m.turn.state.tracker, m.generated)) ∧
    sentIn (history false earlyChannel) = [.mouseMove (-8192) 10922] ∧
    sentIn (history false lateChannel) = [] := by
  refine ⟨rfl, (channel_never_influences false earlyChannel lateChannel rfl).1, ?_, ?_⟩
  · decide +kernel
  · decide +kernel

end KvmConsole.Pointer
