import KvmConsole.Proofs.History

/-!
# Inputs from several sources

What comes from one source comes in order, but nothing says how the inputs of several sources are
interleaved. Two interleavings of the same sources differ in swaps of neighbours only, each from a
source of its own. So it is enough to know that two inputs may be swapped: then every interleaving
leads to the same state, and whatever the swaps leave alone is the same in all of them.

Key results:
* `reordered_of_filter_eq`: lists that agree on each source are interleavings of each other.
* `final_of_reordered`, `flatMap_run_of_reordered`: if inputs of different sources are `Swappable`,
  interleavings lead to the same state, and the same is seen of them.
-/

namespace KvmConsole.Turn

variable {Input : Type}

/-- The lists differ in swaps of neighbours, each of which is free. -/
inductive Reordered (free : Input → Input → Prop) : List Input → List Input → Prop where
  | nil : Reordered free [] []
  | cons (a : Input) {rest rest' : List Input} (h : Reordered free rest rest') :
    Reordered free (a :: rest) (a :: rest')
  | swap {a b : Input} (hfree : free a b) (rest : List Input) :
    Reordered free (a :: b :: rest) (b :: a :: rest)
  | trans {first second third : List Input} (h : Reordered free first second)
      (h' : Reordered free second third) : Reordered free first third

namespace Reordered

variable {free : Input → Input → Prop}

/-- A list is a reordering of itself. -/
protected theorem refl (inputs : List Input) : Reordered free inputs inputs := by
  induction inputs with
  | nil => exact .nil
  | cons a rest ih => exact .cons a ih

/-- An input goes before others that it may be swapped with. -/
theorem front {a : Input} {before : List Input} (hfree : ∀ b ∈ before, free a b)
    (rest : List Input) : Reordered free (a :: (before ++ rest)) (before ++ a :: rest) := by
  induction before with
  | nil => exact .refl _
  | cons b before ih =>
    have hrest := ih fun x hx => hfree x (List.mem_cons_of_mem b hx)
    exact (Reordered.swap (hfree b List.mem_cons_self) _).trans (hrest.cons b)

/-- What is chosen from reordered inputs is reordered. -/
theorem filterMap {Chosen : Type} {free' : Chosen → Chosen → Prop} {f : Input → Option Chosen}
    (hf : ∀ a b x y, free a b → f a = some x → f b = some y → free' x y)
    {inputs inputs' : List Input} (h : Reordered free inputs inputs') :
    Reordered free' (inputs.filterMap f) (inputs'.filterMap f) := by
  induction h with
  | nil => exact .nil
  | cons a _ ih =>
    cases hx : f a with
    | none => rwa [List.filterMap_cons_none hx, List.filterMap_cons_none hx]
    | some x =>
      rw [List.filterMap_cons_some hx, List.filterMap_cons_some hx]
      exact ih.cons x
  | @swap a b hfree rest =>
    simp only [List.filterMap_cons]
    rcases hx : f a with _ | x <;> rcases hy : f b with _ | y
    · -- Where one of the two is dropped, nothing has changed places.
      exact .refl _
    · exact .refl _
    · exact .refl _
    · -- Both are kept, and what they become may change places as well.
      exact .swap (hf a b x y hfree hx hy) _
  | trans _ _ ih ih' => exact ih.trans ih'

end Reordered

/-- Two lists that agree on the inputs of each source are interleavings of each other. -/
theorem reordered_of_filter_eq {Source : Type} [DecidableEq Source] (source : Input → Source)
    {inputs inputs' : List Input}
    (h : ∀ s, inputs.filter (source · = s) = inputs'.filter (source · = s)) :
    Reordered (fun a b => source a ≠ source b) inputs inputs' := by
  induction inputs generalizing inputs' with
  | nil =>
    cases inputs' with
    | nil => exact .nil
    | cons b rest => simpa using h (source b)
  | cons a rest ih =>
    -- The first input of the source of `a` is `a` in the other list, too.
    have hfirst := h (source a)
    rw [List.filter_cons_of_pos (by simp)] at hfirst
    obtain ⟨before, after, hcut, hbefore, -, -⟩ := List.filter_eq_cons_iff.mp hfirst.symm
    -- Inputs of other sources stand in front of it, and it is brought past them.
    have hother : ∀ b ∈ before, source a ≠ source b := fun b hb heq =>
      hbefore b hb (by simp [heq])
    subst hcut
    refine (Reordered.cons a (ih fun s => ?_)).trans (.front hother after)
    -- What is left still has the inputs of every source in the same order.
    have hs := h s
    rw [List.filter_append] at hs ⊢
    by_cases ha : source a = s
    · have hnone : before.filter (source · = s) = [] := by
        rw [List.filter_eq_nil_iff]
        intro b hb heq
        exact hother b hb (ha.trans (of_decide_eq_true heq).symm)
      rw [hnone, List.filter_cons_of_pos (by simp [ha]), List.filter_cons_of_pos (by simp [ha])]
        at hs
      rw [hnone]
      exact (List.cons.inj hs).2
    · rwa [List.filter_cons_of_neg (by simp [ha]), List.filter_cons_of_neg (by simp [ha])] at hs

/-! ## Runs -/

variable {State Effect Result Seen : Type} {step : State → Input → Turn State Effect Result}
  {seen : Turn State Effect Result → List Seen}

/-- In either order, two inputs lead to the same state, and the same is seen of their turns. -/
structure Swappable (step : State → Input → Turn State Effect Result)
    (seen : Turn State Effect Result → List Seen) (a b : Input) : Prop where
  state : ∀ s, final step s [a, b] = final step s [b, a]
  seen : ∀ s, (run step s [a, b]).flatMap seen = (run step s [b, a]).flatMap seen

/-- Whether two inputs may change places does not depend on their order. -/
theorem Swappable.symm {a b : Input} (h : Swappable step seen a b) : Swappable step seen b a :=
  ⟨fun s => (h.state s).symm, fun s => (h.seen s).symm⟩

/-- Swaps do not change where a run leads. -/
theorem final_of_reordered {inputs inputs' : List Input}
    (h : Reordered (Swappable step seen) inputs inputs') (state : State) :
    final step state inputs = final step state inputs' := by
  induction h generalizing state with
  | nil => rfl
  | cons a _ ih => exact ih _
  | @swap a b hswap rest =>
    -- Both orders of the two inputs are runs of two steps, and the rest follows from one state.
    have hab := final_append step state [a, b] rest
    have hba := final_append step state [b, a] rest
    simp only [List.cons_append, List.nil_append] at hab hba
    rw [hab, hba, hswap.state state]
  | trans _ _ ih ih' => exact (ih state).trans (ih' state)

/-- Swaps do not change what is seen of a run. -/
theorem flatMap_run_of_reordered {inputs inputs' : List Input}
    (h : Reordered (Swappable step seen) inputs inputs') (state : State) :
    (run step state inputs).flatMap seen = (run step state inputs').flatMap seen := by
  induction h generalizing state with
  | nil => rfl
  | cons a _ ih =>
    simp only [run, List.flatMap_cons]
    rw [ih]
  | @swap a b hswap rest =>
    -- What the two steps show is the same in both orders, and so is the state they lead to.
    have hab := run_append step state [a, b] rest
    have hba := run_append step state [b, a] rest
    simp only [List.cons_append, List.nil_append] at hab hba
    rw [hab, hba, List.flatMap_append, List.flatMap_append, hswap.seen state, hswap.state state]
  | trans _ _ ih ih' => exact (ih state).trans (ih' state)

end KvmConsole.Turn
