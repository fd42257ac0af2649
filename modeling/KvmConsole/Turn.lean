/-!
# Turns of a state machine

The panels react to one input at a time. What a reaction comes to is a `Turn`: the state after it,
what it did on the way, in order, and what it answers.
-/

namespace KvmConsole

/-- What one reaction of a state machine comes to. -/
structure Turn (State Effect Result : Type) where
  state : State
  effects : List Effect
  result : Result
  deriving DecidableEq, Repr

namespace Turn

variable {State Effect Result : Type}

/-- A turn that does nothing but answer. -/
def idle (state : State) (result : Result) : Turn State Effect Result := ⟨state, [], result⟩

/-- Changes the answer of a turn. -/
def map {Other : Type} (f : Result → Other) (turn : Turn State Effect Result) :
    Turn State Effect Other :=
  ⟨turn.state, turn.effects, f turn.result⟩

/-- Puts effects in front of those of a turn. -/
def after (effects : List Effect) (turn : Turn State Effect Result) : Turn State Effect Result :=
  ⟨turn.state, effects ++ turn.effects, turn.result⟩

/-- Lets the state of a turn react once more. The answer is the second one. -/
def andThen {Other : Type} (turn : Turn State Effect Result)
    (next : State → Turn State Effect Other) : Turn State Effect Other :=
  (next turn.state).after turn.effects

/-- Runs a machine over a list of inputs: the turns, in order. -/
def run {Input : Type} (step : State → Input → Turn State Effect Result) (state : State) :
    List Input → List (Turn State Effect Result)
  | [] => []
  | input :: rest =>
    let turn := step state input
    turn :: run step turn.state rest

end Turn

end KvmConsole
