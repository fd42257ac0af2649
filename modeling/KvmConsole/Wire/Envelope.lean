import KvmConsole.Wire.Status

/-!
# Answers of the daemon's web interface

Each one is an envelope: whether the request was carried out, and the result. The result cannot be
left out, not even where it may be anything.
-/

namespace KvmConsole.Wire

open Json (Shape Fields)

structure Envelope (α : Type) where
  ok : Bool
  result : α
  deriving DecidableEq, Repr

namespace Envelope

def shape (result : Shape) : Shape :=
  .record "ApiEnvelope" <|
    .cons "ok" .bool false <|
    .cons "result" result false .nil

def ofValue {result : Shape} (v : (shape result).Value) : Envelope result.Value :=
  match (v : Bool × result.Value × Unit) with
  | (ok, result, ()) => ⟨ok, result⟩

def map {α β : Type} (f : α → β) (e : Envelope α) : Envelope β := ⟨e.ok, f e.result⟩

/-- Reads a text as an envelope around a result of a shape. -/
def ofText (result : Shape) (text : String) : Except Json.Fault (Envelope result.Value) :=
  Json.readText (fun draft => ((shape result).read Json.depthLimit draft).map ofValue) text

def toJson {α : Type} (result : α → Json) (e : Envelope α) : Json :=
  .object [("ok", .bool e.ok), ("result", result e.result)]

/-- Reads a text as an envelope around a status. -/
def statusOfText (text : String) : Except Json.Fault (Envelope Msd.Status) :=
  (ofText Msd.Status.shape text).map fun e => e.map Msd.Status.ofValue

/-- Reads a text as an envelope around anything. -/
def anyOfText (text : String) : Except Json.Fault (Envelope Json) := ofText .anything text

end Envelope

end KvmConsole.Wire
