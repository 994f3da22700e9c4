import JackCompiler.Fault

/-!
# Sinks

A sink takes items one after the other and stores each as one line of bytes. It may accept only a
limited number of bytes: then the first item that does not fit is torn, and nothing is stored
behind it. It may also be unable to flush.

## Main definitions

* `Sink` — the items stored whole and the part of a torn one
* `Sink.write`, `Sink.flush` — the operations, which fail as the sink's limits demand
* `Sink.text`, `Sink.bytes` — everything stored
-/

namespace JackCompiler

/-- A destination of output that stores one line for each item. -/
structure Sink (α : Type) where
  /-- The items stored whole, in order. -/
  items : Array α := #[]
  /-- The bytes stored of the first item that did not fit. -/
  torn : List UInt8 := []
  /-- The number of bytes that the sink still accepts, if that is limited. -/
  room : Option Nat := none
  /-- Whether the sink can be flushed. -/
  canFlush : Bool := true
deriving Repr, Inhabited

namespace Sink

variable {α : Type}

/-- The line that stores an item with the given text. -/
def line (text : String) : String :=
  text ++ "\n"

/-- Stores an item whole if it fits. Otherwise stores the bytes of it that fit, and fails. -/
def write (render : α → String) (item : α) (sink : Sink α) : Except StorageFault Unit × Sink α :=
  match sink.room with
  | none => (.ok (), { sink with items := sink.items.push item })
  | some room =>
    let size := (line (render item)).utf8ByteSize
    if size ≤ room then
      (.ok (), { sink with items := sink.items.push item, room := some (room - size) })
    else
      let fitting := (Utf8.encode (line (render item))).take room
      (.error .sinkFull, { sink with torn := sink.torn ++ fitting, room := some 0 })

/-- Hands on what is stored. -/
def flush (sink : Sink α) : Except StorageFault Unit :=
  if sink.canFlush then .ok () else .error .flushFailed

/-- The lines of the items stored whole. -/
def text (render : α → String) (sink : Sink α) : String :=
  sink.items.foldl (fun lines item => lines ++ line (render item)) ""

/-- All bytes stored: the lines of the items stored whole, and then the torn one. -/
def bytes (render : α → String) (sink : Sink α) : ByteArray :=
  (sink.text render).toUTF8 ++ ⟨sink.torn.toArray⟩

end Sink

end JackCompiler
