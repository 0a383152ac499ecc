/-
# Sinks

A sink collects the bytes that are written to a stream. It may have a capacity,
and then keeps what fits and fails on the first byte that does not; and its
flushes may fail. Besides it may refuse any request, a write or a flush, for a
reason of its own: it may fail once and then go on, keep some of the bytes or none,
flush after one report and not after the next. Which requests those are is part of
the sink, so that sinks stand for whatever a stream may do while it is written.
-/

namespace LoxLang

/-- Why a stream cannot be written. -/
inductive SinkFault
  | /-- The capacity is used up. -/
    full
  | /-- A flush failed. -/
    flush
  | /-- Any other reason, as the stream words it. -/
    other (message : String)
  deriving DecidableEq

/-- How the failure of a stream is worded. -/
def SinkFault.message : SinkFault → String
  | .full => "sink full"
  | .flush => "flush failed"
  | .other message => message

/-- A request that is refused. -/
structure Refusal where
  /-- How many requests are not refused before it. -/
  wait : Nat
  /-- How many bytes are taken all the same, if it is a write. -/
  taken : Nat
  /-- Why it is refused. -/
  fault : SinkFault

/-- Whether the next request is refused, and what is refused after it. -/
def Refusal.next : List Refusal → Option Refusal × List Refusal
  | [] => (none, [])
  | ⟨0, taken, fault⟩ :: later => (some ⟨0, taken, fault⟩, later)
  | ⟨wait + 1, taken, fault⟩ :: later => (none, ⟨wait, taken, fault⟩ :: later)

/-- A stream and what was written to it. -/
structure Sink where
  /-- The most bytes that the sink takes in all, if there is a limit. -/
  capacity : Option Nat
  /-- Whether flushing fails. -/
  flushFails : Bool
  /-- The bytes taken so far. -/
  written : ByteArray
  /-- The requests that are refused whatever else, in order. -/
  refusals : List Refusal := []

namespace Sink

/-- A sink that takes everything. -/
def unlimited : Sink where
  capacity := none
  flushFails := false
  written := ByteArray.empty

/-- Write bytes, and tell whether they were all taken. -/
def write (sink : Sink) (bytes : ByteArray) : Option SinkFault × Sink :=
  match sink with
  | ⟨capacity, flushFails, written, refusals⟩ =>
    match Refusal.next refusals with
    | (some refusal, later) =>
      (some refusal.fault,
        ⟨capacity, flushFails, written ++ bytes.extract 0 refusal.taken, later⟩)
    | (none, later) =>
      match capacity with
      | none => (none, ⟨none, flushFails, written ++ bytes, later⟩)
      | some limit =>
        let room := limit - written.size
        if bytes.size ≤ room then (none, ⟨some limit, flushFails, written ++ bytes, later⟩)
        else (some .full, ⟨some limit, flushFails, written ++ bytes.extract 0 room, later⟩)

/-- Write a text and the newline that ends its line. -/
def writeLine (sink : Sink) (text : String) : Option SinkFault × Sink :=
  sink.write (text ++ "\n").toUTF8

/-- Flush the sink, which moves no bytes. -/
def flush (sink : Sink) : Option SinkFault × Sink :=
  match Refusal.next sink.refusals with
  | (some refusal, later) => (some refusal.fault, { sink with refusals := later })
  | (none, later) =>
    (if sink.flushFails then some .flush else none, { sink with refusals := later })

/-- Write a line and, if that did not fail, flush the sink. -/
def report (sink : Sink) (text : String) : Option SinkFault × Sink :=
  match sink.writeLine text with
  | (some fault, sink) => (some fault, sink)
  | (none, sink) => sink.flush

end Sink

end LoxLang
