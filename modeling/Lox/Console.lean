import Lox.Text.Utf8

/-!
# The console

What a program writes goes to a `Sink`: bytes, perhaps up to a limit, after which every further byte
is refused. A sink may also refuse single requests, of its own accord. Writing and reading fail for
the reasons of a `ConsoleError`; a `Refusal` is how a request fails that the outside refuses.

* `Sink.write` stores what the sink takes, and says whether that was all of it.
* `Sink.flush` stores nothing, and says whether the sink was willing.
-/

namespace Lox

/-- Why writing or reading failed. -/
inductive ConsoleError where
  | full
  | flush
  | invalidText
  /-- The outside gave a reason of its own. -/
  | refused (reason : String)
deriving DecidableEq, Repr

/-- A failure in words. -/
def ConsoleError.message : ConsoleError → String
  | .full => "output full"
  | .flush => "flush failed"
  | .invalidText => "stream did not contain valid UTF-8"
  | .refused reason => reason

/-- How a request is refused: after how many of its bytes, and for which reason. -/
structure Refusal where
  taken : Nat
  reason : String
deriving DecidableEq, Repr

/-- Where output goes. -/
structure Sink where
  /-- What has been written. -/
  written : Array UInt8
  /-- How many bytes can be written in all, if there is a limit. -/
  limit : Option Nat
  /-- Whether every flush fails. -/
  flushFails : Bool
  /-- How many requests there have been, to write or to flush. -/
  requests : Nat := 0
  /-- Which requests are refused, whatever they are. -/
  refusals : Nat → Option Refusal := fun _ => none

namespace Sink

/-- A sink without a limit. -/
def unlimited : Sink where
  written := #[]
  limit := none
  flushFails := false

/-- As many of the bytes as still fit. -/
def fitting (s : Sink) (bytes : List UInt8) : List UInt8 :=
  match s.limit with
  | none => bytes
  | some n => bytes.take (n - s.written.size)

/-- Whether all of the bytes still fit. -/
def fits (s : Sink) (bytes : List UInt8) : Bool :=
  match s.limit with
  | none => true
  | some n => bytes.isEmpty || s.written.size + bytes.length ≤ n

/-- The sink with some bytes more, after a request. -/
def store (s : Sink) (bytes : List UInt8) : Sink :=
  { s with written := s.written ++ bytes, requests := s.requests + 1 }

/-- Writes as many of the bytes as the sink takes. -/
def write (s : Sink) (bytes : List UInt8) : Except ConsoleError Unit × Sink :=
  match s.refusals s.requests with
  | some r => (.error (.refused r.reason), s.store ((s.fitting bytes).take r.taken))
  | none => (if s.fits bytes then .ok () else .error .full, s.store (s.fitting bytes))

/-- Flushes what was written. -/
def flush (s : Sink) : Except ConsoleError Unit × Sink :=
  match s.refusals s.requests with
  | some r => (.error (.refused r.reason), s.store [])
  | none => (if s.flushFails then .error .flush else .ok (), s.store [])

/-- What has been written since the sink held `size` bytes, as text. -/
def textSince (s : Sink) (size : Nat) : String := Text.Utf8.lossy (s.written.toList.drop size)

end Sink

end Lox
