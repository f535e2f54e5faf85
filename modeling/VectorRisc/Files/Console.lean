/-
Module: VectorRisc.Files.Console
Layer: Files
Purpose: The console of a program: its input and its two output streams.
Imports: VectorRisc.Bytes, VectorRisc.Files.Error, VectorRisc.Files.Input
Trusted boundary: none
Main exports: Sink, Sink.write, Console
Open obligations: none
-/
import VectorRisc.Bytes
import VectorRisc.Files.Error
import VectorRisc.Files.Input

namespace VectorRisc

/-- Where output goes: nowhere, into a collection of all that was written, or to a device that takes
    nothing. -/
inductive Sink where
  | absent
  | collecting (written : ByteArray)
  | broken
deriving DecidableEq, Inhabited

namespace Sink

/-- All that was written. -/
def written : Sink → ByteArray
  | .collecting bytes => bytes
  | .absent | .broken => ByteArray.empty

/-- Write bytes and tell how many were taken. -/
def write (s : Sink) (bytes : List UInt8) : Except Files.Error Nat × Sink :=
  match s with
  | .absent => (.ok bytes.length, .absent)
  | .collecting written => (.ok bytes.length, .collecting (written ++ Bytes.ofList bytes))
  | .broken => (.error .device, .broken)

end Sink

/-- The streams of a console. -/
structure Console where
  input : Input := {}
  output : Sink := .collecting ByteArray.empty
  error : Sink := .collecting ByteArray.empty
deriving DecidableEq, Inhabited

namespace Console

/-- Throw away the input that is held. -/
def rewind (c : Console) : Console := { c with input := c.input.rewind }

end Console

end VectorRisc
