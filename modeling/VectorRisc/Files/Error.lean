/-
Module: VectorRisc.Files.Error
Layer: Files
Purpose: Why an operation on a file or descriptor fails, and how it is told.
Imports: VectorRisc.Message
Trusted boundary: none
Main exports: Files.HostFault, Files.Error, Files.Error.message
Open obligations: none
-/
import VectorRisc.Message

namespace VectorRisc

namespace Files

/-- Why the host refuses a file operation. -/
inductive HostFault where
  | missing
  | nameTooLong
  | badName
  | other (text : Text)
deriving DecidableEq, Repr, Inhabited

/-- The text of a host fault. -/
def HostFault.message : HostFault → String
  | .missing => "no such file or directory"
  | .nameTooLong => "file name too long"
  | .badName => "invalid argument"
  | .other text => text.display

/-- Why an operation on a descriptor fails. -/
inductive Error where
  | badDescriptor
  | notReadable
  | notWritable
  | badFlags
  /-- The output stream takes no bytes. -/
  | device
  | host (cause : HostFault)
deriving DecidableEq, Repr, Inhabited

/-- The text of a descriptor error. -/
def Error.message : Error → String
  | .badDescriptor => "bad file descriptor"
  | .notReadable => "file descriptor not open for reading"
  | .notWritable => "file descriptor not open for writing"
  | .badFlags => "open flags invalid"
  | .device => "device full"
  | .host cause => cause.message

end Files

end VectorRisc
