/-
Module: VectorRisc.Machine.Services
Layer: Machine
Purpose: The services of the machine. The number of the service is in `%v0` and its arguments are in
  `%a0` to `%a2`; the result goes to `%v0`. What the host refuses is told to the program as a result of
  all ones; a memory fault or an unknown service stops the machine.
Imports: VectorRisc.Machine.Basic, VectorRisc.Numeral.Ieee
Trusted boundary: none
Main exports: Machine.performService
Open obligations: none
-/
import VectorRisc.Machine.Basic
import VectorRisc.Numeral.Ieee

namespace VectorRisc

namespace Machine

/-- The longest path that a file can be opened with. -/
def pathLimit : Nat := 4096

/-- The longest text that is printed at once. -/
def stringLimit : Nat := 65536

/-- The most bytes that are moved at once. -/
def transferLimit : Nat := 1048576

/-- The result of a service that the host refused. -/
def failure : UInt64 := -1

variable {σ : Type}

/-- An argument of a service. -/
def argument (m : Machine σ) (n : UInt8) : UInt64 := m.get (Register.a0 + n)

/-- End a service with a result. -/
def answer (m : Machine σ) (result : UInt64) : Step σ := ⟨m.set Register.v0 result, none⟩

/-- End a service at a memory fault. -/
def faultAt (m : Machine σ) (e : Memory.Error) : Step σ := ⟨m, some (.memory e)⟩

/-- The number of bytes to move when a program asks for `count`. -/
def transferSize (count : UInt64) : Nat := min count.toNat transferLimit

/-- Stop the machine with an exit code. -/
def exit (m : Machine σ) (code : Int64) : Step σ :=
  { m with halted := true, exitCode := code }.answer (m.get Register.v0)

/-- Move the break. -/
def moveBreak (m : Machine σ) (delta : Int64) : Step σ :=
  match m.memory.sbrk delta with
  | (_, .error _) => m.answer failure
  | (brk, .ok memory) => ({ m with memory := memory }.noteMemory (m.memory.movedBy delta)).answer brk

/-- Store bytes that a service has read, and end it with a result. -/
def storeAnswer (m : Machine σ) (addr : UInt64) (bytes : List UInt8) (result : UInt64) : Step σ :=
  match m.memory.storeFault? addr bytes.length with
  | some e => m.faultAt e
  | none => { m with memory := m.memory.put addr bytes }.answer result

/-- Take something from the console's input. -/
def takeInput {α : Type} (m : Machine σ) (get : Input → α × Input) : α × Machine σ :=
  let (a, files) := m.files.take get
  (a, { m with files := files })

/-- Read a token and end with the value it stands for. -/
def readValue (m : Machine σ) (value? : Text → Option UInt64) : Step σ :=
  let (token, m) := m.takeInput Input.readToken
  m.answer ((token.bind value?).getD failure)

/-- Read a byte. -/
def readChar (m : Machine σ) : Step σ :=
  let (byte, m) := m.takeInput Input.readByte
  m.answer ((byte.map UInt8.toUInt64).getD failure)

/-- Read a line into `size` bytes of memory, the last of which is a zero byte; at the end of input the
    line is empty. -/
def readString (m : Machine σ) (addr size : UInt64) : Step σ :=
  if size = 0 then m.answer 0
  else
    let (line, m) := m.takeInput fun input => input.readLine (transferSize (size - 1))
    let line := line.getD []
    m.storeAnswer addr (line ++ [0]) (UInt64.ofNat line.length)

/-- The signed number of a token. -/
def intValue? (t : Text) : Option UInt64 :=
  (Numeral.readSigned t).toOption.map fun n => (Int64.ofInt n).toUInt64

/-- The pattern of the floating-point number of a token. -/
def floatValue? (f : Ieee.Format) (t : Text) : Option UInt64 := (f.read t).toOption.map UInt64.ofNat

variable [FileSystem σ]

/-- Write bytes to standard output; the result is the number of the service as it was. -/
def print (m : Machine σ) (bytes : List UInt8) : Step σ :=
  let (result, files) := m.files.write Files.standardOutput bytes
  let m := { m with files := files }
  match result with
  | .ok _ => m.answer (m.get Register.v0)
  | .error _ => m.answer failure

/-- Print the text at an address. -/
def printString (m : Machine σ) (addr : UInt64) : Step σ :=
  match m.memory.loadString stringLimit addr with
  | (_, some e) => m.faultAt e
  | (text, none) => m.print text

/-- Open the file whose path is at an address. -/
def openFile (m : Machine σ) (addr flags permissions : UInt64) : Step σ :=
  match m.memory.loadString pathLimit addr with
  | (_, some e) => m.faultAt e
  | (path, none) =>
    let (result, files) := m.files.openFile path flags (permissions &&& 0o777)
    let m := { m with files := files }
    m.answer (result.toOption.getD failure)

/-- Read from a descriptor into memory. -/
def readFile (m : Machine σ) (fd addr count : UInt64) : Step σ :=
  let (result, files) := m.files.read fd (transferSize count)
  let m := { m with files := files }
  match result with
  | .error _ => m.answer failure
  | .ok [] => m.answer 0
  | .ok bytes => m.storeAnswer addr bytes (UInt64.ofNat bytes.length)

/-- Write memory to a descriptor. -/
def writeFile (m : Machine σ) (fd addr count : UInt64) : Step σ :=
  if count = 0 then m.answer 0
  else
    match m.memory.load addr (transferSize count) with
    | .error e => m.faultAt e
    | .ok bytes =>
      let (result, files) := m.files.write fd bytes
      let m := { m with files := files }
      m.answer ((result.toOption.map UInt64.ofNat).getD failure)

/-- Close a descriptor. -/
def closeFile (m : Machine σ) (fd : UInt64) : Step σ :=
  let (result, files) := m.files.close fd
  let m := { m with files := files }
  m.answer (if result.toOption.isSome then 0 else failure)

/-- Perform a service. -/
def serve (m : Machine σ) : Service → Step σ
  | .printInt => m.print (Numeral.decimal (m.argument 0).toInt64.toInt)
  | .printUint => m.print (Numeral.decimal (m.argument 0).toNat)
  | .printHex => m.print (Numeral.marked (m.argument 0).toNat)
  | .printFloat => m.print (Ieee.single.write (m.argument 0).toUInt32.toNat)
  | .printDouble => m.print (Ieee.double.write (m.argument 0).toNat)
  | .printChar => m.print [(m.argument 0).toUInt8]
  | .printString => m.printString (m.argument 0)
  | .readInt => m.readValue intValue?
  | .readFloat => m.readValue (floatValue? Ieee.single)
  | .readDouble => m.readValue (floatValue? Ieee.double)
  | .readString => m.readString (m.argument 0) (m.argument 1)
  | .readChar => m.readChar
  | .sbrk => m.moveBreak (m.argument 0).toInt64
  | .exit => m.exit 0
  | .exitWith => m.exit (m.argument 0).toInt64
  | .openFile => m.openFile (m.argument 0) (m.argument 1) (m.argument 2)
  | .read => m.readFile (m.argument 0) (m.argument 1) (m.argument 2)
  | .write => m.writeFile (m.argument 0) (m.argument 1) (m.argument 2)
  | .close => m.closeFile (m.argument 0)

/-- Perform the service that `%v0` names. -/
def performService (m : Machine σ) : Step σ :=
  let number := m.get Register.v0
  let m := m.note (.service number (m.argument 0) (m.argument 1) (m.argument 2))
  match Service.ofCode? number with
  | none => ⟨m, some (.unknownService number)⟩
  | some service => m.serve service

end Machine

end VectorRisc
