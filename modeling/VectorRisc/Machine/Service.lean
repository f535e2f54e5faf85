/-
Module: VectorRisc.Machine.Service
Layer: Machine
Purpose: The services of the machine, by number and by name. A program asks for one by its number in
  `%v0`.
Imports: VectorRisc.Numeral.Integer
Trusted boundary: none
Main exports: Service, Service.code, Service.name, Service.ofCode?, Service.title
Open obligations: none
-/
import VectorRisc.Numeral.Integer

namespace VectorRisc

/-- A service of the machine. -/
inductive Service where
  | printInt
  | printFloat
  | printDouble
  | printString
  | readInt
  | readFloat
  | readDouble
  | readString
  | sbrk
  | exit
  | printChar
  | readChar
  | openFile
  | read
  | write
  | close
  | exitWith
  | printHex
  | printUint
deriving DecidableEq, Repr, Inhabited

namespace Service

/-- All services in the order of their numbers. -/
def all : List Service :=
  [.printInt, .printFloat, .printDouble, .printString, .readInt, .readFloat, .readDouble, .readString,
    .sbrk, .exit, .printChar, .readChar, .openFile, .read, .write, .close, .exitWith, .printHex,
    .printUint]

/-- The number of a service. -/
def code : Service → Nat
  | .printInt => 1
  | .printFloat => 2
  | .printDouble => 3
  | .printString => 4
  | .readInt => 5
  | .readFloat => 6
  | .readDouble => 7
  | .readString => 8
  | .sbrk => 9
  | .exit => 10
  | .printChar => 11
  | .readChar => 12
  | .openFile => 13
  | .read => 14
  | .write => 15
  | .close => 16
  | .exitWith => 17
  | .printHex => 34
  | .printUint => 36

/-- The name of a service. -/
def name : Service → String
  | .printInt => "print_int"
  | .printFloat => "print_float"
  | .printDouble => "print_double"
  | .printString => "print_string"
  | .readInt => "read_int"
  | .readFloat => "read_float"
  | .readDouble => "read_double"
  | .readString => "read_string"
  | .sbrk => "sbrk"
  | .exit => "exit"
  | .printChar => "print_char"
  | .readChar => "read_char"
  | .openFile => "open"
  | .read => "read"
  | .write => "write"
  | .close => "close"
  | .exitWith => "exit2"
  | .printHex => "print_hex"
  | .printUint => "print_uint"

/-- The service with a number. -/
def ofCode? (n : UInt64) : Option Service := all.find? fun s => s.code = n.toNat

/-- What a log calls the service with a number; an unknown number is shown as a signed value. -/
def title (n : UInt64) : Text :=
  match ofCode? n with
  | some s => Text.ofString s.name
  | none => Text.ofString "Service(" ++ Numeral.decimal n.toInt64.toInt ++ [ascii ')']

end Service

end VectorRisc
