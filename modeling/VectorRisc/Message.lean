/-
Module: VectorRisc.Message
Layer: Message
Purpose: How messages show numbers. A message for the user groups the digits of an integer in threes;
  hexadecimal is never grouped.
Imports: VectorRisc.Numeral.Integer
Trusted boundary: a library formats messages for the locale of the host; here it is taken to be US English,
  the locale of a host that names none
Main exports: shown, plain, hexed, hex8
Open obligations: none
-/
import VectorRisc.Numeral.Integer

namespace VectorRisc

/-- A number as a message shows it: decimal, grouped in threes. -/
def shown (n : Int) : String := (Numeral.grouped n).display

/-- A number in plain decimal. -/
def plain (n : Int) : String := (Numeral.decimal n).display

/-- A number in plain hexadecimal after `0x`; the sign of a negative one follows the mark. -/
def hexed (n : Int) : String := (Numeral.marked n).display

/-- A machine word in hexadecimal, filled up with zeros to eight digits. -/
def hex8 (n : Nat) : String := (Numeral.hexPadded 8 n).display

end VectorRisc
