/-
Module: VectorRisc.Memory.Gap
Layer: Memory
Purpose: The gap between the highest region and the heap, drawn from a seeded generator: one step of a
  128-bit linear congruential state, scrambled to 64 bits.
Imports: none
Trusted boundary: none
Main exports: Memory.heapGap
Open obligations: none
-/

namespace VectorRisc

namespace Memory

/-- The factor of the generator's step. -/
def gapFactor : Nat := 0x2360ed051fc65da44385df649fccf645

/-- The summand of the generator's step. -/
def gapSummand : Nat := 6364136223846793005 <<< 64 + 1442695040888963407

/-- The first number that the generator draws for a seed of two words. -/
def drawn (high low : UInt64) : UInt64 :=
  let state := ((high.toNat <<< 64 + low.toNat) * gapFactor + gapSummand) % (1 <<< 128)
  let hi := UInt64.ofNat (state >>> 64)
  let lo := UInt64.ofNat state
  let hi := (hi ^^^ (hi >>> 32)) * 0xda942042e4dd58b5
  (hi ^^^ (hi >>> 48)) * (lo ||| 1)

/-- The gap before the heap for a seed: a multiple of 32 below 4096. -/
def heapGap (high low : UInt64) : UInt64 := (drawn high low &&& 127) * 32

end Memory

end VectorRisc
