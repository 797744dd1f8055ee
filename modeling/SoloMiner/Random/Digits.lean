import SoloMiner.Random.Between

/-! # Random integers built from digits

    A draw that favours short numbers: first the number of digits is drawn, then each digit,
    the lowest one never zero. What falls outside the range is drawn again; after
    sixty-four tries the draw is uniform. -/

namespace SoloMiner.Random

/-- Tries before the draw becomes uniform. -/
def maxTries : Nat := 64

/-- Number of decimal digits of `n`. -/
def digitCount (n : Nat) : Nat := if n < 10 then 1 else digitCount (n / 10) + 1
termination_by n

/-- Number of decimal digits of `v`, one if `v` is negative. -/
def digitsOf (v : Int64) : Nat := digitCount v.toInt.toNat

/-- Draws `n` digits from place `place` on and adds them to `sum`. The lowest digit is drawn
    first, and is not zero. -/
def drawDigits : Nat → Nat → Nat → Words → Option (Nat × Words)
  | 0, _, sum, ws => some (sum, ws)
  | n + 1, place, sum, ws =>
    match between (if place = 1 then 1 else 0) 9 ws with
    | none => none
    | some (d, rest) => drawDigits n (place * 10) (sum + place * d.toInt.toNat) rest

/-- One try: a digit count between those of the ends of the range, then that many digits. -/
def tryDigits (min max : Int64) (ws : Words) : Option (Nat × Words) :=
  match between (Int64.ofNat (digitsOf min)) (Int64.ofNat (digitsOf max)) ws with
  | none => none
  | some (size, rest) => drawDigits size.toInt.toNat 1 0 rest

/-- Up to `tries` tries, then a uniform draw. A try whose number lies outside the range has used
    up its words all the same. -/
def digitsWithin (min max : Int64) : Nat → Words → Option (Int64 × Words)
  | 0, ws => between min max ws
  | tries + 1, ws =>
    match tryDigits min max ws with
    | none => none
    | some (n, rest) =>
      if min.toInt ≤ n ∧ (n : Int) ≤ max.toInt then some (Int64.ofNat n, rest)
      else digitsWithin min max tries rest

/-- A digit-wise draw from `[min, max]`; a range of at most one value takes no word. -/
def byDigits (min max : Int64) (ws : Words) : Option (Int64 × Words) :=
  if max ≤ min then some (min, ws) else digitsWithin min max maxTries ws

end SoloMiner.Random
