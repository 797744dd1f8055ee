/-! # Easy-block values

    Every job has a set of up to 256 easy values, spread evenly over its range. Workers pair
    them with each other before they draw operands at random. The set is divided among the
    workers in contiguous chunks. -/

namespace SoloMiner.EasyBlock

/-- The largest number of easy values. -/
def maxCount : Nat := 256

/-! ## Values -/

/-- Number of integers in `[min, max]`. -/
def rangeSize (min max : Int64) : Int := max.toInt - min.toInt + 1

/-- Above this range size the offsets are computed in double precision. -/
def singlePrecisionLimit : Int := 16777216

/-- The offset of the `i`-th value in a range of `range` integers: an even fraction, moved
    down a little and cut to a whole number. -/
def offset (range : Int) (i : Nat) : Nat :=
  if range ≤ singlePrecisionLimit then
    let fraction := Float32.ofNat i / 255.0 - 0.0000001
    let fraction := if fraction < 0.0 then 0.0 else fraction
    (fraction * Float32.ofNat range.toNat).toUInt64.toNat
  else
    let fraction := Float.ofNat i / 255.0 - 0.00000000001
    let fraction := if fraction < 0.0 then 0.0 else fraction
    (fraction * Float.ofNat range.toNat).toUInt64.toNat

/-- Drops every element that equals the one before it. -/
def dropRepeats : List Int64 → List Int64
  | x :: y :: rest => if x = y then dropRepeats (y :: rest) else x :: dropRepeats (y :: rest)
  | xs => xs

/-- The values at the given offsets from `min`, cut off at `max`, in ascending order and
    without repeats. -/
def valuesAt (min max : Int64) (offsets : List Nat) : List Int64 :=
  let raw := offsets.map fun (n : Nat) => Int64.ofInt (Min.min (min.toInt + n) max.toInt)
  dropRepeats (raw.mergeSort fun a b => decide (a ≤ b))

/-- The values laid out in `[min, max]`: all of it if it is small, otherwise those at the offsets
    that `offset` gives. -/
def valuesBy (offset : Nat → Nat) (min max : Int64) : List Int64 :=
  let range := rangeSize min max
  if range ≤ 0 then []
  else if range ≤ maxCount then
    (List.range range.toNat).map fun (i : Nat) => Int64.ofInt (min.toInt + i)
  else valuesAt min max ((List.range maxCount).map offset)

/-- The easy values of `[min, max]`. -/
def values (min max : Int64) : List Int64 := valuesBy (offset (rangeSize min max)) min max

/-! ## Chunks -/

/-- Start and length of chunk `index` when `total` items are divided into `chunks` chunks. The
    first chunks are longer by one where the division is not even. -/
def chunk (total chunks index : Nat) : Nat × Nat :=
  if chunks = 0 ∨ chunks ≤ index then (0, 0)
  else
    let quotient := total / chunks
    let remainder := total % chunks
    (index * quotient + Min.min index remainder, if index < remainder then quotient + 1 else quotient)

end SoloMiner.EasyBlock
