/-! # Uniform random integers

    Randomness is a finite list of 64-bit words, the words drawn in the course of a run. A
    sampler takes words from its front and returns the rest, or `none` if the words end
    before the sampler is done.

    A uniform draw masks a word down to the width of the range and rejects what lies above
    the range, so every value is as likely as any other. -/

namespace SoloMiner

/-- The random words available to a run, the next one first. -/
abbrev Words : Type := List UInt64

namespace Random

/-- The words that random bytes make, eight bytes each. -/
def wordsOf : List UInt8 → Words
  | a :: b :: c :: d :: e :: f :: g :: h :: rest =>
    [a, b, c, d, e, f, g, h].foldl (fun word byte => word <<< 8 ||| byte.toUInt64) 0 ::
      wordsOf rest
  | _ => []

/-- The least number of the form `2 ^ k - 1` that is not below `range`. Each line lets the bits
    reach down twice as far as they did. -/
def maskFor (range : UInt64) : UInt64 :=
  let m := range ||| (range >>> 1)
  let m := m ||| (m >>> 2)
  let m := m ||| (m >>> 4)
  let m := m ||| (m >>> 8)
  let m := m ||| (m >>> 16)
  m ||| (m >>> 32)

/-- The width of `[min, max]` less one. -/
def span (min max : Int64) : UInt64 := (max - min).toUInt64

/-- The value that a word stands for, unless it is rejected. -/
def pick? (min max : Int64) (word : UInt64) : Option Int64 :=
  let range := span min max
  let value := word &&& maskFor range
  if value ≤ range then some (min + value.toInt64) else none

/-- The first value that a word of the list stands for, and the words behind it. Words that stand
    for no value are used up. -/
def firstPick (min max : Int64) : Words → Option (Int64 × Words)
  | [] => none
  | w :: ws =>
    match pick? min max w with
    | some v => some (v, ws)
    | none => firstPick min max ws

/-- A uniform draw from `[min, max]`; a range of at most one value takes no word. -/
def between (min max : Int64) (ws : Words) : Option (Int64 × Words) :=
  if max ≤ min then some (min, ws) else firstPick min max ws

/-- A uniform draw from `[0, max]`. -/
def index (max : Nat) (ws : Words) : Option (Nat × Words) :=
  (between 0 (Int64.ofNat max) ws).map fun (v, rest) => (v.toInt.toNat, rest)

end Random
end SoloMiner
