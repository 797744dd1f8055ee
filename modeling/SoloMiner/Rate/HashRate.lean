import SoloMiner.Text.Decimal

/-! # Hash rates

    A rate is a whole number of hashes per second. The text of a large rate is its exact
    double-precision value in thousands or millions, rounded to two places. -/

namespace SoloMiner

/-- Hashes per second. -/
structure HashRate where
  perSecond : UInt64
  deriving DecidableEq, Repr, Inhabited

namespace HashRate

def zero : HashRate := ⟨0⟩

/-- The length of a time in seconds. -/
def seconds (secs nanos : Nat) : Float := Float.ofNat secs + Float.ofNat nanos / 1000000000.0

/-- The rate of `hashes` in `secs` seconds and `nanos` nanoseconds; zero if no time passed. The
    quotient is cut to a whole number and bounded by the width of a rate. -/
def ofCount (hashes : UInt64) (secs nanos : Nat) : HashRate :=
  let time := seconds secs nanos
  if time ≤ 0.0 then zero else ⟨(hashes.toFloat / time).toUInt64⟩

/-- The sum, bounded by the width of a rate. -/
def add (x y : HashRate) : HashRate :=
  if x.perSecond.toNat + y.perSecond.toNat < UInt64.size then ⟨x.perSecond + y.perSecond⟩
  else ⟨UInt64.ofNat (UInt64.size - 1)⟩

def sum (rates : List HashRate) : HashRate := rates.foldl add zero

/-! ## Text -/

def kilo (r : HashRate) : Float := r.perSecond.toFloat / 1000.0

def mega (r : HashRate) : Float := r.perSecond.toFloat / 1000000.0

/-- Numerator and denominator of a finite positive double. -/
def ratio (x : Float) : Nat × Nat :=
  let bits := x.toBits.toNat
  let unit : Nat := 1 <<< 52
  let exponent := bits / unit % 2048
  let fraction := bits % unit
  let (m, e) := if exponent = 0 then (fraction, 1) else (fraction + unit, exponent)
  if 1075 ≤ e then (m <<< (e - 1075), 1) else (m, 1 <<< (1075 - e))

/-- The integer next to `num / den`; a half goes to the even neighbour. -/
def roundHalfEven (num den : Nat) : Nat :=
  let q := num / den
  let r := num % den
  if den < 2 * r ∨ (2 * r = den ∧ q % 2 = 1) then q + 1 else q

/-- A finite positive double with two decimal places. -/
def twoPlaces (x : Float) : String :=
  let (num, den) := ratio x
  let cents := roundHalfEven (num * 100) den
  Decimal.text (cents / 100 : Nat) ++ "." ++
    String.ofList [Decimal.digitChar (cents / 10 % 10), Decimal.digitChar (cents % 10)]

/-- The rate in a unit that suits its size. -/
def text (r : HashRate) : String :=
  if 1000000 ≤ r.perSecond then twoPlaces r.mega ++ " MH/s"
  else if 1000 ≤ r.perSecond then twoPlaces r.kilo ++ " KH/s"
  else Decimal.text r.perSecond.toNat ++ " H/s"

end HashRate
end SoloMiner
