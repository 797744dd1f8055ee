import SoloMiner.Text.Decimal

/-! # Durations

    Lengths of time, and points in time as lengths since a start. The text of a length is in
    the largest unit that it fills, with as many decimal places as it needs. -/

namespace SoloMiner

/-- A length of time. -/
structure Duration where
  nanoseconds : Nat
  deriving DecidableEq, Repr

namespace Duration

def zero : Duration := ⟨0⟩

def ofSeconds (n : Nat) : Duration := ⟨1000000000 * n⟩

def ofMilliseconds (n : Nat) : Duration := ⟨1000000 * n⟩

instance : Add Duration := ⟨fun x y => ⟨x.nanoseconds + y.nanoseconds⟩⟩

instance : LE Duration := ⟨fun x y => x.nanoseconds ≤ y.nanoseconds⟩

instance (x y : Duration) : Decidable (x ≤ y) :=
  inferInstanceAs (Decidable (x.nanoseconds ≤ y.nanoseconds))

/-! ## Text -/

/-- The decimal places of `n / 10 ^ places` without zeros at the end. -/
def decimals : Nat → Nat → List Char
  | 0, _ => []
  | _, 0 => []
  | places + 1, n =>
    Decimal.digitChar (n / Nat.pow 10 places) :: decimals places (n % Nat.pow 10 places)

/-- `n / 10 ^ places` in a unit. -/
def inUnit (n places : Nat) (unit : String) : String :=
  let fraction := decimals places (n % Nat.pow 10 places)
  let point := if fraction.isEmpty then [] else ['.']
  String.ofList (Decimal.ofNat (n / Nat.pow 10 places) ++ point ++ fraction) ++ unit

def text (d : Duration) : String :=
  if 1000000000 ≤ d.nanoseconds then inUnit d.nanoseconds 9 "s"
  else if 1000000 ≤ d.nanoseconds then inUnit d.nanoseconds 6 "ms"
  else if 1000 ≤ d.nanoseconds then inUnit d.nanoseconds 3 "µs"
  else inUnit d.nanoseconds 0 "ns"

end Duration
end SoloMiner
