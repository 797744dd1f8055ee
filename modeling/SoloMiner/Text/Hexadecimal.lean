import SoloMiner.Text.Bytes

/-! # Hexadecimal numerals

    Digits beyond nine are written as small letters and read as small or capital ones. -/

namespace SoloMiner.Hexadecimal

/-- The digit of a number below sixteen. -/
def digitChar (d : Nat) : Char := if d < 10 then Char.ofNat (48 + d) else Char.ofNat (87 + d)

/-- The shortest numeral of `n`. -/
def ofNat (n : Nat) : List Char :=
  if n < 16 then [digitChar n] else ofNat (n / 16) ++ [digitChar (n % 16)]
termination_by n

/-- The value of a digit. -/
def digit? (c : Char) : Option Nat :=
  let n := c.toNat
  if 48 ≤ n ∧ n ≤ 57 then some (n - 48)
  else if 97 ≤ n ∧ n ≤ 102 then some (n - 87)
  else if 65 ≤ n ∧ n ≤ 70 then some (n - 55)
  else none

/-! ## Bytes -/

/-- Two digits for each byte. -/
def text (bs : Bytes) : String :=
  String.ofList (bs.flatMap fun b => [digitChar (b.toNat / 16), digitChar (b.toNat % 16)])

/-- The bytes that pairs of digits stand for. -/
def bytes? : List Char → Option Bytes
  | [] => some []
  | [_] => none
  | a :: b :: rest => do
    let n := 16 * (← digit? a) + (← digit? b)
    some (UInt8.ofNat n :: (← bytes? rest))

end SoloMiner.Hexadecimal
