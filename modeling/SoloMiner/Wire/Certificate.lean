import SoloMiner.Random.Between
import SoloMiner.Text.Bytes

/-! # Certificates

    A connection opens with a certificate in the clear: a fixed seed and random characters.
    Both sides derive the transport cipher from it. -/

namespace SoloMiner.Certificate

/-- What every certificate starts with. -/
def seed : String := "XENOPHYTESEED"

/-- Number of random characters. -/
def randomLength : Nat := 256

/-- The characters drawn from. -/
def alphabet : Bytes :=
  Bytes.ofString "ABCDEFGHIJKLMNOPQRSTUVWXYZabcdefghijklmnopqrstuvwxyz0123456789&~#@'(\\)="

/-- Draws `n` characters behind the characters `acc`, the latest first. Each of them is drawn
    from the whole alphabet. -/
def drawFrom : Nat → Bytes → Words → Option (Bytes × Words)
  | 0, acc, ws => some (acc.reverse, ws)
  | n + 1, acc, ws =>
    match Random.index (alphabet.length - 1) ws with
    | none => none
    | some (i, ws) => drawFrom n (alphabet.getD i 0 :: acc) ws

/-- A fresh certificate. -/
def generate (ws : Words) : Option (Bytes × Words) :=
  (drawFrom randomLength [] ws).map fun (random, rest) => (Bytes.ofString seed ++ random, rest)

/-- Could `generate` have made `bs`? -/
def isWellFormed (bs : Bytes) : Bool :=
  match bs.afterText? seed with
  | some random => random.length == randomLength && random.all (alphabet.contains ·)
  | none => false

end SoloMiner.Certificate
