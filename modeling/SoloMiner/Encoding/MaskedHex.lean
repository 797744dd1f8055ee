import SoloMiner.Text.Bytes

/-! # Masked hexadecimal text

    Bytes are written as upper-case hexadecimal pairs, with or without a dash between pairs.
    A mask key may then be laid over the text, character by character and repeated as often
    as needed; dashes are masked like digits. -/

namespace SoloMiner.MaskedHex

/-- The upper-case digit of four bits. -/
def digit (v : UInt8) : UInt8 := if v < 10 then v + 48 else v + 55

/-- The dash between pairs. -/
def dash : UInt8 := 45

/-- The pair of digits of a byte. -/
def pair (b : UInt8) : Bytes := [digit (b >>> 4), digit (b &&& 15)]

def plain (bs : Bytes) : Bytes := bs.flatMap pair

/-- Pairs separated by dashes. -/
def dashed : Bytes → Bytes
  | [] => []
  | b :: bs => pair b ++ bs.flatMap fun c => dash :: pair c

def render (withDashes : Bool) (bs : Bytes) : Bytes :=
  if withDashes then dashed bs else plain bs

/-- Lays `key`, of which `left` has not been used yet in the present turn, over `cs`, behind
    the masked characters `acc`, the latest first. -/
def maskFrom (key left acc : Bytes) : Bytes → Bytes
  | [] => acc.reverse
  | c :: cs =>
    match left with
    | k :: ks => maskFrom key ks ((c ^^^ k) :: acc) cs
    | [] =>
      match key with
      | k :: ks => maskFrom key ks ((c ^^^ k) :: acc) cs
      | [] => maskFrom key [] (c :: acc) cs

/-- Combines the `i`-th character with the `i`-th byte of the endlessly repeated key. An empty
    key changes nothing. -/
def mask (key cs : Bytes) : Bytes := maskFrom key key [] cs

/-- Hexadecimal text of `bs` under `key`. -/
def encode (bs key : Bytes) (withDashes : Bool) : Bytes := mask key (render withDashes bs)

end SoloMiner.MaskedHex
