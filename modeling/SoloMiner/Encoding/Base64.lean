import SoloMiner.Text.Bytes

/-! # Base64

    The standard alphabet with padding. Decoding is strict: the length is a multiple of four,
    padding stands only at the end, and the bits that padding leaves unused are zero. So a
    byte string has exactly one written form. -/

namespace SoloMiner.Base64

/-! ## Alphabet -/

/-- The character of six bits. -/
def symbol (v : UInt8) : UInt8 :=
  if v < 26 then v + 65
  else if v < 52 then v + 71
  else if v < 62 then v - 4
  else if v = 62 then 43
  else 47

/-- The six bits of a character of the alphabet. -/
def value? (c : UInt8) : Option UInt8 :=
  if 65 ≤ c ∧ c ≤ 90 then some (c - 65)
  else if 97 ≤ c ∧ c ≤ 122 then some (c - 71)
  else if 48 ≤ c ∧ c ≤ 57 then some (c + 4)
  else if c = 43 then some 62
  else if c = 47 then some 63
  else none

/-- The padding character. -/
def filler : UInt8 := 61

/-! ## Groups -/

/-- The four characters of three bytes. -/
def group3 (a b c : UInt8) : Bytes :=
  [symbol (a >>> 2), symbol (((a &&& 3) <<< 4) ||| (b >>> 4)),
    symbol (((b &&& 15) <<< 2) ||| (c >>> 6)), symbol (c &&& 63)]

def group2 (a b : UInt8) : Bytes :=
  [symbol (a >>> 2), symbol (((a &&& 3) <<< 4) ||| (b >>> 4)), symbol ((b &&& 15) <<< 2), filler]

def group1 (a : UInt8) : Bytes :=
  [symbol (a >>> 2), symbol ((a &&& 3) <<< 4), filler, filler]

/-- Encodes `bs` in front of the characters `acc`, the latest first. -/
def encodeFrom (acc : Bytes) : Bytes → Bytes
  | a :: b :: c :: rest => encodeFrom ((group3 a b c).reverse ++ acc) rest
  | [a, b] => ((group2 a b).reverse ++ acc).reverse
  | [a] => ((group1 a).reverse ++ acc).reverse
  | [] => acc.reverse

def encode (bs : Bytes) : Bytes := encodeFrom [] bs

/-- The bytes of the last four characters, where padding may stand. -/
def closing? (p q r s : UInt8) : Option Bytes := do
  let v ← value? p
  let w ← value? q
  if r = filler then
    guard (s = filler ∧ w &&& 15 = 0)
    pure [(v <<< 2) ||| (w >>> 4)]
  else
    let x ← value? r
    if s = filler then
      guard (x &&& 3 = 0)
      pure [(v <<< 2) ||| (w >>> 4), (w <<< 4) ||| (x >>> 2)]
    else
      let y ← value? s
      pure [(v <<< 2) ||| (w >>> 4), (w <<< 4) ||| (x >>> 2), (x <<< 6) ||| y]

/-- The three bytes of four characters of the alphabet. -/
def inner? (p q r s : UInt8) : Option Bytes := do
  let v ← value? p
  let w ← value? q
  let x ← value? r
  let y ← value? s
  pure [(v <<< 2) ||| (w >>> 4), (w <<< 4) ||| (x >>> 2), (x <<< 6) ||| y]

/-- Decodes `cs` in front of the bytes `acc`, the latest first. -/
def decodeFrom? (acc : Bytes) : Bytes → Option Bytes
  | [] => some acc.reverse
  | [p, q, r, s] => (closing? p q r s).map fun bs => (bs.reverse ++ acc).reverse
  | p :: q :: r :: s :: rest =>
    match inner? p q r s with
    | some bs => decodeFrom? (bs.reverse ++ acc) rest
    | none => none
  | _ => none

def decode? (cs : Bytes) : Option Bytes := decodeFrom? [] cs

end SoloMiner.Base64
