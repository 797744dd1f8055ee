import SoloMiner.Text.Bytes

/-! # SHA3-512

    The 512-bit member of the SHA-3 family, FIPS 202. The 25 lanes of the permutation stand
    in one structure, lane `x + 5 y` for column `x` and row `y`. -/

namespace SoloMiner.Sha3

/-- The round constants. -/
def constants : List UInt64 := [
    0x0000000000000001, 0x0000000000008082, 0x800000000000808a, 0x8000000080008000,
    0x000000000000808b, 0x0000000080000001, 0x8000000080008081, 0x8000000000008009,
    0x000000000000008a, 0x0000000000000088, 0x0000000080008009, 0x000000008000000a,
    0x000000008000808b, 0x800000000000008b, 0x8000000000008089, 0x8000000000008003,
    0x8000000000008002, 0x8000000000000080, 0x000000000000800a, 0x800000008000000a,
    0x8000000080008081, 0x8000000000008080, 0x0000000080000001, 0x8000000080008008]

/-- The state of the permutation. -/
structure Lanes where
  (l0 l1 l2 l3 l4 : UInt64)
  (l5 l6 l7 l8 l9 : UInt64)
  (l10 l11 l12 l13 l14 : UInt64)
  (l15 l16 l17 l18 l19 : UInt64)
  (l20 l21 l22 l23 l24 : UInt64)

def Lanes.zero : Lanes :=
  ⟨0, 0, 0, 0, 0, 0, 0, 0, 0, 0, 0, 0, 0, 0, 0, 0, 0, 0, 0, 0, 0, 0, 0, 0, 0⟩

def rotateLeft (w n : UInt64) : UInt64 := (w <<< n) ||| (w >>> (64 - n))

/-! ## Permutation -/

/-- One round with its constant `k`. -/
def round (s : Lanes) (k : UInt64) : Lanes :=
  let c0 := s.l0 ^^^ s.l5 ^^^ s.l10 ^^^ s.l15 ^^^ s.l20
  let c1 := s.l1 ^^^ s.l6 ^^^ s.l11 ^^^ s.l16 ^^^ s.l21
  let c2 := s.l2 ^^^ s.l7 ^^^ s.l12 ^^^ s.l17 ^^^ s.l22
  let c3 := s.l3 ^^^ s.l8 ^^^ s.l13 ^^^ s.l18 ^^^ s.l23
  let c4 := s.l4 ^^^ s.l9 ^^^ s.l14 ^^^ s.l19 ^^^ s.l24
  let d0 := c4 ^^^ rotateLeft c1 1
  let d1 := c0 ^^^ rotateLeft c2 1
  let d2 := c1 ^^^ rotateLeft c3 1
  let d3 := c2 ^^^ rotateLeft c4 1
  let d4 := c3 ^^^ rotateLeft c0 1
  let b0 := s.l0 ^^^ d0
  let b1 := rotateLeft (s.l6 ^^^ d1) 44
  let b2 := rotateLeft (s.l12 ^^^ d2) 43
  let b3 := rotateLeft (s.l18 ^^^ d3) 21
  let b4 := rotateLeft (s.l24 ^^^ d4) 14
  let b5 := rotateLeft (s.l3 ^^^ d3) 28
  let b6 := rotateLeft (s.l9 ^^^ d4) 20
  let b7 := rotateLeft (s.l10 ^^^ d0) 3
  let b8 := rotateLeft (s.l16 ^^^ d1) 45
  let b9 := rotateLeft (s.l22 ^^^ d2) 61
  let b10 := rotateLeft (s.l1 ^^^ d1) 1
  let b11 := rotateLeft (s.l7 ^^^ d2) 6
  let b12 := rotateLeft (s.l13 ^^^ d3) 25
  let b13 := rotateLeft (s.l19 ^^^ d4) 8
  let b14 := rotateLeft (s.l20 ^^^ d0) 18
  let b15 := rotateLeft (s.l4 ^^^ d4) 27
  let b16 := rotateLeft (s.l5 ^^^ d0) 36
  let b17 := rotateLeft (s.l11 ^^^ d1) 10
  let b18 := rotateLeft (s.l17 ^^^ d2) 15
  let b19 := rotateLeft (s.l23 ^^^ d3) 56
  let b20 := rotateLeft (s.l2 ^^^ d2) 62
  let b21 := rotateLeft (s.l8 ^^^ d3) 55
  let b22 := rotateLeft (s.l14 ^^^ d4) 39
  let b23 := rotateLeft (s.l15 ^^^ d0) 41
  let b24 := rotateLeft (s.l21 ^^^ d1) 2
  ⟨b0 ^^^ ((~~~ b1) &&& b2) ^^^ k, b1 ^^^ ((~~~ b2) &&& b3),
    b2 ^^^ ((~~~ b3) &&& b4), b3 ^^^ ((~~~ b4) &&& b0),
    b4 ^^^ ((~~~ b0) &&& b1),
    b5 ^^^ ((~~~ b6) &&& b7), b6 ^^^ ((~~~ b7) &&& b8),
    b7 ^^^ ((~~~ b8) &&& b9), b8 ^^^ ((~~~ b9) &&& b5),
    b9 ^^^ ((~~~ b5) &&& b6),
    b10 ^^^ ((~~~ b11) &&& b12), b11 ^^^ ((~~~ b12) &&& b13),
    b12 ^^^ ((~~~ b13) &&& b14), b13 ^^^ ((~~~ b14) &&& b10),
    b14 ^^^ ((~~~ b10) &&& b11),
    b15 ^^^ ((~~~ b16) &&& b17), b16 ^^^ ((~~~ b17) &&& b18),
    b17 ^^^ ((~~~ b18) &&& b19), b18 ^^^ ((~~~ b19) &&& b15),
    b19 ^^^ ((~~~ b15) &&& b16),
    b20 ^^^ ((~~~ b21) &&& b22), b21 ^^^ ((~~~ b22) &&& b23),
    b22 ^^^ ((~~~ b23) &&& b24), b23 ^^^ ((~~~ b24) &&& b20),
    b24 ^^^ ((~~~ b20) &&& b21)⟩

def permute (s : Lanes) : Lanes := constants.foldl round s

/-! ## Sponge -/

/-- Bytes taken in between two permutations. -/
def rate : Nat := 72

/-- The message with the domain bits and the two ends of the padding rule. -/
def padded (message : Bytes) : Bytes :=
  let free := rate - message.length % rate
  if free = 1 then message ++ [0x86]
  else message ++ (0x06 :: List.replicate (free - 2) 0) ++ [0x80]

def lane (a b c d e f g h : UInt8) : UInt64 :=
  (h.toUInt64 <<< 56) ||| (g.toUInt64 <<< 48) ||| (f.toUInt64 <<< 40) ||| (e.toUInt64 <<< 32) |||
    (d.toUInt64 <<< 24) ||| (c.toUInt64 <<< 16) ||| (b.toUInt64 <<< 8) ||| a.toUInt64

/-- Adds a little-endian lane to the front of the rate and turns the nine lanes of the rate
    by one, so that nine calls add nine lanes in order. -/
def feedLane (s : Lanes) (w : UInt64) : Lanes :=
  { s with
    l0 := s.l1, l1 := s.l2, l2 := s.l3, l3 := s.l4, l4 := s.l5, l5 := s.l6, l6 := s.l7,
    l7 := s.l8, l8 := s.l0 ^^^ w }

/-- Adds the next `n` lanes of the message. -/
def feed : Nat → Bytes → Lanes → Lanes × Bytes
  | n + 1, a :: b :: c :: d :: e :: f :: g :: h :: rest, s =>
    feed n rest (feedLane s (lane a b c d e f g h))
  | _, rest, s => (s, rest)

/-- Takes in `n` blocks of the padded message. -/
def absorb : Nat → Bytes → Lanes → Lanes
  | 0, _, s => s
  | n + 1, bs, s =>
    let (fed, rest) := feed 9 bs s
    absorb n rest (permute fed)

def bytesOf (w : UInt64) : Bytes :=
  [w.toUInt8, (w >>> 8).toUInt8, (w >>> 16).toUInt8, (w >>> 24).toUInt8,
    (w >>> 32).toUInt8, (w >>> 40).toUInt8, (w >>> 48).toUInt8, (w >>> 56).toUInt8]

/-- The 64-byte digest of a message. -/
def digest (message : Bytes) : Bytes :=
  let bs := padded message
  let s := absorb (bs.length / rate) bs Lanes.zero
  [s.l0, s.l1, s.l2, s.l3, s.l4, s.l5, s.l6, s.l7].flatMap bytesOf

end SoloMiner.Sha3
