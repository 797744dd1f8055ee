import SoloMiner.Text.Bytes

/-! # SHA-1

    The hash under the key derivation, FIPS 180-4. -/

namespace SoloMiner.Sha1

/-- Number of bytes in a digest. -/
def size : Nat := 20

/-- The chaining value. -/
structure Chain where
  (a b c d e : UInt32)

def Chain.start : Chain :=
  ⟨0x67452301, 0xefcdab89, 0x98badcfe, 0x10325476, 0xc3d2e1f0⟩

def rotateLeft (w n : UInt32) : UInt32 := (w <<< n) ||| (w >>> (32 - n))

/-! ## Compression -/

/-- Extends the message schedule by `n` words. -/
def expand : Nat → Array UInt32 → Array UInt32
  | 0, w => w
  | n + 1, w =>
    let t := w.size
    expand n (w.push (rotateLeft
      (w.getD (t - 3) 0 ^^^ w.getD (t - 8) 0 ^^^ w.getD (t - 14) 0 ^^^ w.getD (t - 16) 0) 1))

/-- The round function and additive constant of round `t`. -/
def mix (t : Nat) (b c d : UInt32) : UInt32 :=
  if t < 20 then ((b &&& c) ||| ((~~~ b) &&& d)) + 0x5a827999
  else if t < 40 then (b ^^^ c ^^^ d) + 0x6ed9eba1
  else if t < 60 then ((b &&& c) ||| (b &&& d) ||| (c &&& d)) + 0x8f1bbcdc
  else (b ^^^ c ^^^ d) + 0xca62c1d6

def rounds : Nat → List UInt32 → Chain → Chain
  | t, w :: ws, s =>
    rounds (t + 1) ws
      ⟨rotateLeft s.a 5 + mix t s.b s.c s.d + s.e + w, s.a, rotateLeft s.b 30, s.c, s.d⟩
  | _, [], s => s

/-- Folds a block of sixteen words into the chaining value. -/
def compress (s : Chain) (block : List UInt32) : Chain :=
  let t := rounds 0 (expand 64 block.toArray).toList s
  ⟨s.a + t.a, s.b + t.b, s.c + t.c, s.d + t.d, s.e + t.e⟩

/-! ## Message -/

/-- The message with its end mark, zeros and its length in bits. -/
def padded (message : Bytes) : Bytes :=
  let used := message.length + 1 + 8
  let zeros := (64 - used % 64) % 64
  message ++ (0x80 :: List.replicate zeros 0) ++ Bytes.bigEndian 8 (8 * message.length)

def word (a b c d : UInt8) : UInt32 :=
  (a.toUInt32 <<< 24) ||| (b.toUInt32 <<< 16) ||| (c.toUInt32 <<< 8) ||| d.toUInt32

/-- Reads `n` big-endian words. -/
def takeWords : Nat → List UInt32 → Bytes → List UInt32 × Bytes
  | n + 1, acc, a :: b :: c :: d :: rest => takeWords n (word a b c d :: acc) rest
  | _, acc, rest => (acc.reverse, rest)

/-- Folds `n` blocks of the padded message into the chaining value. -/
def absorb : Nat → Bytes → Chain → Chain
  | 0, _, s => s
  | n + 1, bs, s =>
    let (block, rest) := takeWords 16 [] bs
    absorb n rest (compress s block)

def bytesOf (w : UInt32) : Bytes :=
  [(w >>> 24).toUInt8, (w >>> 16).toUInt8, (w >>> 8).toUInt8, w.toUInt8]

/-- The 20-byte digest of a message. -/
def digest (message : Bytes) : Bytes :=
  let bs := padded message
  let s := absorb (bs.length / 64) bs Chain.start
  [s.a, s.b, s.c, s.d, s.e].flatMap bytesOf

end SoloMiner.Sha1
