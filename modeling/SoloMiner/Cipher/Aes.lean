import SoloMiner.Cipher.Block

/-! # The AES block function

    FIPS 197, encryption direction only: both modes in use run the cipher forwards. The
    state is kept as four big-endian columns, and one table gives the effect of the
    substitution and the column mix on a byte in the top row. -/

namespace SoloMiner.Aes

/-! ## Tables -/

/-- The substitution box. -/
def substitution : Array UInt32 := #[
    0x63, 0x7c, 0x77, 0x7b, 0xf2, 0x6b, 0x6f, 0xc5, 0x30, 0x01, 0x67, 0x2b, 0xfe, 0xd7, 0xab, 0x76,
    0xca, 0x82, 0xc9, 0x7d, 0xfa, 0x59, 0x47, 0xf0, 0xad, 0xd4, 0xa2, 0xaf, 0x9c, 0xa4, 0x72, 0xc0,
    0xb7, 0xfd, 0x93, 0x26, 0x36, 0x3f, 0xf7, 0xcc, 0x34, 0xa5, 0xe5, 0xf1, 0x71, 0xd8, 0x31, 0x15,
    0x04, 0xc7, 0x23, 0xc3, 0x18, 0x96, 0x05, 0x9a, 0x07, 0x12, 0x80, 0xe2, 0xeb, 0x27, 0xb2, 0x75,
    0x09, 0x83, 0x2c, 0x1a, 0x1b, 0x6e, 0x5a, 0xa0, 0x52, 0x3b, 0xd6, 0xb3, 0x29, 0xe3, 0x2f, 0x84,
    0x53, 0xd1, 0x00, 0xed, 0x20, 0xfc, 0xb1, 0x5b, 0x6a, 0xcb, 0xbe, 0x39, 0x4a, 0x4c, 0x58, 0xcf,
    0xd0, 0xef, 0xaa, 0xfb, 0x43, 0x4d, 0x33, 0x85, 0x45, 0xf9, 0x02, 0x7f, 0x50, 0x3c, 0x9f, 0xa8,
    0x51, 0xa3, 0x40, 0x8f, 0x92, 0x9d, 0x38, 0xf5, 0xbc, 0xb6, 0xda, 0x21, 0x10, 0xff, 0xf3, 0xd2,
    0xcd, 0x0c, 0x13, 0xec, 0x5f, 0x97, 0x44, 0x17, 0xc4, 0xa7, 0x7e, 0x3d, 0x64, 0x5d, 0x19, 0x73,
    0x60, 0x81, 0x4f, 0xdc, 0x22, 0x2a, 0x90, 0x88, 0x46, 0xee, 0xb8, 0x14, 0xde, 0x5e, 0x0b, 0xdb,
    0xe0, 0x32, 0x3a, 0x0a, 0x49, 0x06, 0x24, 0x5c, 0xc2, 0xd3, 0xac, 0x62, 0x91, 0x95, 0xe4, 0x79,
    0xe7, 0xc8, 0x37, 0x6d, 0x8d, 0xd5, 0x4e, 0xa9, 0x6c, 0x56, 0xf4, 0xea, 0x65, 0x7a, 0xae, 0x08,
    0xba, 0x78, 0x25, 0x2e, 0x1c, 0xa6, 0xb4, 0xc6, 0xe8, 0xdd, 0x74, 0x1f, 0x4b, 0xbd, 0x8b, 0x8a,
    0x70, 0x3e, 0xb5, 0x66, 0x48, 0x03, 0xf6, 0x0e, 0x61, 0x35, 0x57, 0xb9, 0x86, 0xc1, 0x1d, 0x9e,
    0xe1, 0xf8, 0x98, 0x11, 0x69, 0xd9, 0x8e, 0x94, 0x9b, 0x1e, 0x87, 0xe9, 0xce, 0x55, 0x28, 0xdf,
    0x8c, 0xa1, 0x89, 0x0d, 0xbf, 0xe6, 0x42, 0x68, 0x41, 0x99, 0x2d, 0x0f, 0xb0, 0x54, 0xbb, 0x16]

/-- The substitute of a byte. -/
def substitute (x : UInt32) : UInt32 := substitution.getD x.toNat 0

/-- Multiplication by `x` in the field of 256 elements. -/
def double (s : UInt32) : UInt32 :=
  if s < 0x80 then s <<< 1 else (s <<< 1) ^^^ 0x11b

/-- The column that a substituted byte `s` of the top row contributes to the mix. -/
def mixColumn (s : UInt32) : UInt32 :=
  (double s <<< 24) ||| (s <<< 16) ||| (s <<< 8) ||| (double s ^^^ s)

/-- `mixColumn` of every substituted byte. -/
def mixTable : Array UInt32 := substitution.map mixColumn

/-- The mixed column of a byte of the top row before substitution. -/
def mixed (x : UInt32) : UInt32 := mixTable.getD x.toNat 0

/-! ## Words -/

def rotateRight (w : UInt32) (n : UInt32) : UInt32 := (w >>> n) ||| (w <<< (32 - n))

/-- Bytes of a word, most significant first. -/
def byte0 (w : UInt32) : UInt32 := w >>> 24
def byte1 (w : UInt32) : UInt32 := (w >>> 16) &&& 0xff
def byte2 (w : UInt32) : UInt32 := (w >>> 8) &&& 0xff
def byte3 (w : UInt32) : UInt32 := w &&& 0xff

def wordOf (a b c d : UInt8) : UInt32 :=
  (a.toUInt32 <<< 24) ||| (b.toUInt32 <<< 16) ||| (c.toUInt32 <<< 8) ||| d.toUInt32

/-- Substitutes each byte of a word. -/
def substituteWord (w : UInt32) : UInt32 :=
  (substitute (byte0 w) <<< 24) ||| (substitute (byte1 w) <<< 16) |||
    (substitute (byte2 w) <<< 8) ||| substitute (byte3 w)

/-! ## State -/

/-- The four columns of the state or of a round key. -/
structure Columns where
  (c0 c1 c2 c3 : UInt32)

namespace Columns

def ofBlock (b : Block) : Columns :=
  ⟨wordOf b.b0 b.b1 b.b2 b.b3, wordOf b.b4 b.b5 b.b6 b.b7,
    wordOf b.b8 b.b9 b.b10 b.b11, wordOf b.b12 b.b13 b.b14 b.b15⟩

def toBlock (s : Columns) : Block :=
  ⟨(byte0 s.c0).toUInt8, (byte1 s.c0).toUInt8, (byte2 s.c0).toUInt8, (byte3 s.c0).toUInt8,
    (byte0 s.c1).toUInt8, (byte1 s.c1).toUInt8, (byte2 s.c1).toUInt8, (byte3 s.c1).toUInt8,
    (byte0 s.c2).toUInt8, (byte1 s.c2).toUInt8, (byte2 s.c2).toUInt8, (byte3 s.c2).toUInt8,
    (byte0 s.c3).toUInt8, (byte1 s.c3).toUInt8, (byte2 s.c3).toUInt8, (byte3 s.c3).toUInt8⟩

def addKey (s k : Columns) : Columns :=
  ⟨s.c0 ^^^ k.c0, s.c1 ^^^ k.c1, s.c2 ^^^ k.c2, s.c3 ^^^ k.c3⟩

end Columns

/-- One column of a middle round: substitution, row shift and column mix at once. -/
def mixedColumn (p q r s : UInt32) : UInt32 :=
  mixed (byte0 p) ^^^ rotateRight (mixed (byte1 q)) 8 ^^^
    rotateRight (mixed (byte2 r)) 16 ^^^ rotateRight (mixed (byte3 s)) 24

/-- One column of the last round, which has no column mix. -/
def shiftedColumn (p q r s : UInt32) : UInt32 :=
  (substitute (byte0 p) <<< 24) ||| (substitute (byte1 q) <<< 16) |||
    (substitute (byte2 r) <<< 8) ||| substitute (byte3 s)

def middleRound (s k : Columns) : Columns :=
  Columns.addKey
    ⟨mixedColumn s.c0 s.c1 s.c2 s.c3, mixedColumn s.c1 s.c2 s.c3 s.c0,
      mixedColumn s.c2 s.c3 s.c0 s.c1, mixedColumn s.c3 s.c0 s.c1 s.c2⟩ k

def lastRound (s k : Columns) : Columns :=
  Columns.addKey
    ⟨shiftedColumn s.c0 s.c1 s.c2 s.c3, shiftedColumn s.c1 s.c2 s.c3 s.c0,
      shiftedColumn s.c2 s.c3 s.c0 s.c1, shiftedColumn s.c3 s.c0 s.c1 s.c2⟩ k

/-! ## Key schedule -/

/-- The words of a key, big-endian. -/
def keyWords : Bytes → List UInt32
  | a :: b :: c :: d :: rest => wordOf a b c d :: keyWords rest
  | _ => []

/-- Extends the schedule `w` of a key of `nk` words by `n` words; `rcon` is the next round
    constant. -/
def expand (nk : Nat) : Nat → UInt32 → Array UInt32 → Array UInt32
  | 0, _, w => w
  | n + 1, rcon, w =>
    let i := w.size
    let last := w.getD (i - 1) 0
    let back := w.getD (i - nk) 0
    if i % nk = 0 then
      expand nk n (double rcon)
        (w.push (back ^^^ substituteWord (rotateRight last 24) ^^^ (rcon <<< 24)))
    else if 6 < nk ∧ i % nk = 4 then
      expand nk n rcon (w.push (back ^^^ substituteWord last))
    else
      expand nk n rcon (w.push (back ^^^ last))

/-- Groups words into round keys. -/
def roundKeys : List UInt32 → List Columns
  | a :: b :: c :: d :: rest => ⟨a, b, c, d⟩ :: roundKeys rest
  | _ => []

/-- An expanded key: the round keys in order of use. -/
structure Schedule where
  first : Columns
  middle : List Columns
  last : Columns

/-- The schedule of a key of 16, 24 or 32 bytes. -/
def Schedule.ofKey (key : Bytes) : Schedule :=
  let words := keyWords key
  let nk := words.length
  let keys := roundKeys (expand nk (4 * (nk + 7) - nk) 1 words.toArray).toList
  match keys with
  | [] => ⟨⟨0, 0, 0, 0⟩, [], ⟨0, 0, 0, 0⟩⟩
  | k :: ks => ⟨k, ks.dropLast, ks.getLastD ⟨0, 0, 0, 0⟩⟩

/-- Encrypts one block. -/
def Schedule.encrypt (k : Schedule) (b : Block) : Block :=
  (lastRound (k.middle.foldl middleRound ((Columns.ofBlock b).addKey k.first)) k.last).toBlock

end SoloMiner.Aes
