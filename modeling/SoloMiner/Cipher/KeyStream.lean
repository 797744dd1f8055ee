import SoloMiner.Cipher.Fault
import SoloMiner.Digest.Sha1
import SoloMiner.Text.Decimal

/-! # Key stream

    Keys are read from a stream derived from a password and a salt. A base value is the
    salted password hashed over and over; block `k` of the stream is the hash of the base
    with the numeral of `k` in front, block `0` having none.

    Blocks are made in groups, as many as a read needs. Bytes of the last group that a read
    leaves over serve the next read. A read that needs more than the `l` bytes left over
    takes `l` bytes from offset `l` of that group, wherever the unread bytes stand, and the
    rest from new blocks. -/

namespace SoloMiner

/-- A position in the stream. It is made in numbered blocks, and a read that ends inside one
    keeps the group of blocks that it began in. -/
structure KeyStream where
  /-- The value all blocks are made from. -/
  base : Bytes
  /-- The last group of blocks, or nothing when all of it was read. -/
  group : Bytes
  /-- How many bytes at the front of `group` were read. -/
  used : Nat
  /-- Number of the next block. -/
  next : Nat
  deriving DecidableEq, Repr

namespace KeyStream

/-- Iterations used throughout the protocol. -/
def standardIterations : Nat := 100

/-- The largest block number. -/
def lastBlock : Nat := 999

/-- `Sha1.digest` applied `n` times. -/
def rehash : Nat → Bytes → Bytes
  | 0, bs => bs
  | n + 1, bs => rehash n (Sha1.digest bs)

/-- The base value: the first hash covers password and salt, and the last iteration is left
    to the blocks. -/
def baseOf (password salt : Bytes) (iterations : Nat) : Bytes :=
  rehash (max 1 (iterations - 1)) (password ++ salt)

/-- The stream at its start. -/
def start (password salt : Bytes) (iterations : Nat) : Except CryptoError KeyStream :=
  if password.isEmpty then .error .emptyPassword
  else if iterations = 0 then .error .noIterations
  else .ok ⟨baseOf password salt iterations, [], 0, 0⟩

/-- The numeral in front of the base in block `k`. -/
def numeral (k : Nat) : Bytes :=
  if k = 0 then [] else Bytes.ofString (String.ofList (Decimal.ofNat k))

/-- Block `k` of the stream. -/
def block (base : Bytes) (k : Nat) : Bytes := Sha1.digest (numeral k ++ base)

/-- The bytes of `n` blocks from number `k` on. -/
def blocks (base : Bytes) (k n : Nat) : Bytes := (List.range' k n).flatMap (block base)

/-- Number of blocks that hold `needed` bytes. -/
def blockCount (needed : Nat) : Nat := (needed + Sha1.size - 1) / Sha1.size

/-- Reads `needed` bytes from new blocks, behind the bytes `taken` from the last group. A read
    that would go past the last block uses up the stream. -/
def readNew (s : KeyStream) (taken : Bytes) (needed : Nat) : Except CryptoError Bytes × KeyStream :=
  let n := blockCount needed
  if lastBlock + 1 < s.next + n then
    (.error .exhausted, { s with group := [], used := 0, next := lastBlock + 1 })
  else
    let made := blocks s.base s.next n
    let after : KeyStream :=
      if needed < made.length then { s with group := made, used := needed, next := s.next + n }
      else { s with group := [], used := 0, next := s.next + n }
    (.ok (taken ++ made.take needed), after)

/-- Number of bytes of the last group not read yet. -/
def leftover (s : KeyStream) : Nat := s.group.length - s.used

/-- Reads `count` bytes. A read that goes beyond the bytes kept takes those first, but from an
    offset that is their number and not from where the last read ended. -/
def read (s : KeyStream) (count : Nat) : Except CryptoError Bytes × KeyStream :=
  let left := s.leftover
  if count = 0 then (.ok [], s)
  else if s.group.isEmpty then s.readNew [] count
  else if count < left then
    (.ok ((s.group.drop s.used).take count), { s with used := s.used + count })
  else if count = left then
    (.ok ((s.group.drop s.used).take count), { s with group := [], used := 0 })
  else if s.group.length < 2 * left then (.error .leftoverOverrun, s)
  else s.readNew ((s.group.drop left).take left) (count - left)

end KeyStream
end SoloMiner
