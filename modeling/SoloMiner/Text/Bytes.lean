/-! # Byte strings and UTF-8 text

    Packets, keys and digests are lists of bytes. This file fixes that type and the two
    readings of bytes as text: the strict one, which refuses anything that is not UTF-8, and
    the lenient one, which shows every ill-formed stretch as the replacement character. -/

namespace SoloMiner

/-- A packet, key, digest or any other run of octets. -/
abbrev Bytes : Type := List UInt8

namespace Bytes

/-- The UTF-8 form of a text. -/
def ofString (s : String) : Bytes := s.toByteArray.data.toList

/-- The text whose UTF-8 form is `bs`, if there is one. -/
def text? (bs : Bytes) : Option String := String.fromUTF8? ⟨bs.toArray⟩

/-- The low `n` bytes of `v`, most significant first. -/
def bigEndian (n v : Nat) : Bytes :=
  (List.range n).map fun i => UInt8.ofNat (v >>> (8 * (n - 1 - i)))

/-! ## Lenient reading -/

/-- Is `b` a continuation byte? -/
def isContinuation (b : UInt8) : Bool := 0x80 ≤ b && b ≤ 0xBF

/-- Bounds of the byte that may follow the lead byte `b`. They exclude overlong forms,
    surrogates and code points above `0x10FFFF`. -/
def followBounds (b : UInt8) : UInt8 × UInt8 :=
  if b = 0xE0 then (0xA0, 0xBF)
  else if b = 0xED then (0x80, 0x9F)
  else if b = 0xF0 then (0x90, 0xBF)
  else if b = 0xF4 then (0x80, 0x8F)
  else (0x80, 0xBF)

/-- Number of bytes a sequence led by `b` has; `0` if no sequence starts with `b`. -/
def sequenceLength (b : UInt8) : Nat :=
  if b < 0x80 then 1
  else if 0xC2 ≤ b && b ≤ 0xDF then 2
  else if 0xE0 ≤ b && b ≤ 0xEF then 3
  else if 0xF0 ≤ b && b ≤ 0xF4 then 4
  else 0

/-- Length of the longest well-formed beginning of a sequence led by `b`, the lead included. -/
def wellFormedRun (b : UInt8) (rest : Bytes) : Nat :=
  match sequenceLength b with
  | 0 | 1 => 1
  | n + 1 =>
    match rest with
    | [] => 1
    | c :: more =>
      let (low, high) := followBounds b
      if low ≤ c && c ≤ high then 2 + ((more.take (n - 1)).takeWhile isContinuation).length
      else 1

/-- The code point of a complete sequence. -/
def codePoint (b : UInt8) (tail : Bytes) : Nat :=
  let lead := match tail.length with
    | 0 => b.toNat
    | 1 => b.toNat - 0xC0
    | 2 => b.toNat - 0xE0
    | _ => b.toNat - 0xF0
  tail.foldl (fun n c => n * 64 + (c.toNat - 0x80)) lead

/-- `textLossy` with the number of bytes left as fuel and the characters read so far, the
    latest first. -/
def lossyFrom : Nat → List Char → Bytes → List Char
  | 0, acc, _ => acc.reverse
  | _, acc, [] => acc.reverse
  | n + 1, acc, b :: rest =>
    let run := wellFormedRun b rest
    let c := if run = sequenceLength b then Char.ofNat (codePoint b (rest.take (run - 1)))
      else '\uFFFD'
    lossyFrom n (c :: acc) (rest.drop (run - 1))

/-- The text of `bs`, where each longest ill-formed stretch becomes one `U+FFFD`. -/
def textLossy (bs : Bytes) : String := String.ofList (lossyFrom bs.length [] bs)

/-- Does `bs` start with the UTF-8 form of `s`? The rest, if so. -/
def afterText? (s : String) (bs : Bytes) : Option Bytes := (ofString s).isPrefixOf? bs

end Bytes
end SoloMiner
