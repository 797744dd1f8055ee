import SoloMiner.Cipher.Chaining
import SoloMiner.Job.Header

/-! # Block method packets

    The second half of a job: the parameters of the share cipher, as four fields separated by
    number signs. Further fields are ignored. -/

namespace SoloMiner

/-- How shares of a job are encrypted. -/
structure BlockMethod where
  /-- Number of encryption rounds less one. -/
  rounds : UInt32
  keySize : AesKeySize
  salt : Bytes
  xorKey : Bytes
  deriving DecidableEq, Repr

namespace BlockMethod

/-- What a method packet starts with. -/
def lead : String := "SEND-CONTENT-BLOCK-METHOD"

/-- Reads the four fields of a body. Of several that are wrong the first one is told. -/
def ofFields (round size salt xorKey : List Char) : Except TemplateError BlockMethod := do
  let rounds ← match Decimal.uint32? round with
    | some n => .ok n
    | none => BlockHeader.invalid "round" round
  let bits ← match Decimal.uint64? size with
    | some n => .ok n.toNat
    | none => BlockHeader.invalid "size" size
  let keySize ← (AesKeySize.ofBits bits).mapError .crypto
  if xorKey.isEmpty then
    BlockHeader.invalid "xor key" xorKey
  else
    pure {
      rounds, keySize
      salt := Bytes.ofString (String.ofList salt)
      xorKey := Bytes.ofString (String.ofList xorKey) }

/-- Reads a decrypted method packet. Blanks at its end are trimmed before it is cut into fields,
    and fields behind the fourth are not read. -/
def parse (packet : Bytes) : Except TemplateError BlockMethod := do
  let body ← BlockHeader.body? lead packet
  match Text.fields '#' (Text.trimEnd body) with
  | round :: size :: salt :: xorKey :: _ => ofFields round size salt xorKey
  | [_, _, _] => throw (.missingField "xor key")
  | [_, _] => throw (.missingField "salt")
  | _ => throw (.missingField "size")

end BlockMethod
end SoloMiner
