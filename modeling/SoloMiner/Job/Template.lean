import SoloMiner.Cipher.KeyStream
import SoloMiner.Job.EasyBlock
import SoloMiner.Job.Method

/-! # Job templates

    A header and a method together make a job: the keys of the share cipher are derived, and
    the easy values of the range are laid out. -/

namespace SoloMiner

/-- A search problem, complete: what to search for, in which range, and how a calculation becomes
    a share. -/
structure JobTemplate where
  height : Int64
  timestamp : Int64
  method : String
  /-- The digest a winning share must have. -/
  indication : String
  difficulty : Int64
  minRange : Int64
  maxRange : Int64
  xorKey : Bytes
  keySize : AesKeySize
  aesKey : Bytes
  aesIv : Bytes
  rounds : UInt32
  /-- The easy values of the range, ascending. -/
  easyValues : Array Int64
  deriving DecidableEq, Repr

namespace JobTemplate

/-- Puts both halves together. Key and initial register are read from one key stream. -/
def build (header : BlockHeader) (method : BlockMethod) : Except TemplateError JobTemplate := do
  let s ← (KeyStream.start header.password method.salt KeyStream.standardIterations).mapError .crypto
  let (key, s) := s.read method.keySize.keyLength
  let aesKey ← key.mapError .crypto
  let aesIv ← (s.read Block.size).1.mapError .crypto
  pure {
    height := header.height
    timestamp := header.timestamp
    method := header.method
    indication := header.indication
    difficulty := header.difficulty
    minRange := header.minRange
    maxRange := header.maxRange
    xorKey := method.xorKey
    keySize := method.keySize
    aesKey, aesIv
    rounds := method.rounds
    easyValues := (EasyBlock.values header.minRange header.maxRange).toArray }

/-! ## Easy values -/

/-- Looks for `v` in the ascending array `xs` between positions `low` and `high`. The part in
    which it can stand is halved at every step. -/
def searchFrom (xs : Array Int64) (v : Int64) (low high : Nat) : Bool :=
  if low < high then
    let mid := (low + high) / 2
    let x := xs.getD mid 0
    if x = v then true
    else if x < v then searchFrom xs v (mid + 1) high
    else searchFrom xs v low mid
  else false
termination_by high - low

/-- Is `v` an easy value? -/
def isEasyValue (job : JobTemplate) (v : Int64) : Bool :=
  searchFrom job.easyValues v 0 job.easyValues.size

/-- Are there as many easy values as integers in the range? -/
def easyValuesCoverRange (job : JobTemplate) : Bool :=
  decide (EasyBlock.rangeSize job.minRange job.maxRange ≤ job.easyValues.size)

/-- What a debug print shows: nothing of the keys. -/
def debugText (job : JobTemplate) : String :=
  s!"JobTemplate \x7b height: {Decimal.text job.height.toInt}, method: " ++
    Text.quoted job.method ++ s!", difficulty: {Decimal.text job.difficulty.toInt}, " ++
    s!"range: {Decimal.text job.minRange.toInt}..={Decimal.text job.maxRange.toInt}, " ++
    s!"aes_round: {Decimal.text job.rounds.toNat}, .. \x7d"

end JobTemplate
end SoloMiner
