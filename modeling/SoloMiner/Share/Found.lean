import SoloMiner.Share.Encoder
import SoloMiner.Share.Status

/-! # Winning shares -/

namespace SoloMiner

/-- A share whose hash is the indication of its job. It has all that the node asks for, and how
    it was found. -/
structure FoundShare where
  height : Int64
  jobType : JobType
  first : Int64
  operator : Operator
  second : Int64
  solution : Int64
  encryptedShare : String
  hash : String
  deriving DecidableEq, Repr

namespace FoundShare

/-- The share of a candidate that was encrypted as `out`. -/
def ofCandidate (job : JobTemplate) (jobType : JobType) (c : Candidate) (out : EncryptedShare) :
    FoundShare :=
  ⟨job.height, jobType, c.first, c.operator, c.second, c.solution, out.shareText, out.hashText⟩

/-- What a submission packet starts with. -/
def lead : String := "RECEIVE-JOB"

/-- The packet that submits the share. -/
def submission (s : FoundShare) (userAgent : String) : String :=
  let candidate : Candidate := ⟨s.first, s.operator, s.second, s.solution⟩
  String.intercalate "|" [lead, s.encryptedShare, Decimal.text s.solution.toInt,
    candidate.calculationText, s.hash, Decimal.text s.height.toInt, userAgent]

end FoundShare
end SoloMiner
