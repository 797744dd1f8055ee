import SoloMiner.Text.Bytes

/-! # Verdicts on shares -/

namespace SoloMiner

/-- How a share was found: with two easy values, with one, or with none. Shares are tallied apart
    by this. -/
inductive JobType where
  | easy
  | semiRandom
  | random
  deriving DecidableEq, Repr

namespace JobType

def all : List JobType := [.easy, .semiRandom, .random]

def name : JobType → String
  | .easy => "Easy Block"
  | .semiRandom => "Semi Random"
  | .random => "Random"

end JobType

/-- The node's verdict on a share. -/
inductive ShareStatus where
  | accepted
  | invalid
  /-- Another miner was first. -/
  | orphan
  deriving DecidableEq, Repr

namespace ShareStatus

/-- What a verdict packet starts with. -/
def lead : String := "SEND-JOB-STATUS"

/-- The verdict a reply stands for, if it is one. The reply is searched for words, and the first
    kind of them that is found counts. -/
def ofReply? (reply : Bytes) : Option ShareStatus :=
  match reply.afterText? (lead ++ "|") with
  | none => none
  | some verdict =>
    if (verdict.afterText? "WRONG").isSome || (verdict.afterText? "NOTEXIST").isSome then
      some .invalid
    else if (verdict.afterText? "UNLOCK").isSome then some .accepted
    else if (verdict.afterText? "ALREADY").isSome then some .orphan
    else none

def isAccepted : ShareStatus → Bool
  | .accepted => true
  | _ => false

/-- Why a share did not count, in the user's words. -/
def reason? : ShareStatus → Option String
  | .accepted => none
  | .invalid => some "Invalid Share"
  | .orphan => some "Orphan Share"

end ShareStatus
end SoloMiner
