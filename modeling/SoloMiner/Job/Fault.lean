import SoloMiner.Cipher.Fault
import SoloMiner.Text.Quoted

/-! # Faults of job packets -/

namespace SoloMiner

/-- Why a job packet was refused. -/
inductive TemplateError where
  /-- The packet is not of the kind that starts with `expected`. -/
  | wrongLead (expected : String)
  | missingField (field : String)
  | invalidField (field value : String)
  | crypto (cause : CryptoError)
  deriving DecidableEq, Repr

def TemplateError.message : TemplateError → String
  | .wrongLead expected => s!"packet does not start with {expected}"
  | .missingField field => s!"missing field {field}"
  | .invalidField field value => s!"invalid value for {field}: " ++ Text.quoted value
  | .crypto cause => "key derivation failed: " ++ cause.message

end SoloMiner
