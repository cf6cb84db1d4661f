import FieldExtract.DecodeError
import FieldExtract.Range
import FieldExtract.Settings

/-!
# Failures of client calls
-/

namespace FieldExtract

inductive ClientError
  | invalidRange (e : RangeError)
  | engine (e : EngineError)
  | decode (e : DecodeError)
  | emptyBatch
  | countMismatch (expected yielded : Nat)
  | settings (e : SettingsError)
deriving DecidableEq

def ClientError.message : ClientError → String
  | .invalidRange e => "invalid range: " ++ e.message
  | .engine e => e.message
  | .decode e => "decode failed: " ++ e.message
  | .emptyBatch => "extraction batch must contain at least one request"
  | .countMismatch expected yielded =>
    "engine yielded " ++ toString yielded ++ " results for " ++ toString expected ++ " requests"
  | .settings e => "config: " ++ e.message

end FieldExtract
