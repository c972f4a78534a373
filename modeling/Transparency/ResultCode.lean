import Transparency.Journal

/-!
# Result codes

Failures have negative numbers. Those about the evidence of a connection form one interval.
-/
namespace Transparency

inductive ResultCode
  | ok
  | noConnectionState
  | noPeerCertificates
  | chainBuildFailed
  | noEvidenceFound
  | malformedSct
  | unknownLog
  | signatureMismatch
  | inclusionFailedStale
  | invalidTimestamp
  | invalidLogList
deriving DecidableEq, Repr

namespace ResultCode

def toInt : ResultCode → Int
  | ok => 0
  | noConnectionState => -1
  | noPeerCertificates => -2
  | chainBuildFailed => -100
  | noEvidenceFound => -101
  | malformedSct => -102
  | unknownLog => -103
  | signatureMismatch => -104
  | inclusionFailedStale => -105
  | invalidTimestamp => -106
  | invalidLogList => -200

def ofInt? (n : Int) : Option ResultCode :=
  [ok, noConnectionState, noPeerCertificates, chainBuildFailed, noEvidenceFound, malformedSct,
    unknownLog, signatureMismatch, inclusionFailedStale, invalidTimestamp, invalidLogList].find?
    fun c => c.toInt = n

@[simp] theorem ofInt?_toInt (c : ResultCode) : ofInt? c.toInt = some c := by
  cases c <;> rfl

def name : ResultCode → String
  | ok => "OK"
  | noConnectionState => "ERR_NO_CONNECTION_STATE"
  | noPeerCertificates => "ERR_NO_PEER_CERTIFICATES"
  | chainBuildFailed => "ERR_CT_CHAIN_BUILD_FAILED"
  | noEvidenceFound => "ERR_CT_NO_EVIDENCE_FOUND"
  | malformedSct => "ERR_CT_MALFORMED_SCT"
  | unknownLog => "ERR_CT_UNKNOWN_LOG"
  | signatureMismatch => "ERR_CT_SIGNATURE_MISMATCH"
  | inclusionFailedStale => "ERR_CT_INCLUSION_FAILED_STALE"
  | invalidTimestamp => "ERR_CT_INVALID_TIMESTAMP"
  | invalidLogList => "ERR_CT_INVALID_LOG_LIST"

def domain : String := "ctcheck"

/-- The name of the code `n`, which must be one of those above. -/
def shortText (n : Int) : Except Halt String :=
  match ofInt? n with
  | some c => .ok c.name
  | none => .error .unreachable

/-- `shortText` with the domain before it. -/
def text (n : Int) : Except Halt String :=
  (shortText n).map fun name => domain ++ "::" ++ name

/-- Whether a number lies in the interval of failures about evidence. -/
def isEvidenceFailure (n : Int) : Bool :=
  chainBuildFailed.toInt ≥ n && n ≥ invalidTimestamp.toInt

end ResultCode

end Transparency
