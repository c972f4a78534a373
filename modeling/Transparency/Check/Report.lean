import Transparency.Check.Evidence

/-!
# Reports

Who checks one connection after another keeps one report. Each check clears it and then fills it in
as it goes, the timestamp as soon as it is found good.
-/
namespace Transparency

structure Report where
  code : ResultCode := .noEvidenceFound
  origin : Origin := .unspecified
  outcomes : List SourceOutcome := []
  /-- Whether there is a good timestamp. -/
  verified : Bool := false
  /-- The good timestamp, or a blank one. -/
  sct : Sct := {}
deriving DecidableEq, Inhabited

namespace Report

def reset (_ : Report) : Report := {}

/-- Puts down the timestamp that a place was good for, if any. -/
def put (report : Report) : Option Sct → Report
  | some sct => { report with sct }
  | none => report

/-- Puts down the outcome of a place, which is the result until the next. -/
def add (report : Report) (outcome : SourceOutcome) : Report :=
  { report with
    code := outcome.code, origin := outcome.origin, outcomes := report.outcomes ++ [outcome] }

def accept (report : Report) : Report := { report with verified := true }

/-- Ends a check before any place is searched. -/
def abandon (report : Report) (code : ResultCode) : ResultCode × Report :=
  (code, { report with code })

end Report

namespace Checker

variable {σ : Type}

/-- Searches places in order and fills in the report with each. -/
def reportSources (c : Checker σ) (watched : Bool) (chain : List Bytes) (report : Report) :
    List (Origin × List Bytes) → Check σ (ResultCode × Report)
  | [] => do
    Check.tellLazily do
      return "No acceptable SCT: " ++ (← ResultCode.text report.code.toInt) ++ " from " ++
        (← report.origin.name)
    return (report.code, report)
  | (origin, scts) :: sources => do
    let (code, sct) ← c.checkSource watched origin chain scts
    let report := (report.put sct).add ⟨origin, code, scts.length⟩
    if code = .ok then
      let report := report.accept
      Check.tellLazily do
        return "Accepted SCT from " ++ (← origin.name) ++ ", log " ++ report.sct.logDescription
      return (.ok, report)
    else c.reportSources watched chain report sources

/-- Checks timestamps from all three places, in place of what `report` told before. -/
def reportEvidence (c : Checker σ) (watched : Bool) (chain tls embedded ocsp : List Bytes)
    (report : Report) : Check σ (ResultCode × Report) :=
  if chain.isEmpty then return report.reset.abandon .noPeerCertificates
  else
    c.reportSources watched chain report.reset
      [(.tlsExtension, tls), (.embedded, embedded), (.ocspResponse, ocsp)]

/-- Checks what a connection offers, in place of what `report` told before. -/
def reportState (c : Checker σ) (watched : Bool) (report : Report) :
    Option ConnectionState → Check σ (ResultCode × Report)
  | none => return report.reset.abandon .noConnectionState
  | some state =>
    match state.certificates with
    | [] => return report.reset.abandon .noPeerCertificates
    | certificate :: _ => do
      let embedded := c.codec.embeddedScts certificate
      match embedded with
      | .ok _ => pure ()
      | .error fault => Check.tellAll fault.messages
      c.reportEvidence watched state.certificates state.tlsScts (embedded.toOption.getD [])
        state.ocspScts report.reset

end Checker

end Transparency
