import Transparency.Certificate.Evidence
import Transparency.Check.Single

/-!
# Checking the evidence of a connection

Timestamps come with the handshake, in the certificate or with the status response, and are tried
in that order until one is good. Otherwise the last reason is the result, even if it is that the
last place had none.
-/
namespace Transparency

structure ConnectionState where
  /-- The certificates of the peer, its own first and its issuer's next. -/
  certificates : List Bytes := []
  tlsScts : List Bytes := []
  ocspScts : List Bytes := []

/-- What came of the timestamps of one place. -/
structure SourceOutcome where
  origin : Origin := .unspecified
  code : ResultCode := .ok
  count : Nat := 0
deriving DecidableEq, Inhabited

structure CheckResult where
  code : ResultCode := .noEvidenceFound
  /-- The place that decided. -/
  origin : Origin := .unspecified
  /-- The places that were searched, in order. -/
  outcomes : List SourceOutcome := []
  /-- The timestamp that was good, if one was. -/
  verified : Option Sct := none
deriving DecidableEq, Inhabited

namespace Checker

variable {σ : Type}

/-- The leaf that the timestamps of a place cover, without a time. -/
def leafFor (c : Checker σ) (origin : Origin) (chain : List Bytes) :
    Except Halt (Except Leaf.Fault Leaf) :=
  match origin with
  | .embedded => .ok (Leaf.ofEmbedded c.codec c.suite.digest chain .epoch)
  | .tlsExtension | .ocspResponse =>
    .ok (Leaf.ofChain c.codec c.suite.digest chain .certificate .epoch)
  | .unspecified => .error .unreachable

theorem exists_leafFor (c : Checker σ) {origin : Origin} (place : origin ≠ .unspecified)
    (chain : List Bytes) : ∃ leaf, c.leafFor origin chain = .ok leaf := by
  cases origin with
  | unspecified => exact absurd rfl place
  | embedded | tlsExtension | ocspResponse => exact ⟨_, rfl⟩

/-- Tries timestamps in order; `last` is the result without any. -/
def checkEach (c : Checker σ) (watched : Bool) (origin : Origin) (leaf : Leaf)
    (last : ResultCode) : List Bytes → Check σ (ResultCode × Option Sct)
  | [] => return (last, none)
  | bytes :: scts => do
    match ← c.checkOne watched bytes leaf with
    | (.ok, sct) => return (.ok, sct.map fun sct => { sct with origin })
    | (code, _) =>
      Check.tellLazily do
        return "Rejected " ++ (← origin.name) ++ " SCT: " ++ (← ResultCode.text code.toInt)
      c.checkEach watched origin leaf code scts

theorem checkEach_cons (c : Checker σ) (watched : Bool) (origin : Origin) (leaf : Leaf)
    (last : ResultCode) (bytes : Bytes) (scts : List Bytes) :
    c.checkEach watched origin leaf last (bytes :: scts) = (do
      let (code, sct) ← c.checkOne watched bytes leaf
      if code = .ok then return (.ok, sct.map fun sct => { sct with origin })
      else
        Check.tellLazily do
          return "Rejected " ++ (← origin.name) ++ " SCT: " ++ (← ResultCode.text code.toInt)
        c.checkEach watched origin leaf code scts) := by
  refine congrArg (c.checkOne watched bytes leaf >>= ·) (funext fun (code, sct) => ?_)
  -- Only a code that is known to differ from `.ok` selects the branch that goes on.
  cases code <;> rfl

/-- Checks the timestamps of one place. -/
def checkSource (c : Checker σ) (watched : Bool) (origin : Origin) (chain : List Bytes)
    (scts : List Bytes) : Check σ (ResultCode × Option Sct) := do
  if scts.isEmpty then return (.noEvidenceFound, none)
  match ← Check.ofExcept (c.leafFor origin chain) with
  | .error fault =>
    Check.tellAll fault.messages
    Check.tellLazily do
      return "Unable to build the leaf for " ++ (← origin.name) ++ " SCTs."
    return (.chainBuildFailed, none)
  | .ok leaf => c.checkEach watched origin leaf .noEvidenceFound scts

/-- Searches places in order, after those of `result`. -/
def checkSources (c : Checker σ) (watched : Bool) (chain : List Bytes) (result : CheckResult) :
    List (Origin × List Bytes) → Check σ CheckResult
  | [] => do
    Check.tellLazily do
      return "No acceptable SCT: " ++ (← ResultCode.text result.code.toInt) ++ " from " ++
        (← result.origin.name)
    return result
  | (origin, scts) :: sources => do
    let (code, sct) ← c.checkSource watched origin chain scts
    let result : CheckResult :=
      { code, origin, outcomes := result.outcomes ++ [⟨origin, code, scts.length⟩] }
    if code = .ok then
      let description := (sct.map (·.logDescription)).getD ""
      Check.tellLazily do
        return "Accepted SCT from " ++ (← origin.name) ++ ", log " ++ description
      return { result with verified := sct }
    else c.checkSources watched chain result sources

/-- Checks timestamps from all three places against a chain of certificates. -/
def checkEvidence (c : Checker σ) (watched : Bool) (chain tls embedded ocsp : List Bytes) :
    Check σ CheckResult :=
  if chain.isEmpty then return { code := .noPeerCertificates }
  else
    c.checkSources watched chain {}
      [(.tlsExtension, tls), (.embedded, embedded), (.ocspResponse, ocsp)]

/-- Checks what a connection offers, if there is one. -/
def checkState (c : Checker σ) (watched : Bool) : Option ConnectionState → Check σ CheckResult
  | none => return { code := .noConnectionState }
  | some state =>
    match state.certificates with
    | [] => return { code := .noPeerCertificates }
    | certificate :: _ => do
      let embedded := c.codec.embeddedScts certificate
      match embedded with
      | .ok _ => pure ()
      | .error fault => Check.tellAll fault.messages
      c.checkEvidence watched state.certificates state.tlsScts (embedded.toOption.getD [])
        state.ocspScts

/-! ## Single timestamps -/

/-- Whether a timestamp from the handshake is good. -/
def verifiesTls (c : Checker σ) (chain : List Bytes) (sct : Bytes) : Check σ Bool := do
  return (← c.checkSource false .tlsExtension chain [sct]).1 = .ok

/-- Whether a timestamp from the status response is good. -/
def verifiesOcsp (c : Checker σ) (chain : List Bytes) (sct : Bytes) : Check σ Bool := do
  return (← c.checkSource false .ocspResponse chain [sct]).1 = .ok

/-- Whether a timestamp is good that should stand in the first certificate, which must carry some
list of timestamps. -/
def verifiesEmbedded (c : Checker σ) (chain : List Bytes) (sct : Bytes) : Check σ Bool :=
  match chain with
  | [] => return false
  | certificate :: _ => do
    match c.codec.embeddedScts certificate with
    | .error fault =>
      Check.tellAll fault.messages
      return false
    | .ok [] => return false
    | .ok _ => return (← c.checkSource false .embedded chain [sct]).1 = .ok

end Checker

end Transparency
