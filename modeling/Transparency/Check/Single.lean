import Transparency.Check.Trail
import Transparency.Codec
import Transparency.Log.Inclusion
import Transparency.Registry
import Transparency.Sct.Codec

/-!
# Checking one timestamp

A timestamp is good if a log of the registry signed the leaf it stands for, and either the leaf is
proved to be in the log's tree or the log may still be adding it.
-/
namespace Transparency

structure Config where
  /-- How long a provider may take. -/
  proofTimeout : Span := .ofSeconds 5
  /-- Whether times after the present are refused. -/
  rejectFuture : Bool := false
deriving DecidableEq, Inhabited

structure Checker (σ : Type) where
  suite : Suite
  codec : Codec
  registry : Registry
  config : Config
  surroundings : Surroundings σ

namespace Checker

variable {σ : Type}

/-- Judges what a provider answers. -/
def judgeReply (c : Checker σ) (log : Log) (sct : Sct) (leafHash : Digest)
    (reply : ProofReply) : Check σ Bool := do
  let failed := fun (how : String) => do
    Check.tell ("Inclusion proof from " ++ log.description ++ " " ++ how)
    return false
  match reply with
  | .unavailable => failed "unavailable"
  | .timedOut => failed "timed out"
  | .cancelled => failed "cancelled"
  | .available head proof =>
    match ← Check.ofExcept (log.checkInclusion c.suite sct.timestamp leafHash head proof) with
    | .ok () => return true
    | .error fault =>
      Check.tellAll (fault.messages log)
      return false

/-- Asks a provider for a proof and judges its answer. -/
def requestProof (c : Checker σ) (provider : Provider σ) (watched : Bool) (log : Log) (sct : Sct)
    (leafHash : Digest) : Check σ Bool := do
  let now ← Check.read c.surroundings.now
  let request : ProofRequest :=
    { logId := log.id.bytes, leafHash := leafHash.bytes, sctTimestamp := sct.timestamp,
      deadline := now + c.config.proofTimeout }
  c.judgeReply log sct leafHash (← Check.ask provider request watched)

/-- Whether a proof of inclusion could be had. None is asked for once the flag is set. -/
def proveInclusion (c : Checker σ) (watched : Bool) (log : Log) (sct : Sct) (leafHash : Digest) :
    Check σ Bool := do
  match c.surroundings.provider with
  | none => return false
  | some provider =>
    if ← Check.read (c.surroundings.flagged watched) then return false
    c.requestProof provider watched log sct leafHash

/-- Whether the log may still be adding the entry of a timestamp. -/
def isFresh (log : Log) (now : Instant) (sct : Sct) : Bool :=
  now.since sct.timestamp < log.mergeDelay

/-- Judges a signed timestamp by inclusion or by age. -/
def judge (c : Checker σ) (watched : Bool) (log : Log) (leaf : Leaf) (sct : Sct) :
    Check σ ResultCode := do
  let now ← Check.read c.surroundings.now
  if c.config.rejectFuture && now < sct.timestamp then
    Check.tell "SCT is from the future!"
    return .invalidTimestamp
  let leafHash? ← Check.ofExcept ((leaf.bind sct).hash? c.suite.digest)
  let included ← match leafHash? with
    | none => pure false
    | some leafHash => c.proveInclusion watched log sct leafHash
  if included || isFresh log now sct then return .ok
  Check.tell ("Inclusion unverifiable and SCT from " ++ log.description ++
    " is older than the maximum merge delay of " ++ log.mergeDelay.text)
  return .inclusionFailedStale

/-- Checks a timestamp whose log is known. -/
def checkKnown (c : Checker σ) (watched : Bool) (log : Log) (leaf : Leaf) (sct : Sct) :
    Check σ ResultCode := do
  match ← Check.ofExcept (log.verifySct c.suite leaf.entry sct) with
  | .error rejection =>
    Check.tellAll ((rejection.message? log).toList ++
      ["Unable to verify SCT signature of log " ++ log.description])
    return .signatureMismatch
  | .ok () => c.judge watched log leaf sct

/-- Checks a serialized timestamp against the leaf whose entry it should cover. The timestamp comes
with the result if it could be read, and with the name of its log if that is known. -/
def checkOne (c : Checker σ) (watched : Bool) (bytes : Bytes) (leaf : Leaf) :
    Check σ (ResultCode × Option Sct) := do
  match Sct.decodeWhole bytes with
  | .error fault =>
    Check.tellAll (fault.message?.toList ++ ["Unable to decode SCT."])
    return (.malformedSct, none)
  | .ok sct =>
    match c.registry.find? sct.logId with
    | none =>
      Check.tell ("SCT does not match any known log: " ++ Hex.text sct.logId)
      return (.unknownLog, some sct)
    | some log =>
      let sct := { sct with logDescription := log.description }
      return (← c.checkKnown watched log leaf sct, some sct)

end Checker

end Transparency
