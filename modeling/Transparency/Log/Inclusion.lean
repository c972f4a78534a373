import Transparency.Log

/-!
# Judging inclusion proofs

A proof counts if a head of the log's tree, signed no earlier than the timestamp, has a root to
which the audit path leads from the leaf.
-/
namespace Transparency.Log

inductive InclusionFault
  | otherLog
  | head (rejection : Rejection)
  | olderHead
  | otherSize
  | shape (fault : Merkle.Proof.Fault)
  | path
deriving DecidableEq

def InclusionFault.messages (log : Log) : InclusionFault → List String
  | otherLog => ["Tree head is not from log " ++ log.description]
  | head rejection =>
    (rejection.message? log).toList ++ ["Invalid tree head signature from " ++ log.description]
  | olderHead => ["Tree head predates the SCT."]
  | otherSize => ["Audit proof does not match the tree head."]
  | shape fault => fault.message?.toList ++ ["Audit proof does not match the tree head."]
  | path => ["Audit proof from " ++ log.description ++ " is invalid."]

/-- Judges a path once its head is known to be good. -/
def checkPath (suite : Suite) (head : TreeHead) (proof : Merkle.Proof) (leafHash : Digest) :
    Except InclusionFault Unit :=
  if proof.treeSize ≠ head.treeSize then .error .otherSize
  else
    match proof.checkShape with
    | .error fault => .error (.shape fault)
    | .ok () =>
      if proof.verifies suite.digest head.root.bytes leafHash.bytes then .ok () else .error .path

def checkInclusion (suite : Suite) (log : Log) (timestamp : Instant) (leafHash : Digest)
    (head : TreeHead) (proof : Merkle.Proof) : Except Halt (Except InclusionFault Unit) := do
  if head.logId ≠ log.id.bytes then return .error .otherLog
  match ← log.verifyHead suite head with
  | .error rejection => return .error (.head rejection)
  | .ok () =>
    if head.timestamp < timestamp then return .error .olderHead
    return checkPath suite head proof leafHash

end Transparency.Log
