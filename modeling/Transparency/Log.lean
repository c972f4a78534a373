import Transparency.Key
import Transparency.Key.Rsa
import Transparency.Leaf
import Transparency.Merkle.Proof
import Transparency.TreeHead

/-!
# Logs

A log is known by the digest of its key. It vouches for entries and for the heads of its tree by
signatures with the algorithms of its key.
-/
namespace Transparency

/-- A log as a list of logs describes it. -/
structure Listing where
  key : Bytes := []
  description : String := ""
  url : String := ""
  mergeDelay : Span := .zero
  /-- The id that the list declares, if any. -/
  logId : Bytes := []
deriving DecidableEq, Inhabited

structure Log where
  id : Digest
  key : PublicKey
  hash : HashAlgorithm
  scheme : SignatureScheme
  description : String
  url : String
  /-- How long the log may take to add an entry to its tree. -/
  mergeDelay : Span
  hash_hashes : hash.hashes = true
deriving DecidableEq

namespace Log

instance : Inhabited Log where
  default :=
    { id := default, key := default, hash := .sha256, scheme := .rsa, description := "", url := "",
      mergeDelay := .zero, hash_hashes := by decide }

inductive Fault
  | mergeDelay
  | unreadableKey
  | unsupportedKey (kind : Nat)
  | shortKey (bits : Nat)
deriving DecidableEq

def Fault.message (description : String) : Fault → String
  | mergeDelay => s!"Log {description} has a non-positive MMD."
  | unreadableKey => s!"Log {description} has an unparseable key."
  | unsupportedKey kind => s!"Unsupported key type: {kind}"
  | shortKey bits => s!"RSA key of {bits} bits is too small."

/-- The fewest bits of an RSA key. -/
def leastBits : Nat := 2048

/-- What a log signs with its key, if it may have that key. -/
def schemeOf : PublicKey → Except Fault SignatureScheme
  | .rsa modulus _ =>
    if Rsa.bits modulus < leastBits then .error (.shortKey (Rsa.bits modulus)) else .ok .rsa
  | .elliptic _ _ => .ok .ecdsa
  | .other kind => .error (.unsupportedKey kind)

def create (suite : Suite) (l : Listing) : Except Fault Log :=
  if l.mergeDelay ≤ .zero then .error .mergeDelay
  else
    match suite.readKey l.key with
    | some (key, []) =>
      (schemeOf key).map fun scheme =>
        { id := suite.digest l.key, key, hash := .sha256, scheme, description := l.description,
          url := l.url, mergeDelay := l.mergeDelay, hash_hashes := by decide }
    | _ => .error .unreadableKey

/-! ## Signatures -/

/-- Why a log does not vouch for something. -/
inductive Rejection
  | otherLog
  | parameters (given : Signature)
  | longEntry
  | longExtensions
  | signature
  | emptyTreeRoot
deriving DecidableEq

def Rejection.message? (log : Log) : Rejection → Option String
  | otherLog => some "SCT is not signed by this log."
  | parameters given =>
    some <| "Mismatched hash or signature algorithm. Hash: " ++
      s!"{log.hash.code.toNat} vs {given.hash.code.toNat} Signature: " ++
      s!"{log.scheme.code.toNat} vs {given.scheme.code.toNat}."
  | longEntry => some "Unable to serialize entry."
  | longExtensions => some "Unable to create SCT to verify."
  | signature => none
  | emptyTreeRoot => some s!"Empty tree head from {log.description} has a non-empty root hash."

/-- Whether a signature is one by the log, whose hash algorithm must be a real one. -/
def signs (suite : Suite) (log : Log) (message signature : Bytes) : Except Halt Bool :=
  if log.hash.hashes then .ok (suite.verifies log.hash log.key message signature)
  else .error .unreachable

@[simp] theorem signs_eq_ok (suite : Suite) (log : Log) (message signature : Bytes) :
    log.signs suite message signature =
      .ok (suite.verifies log.hash log.key message signature) :=
  if_pos log.hash_hashes

/-- Whether the log has signed `entry` in `sct`. -/
def verifySct (suite : Suite) (log : Log) (entry : Entry) (sct : Sct) :
    Except Halt (Except Rejection Unit) := do
  if sct.logId ≠ log.id.bytes then return .error .otherLog
  if !sct.signature.hasParameters log.hash log.scheme then
    return .error (.parameters sct.signature)
  let encoded ← entry.encode
  if !encoded.complete then return .error .longEntry
  let signed ← Sct.signedData sct.timestamp encoded.bytes sct.extensions
  if !signed.complete then return .error .longExtensions
  if ← log.signs suite signed.bytes sct.signature.data then return .ok ()
  return .error .signature

/-- The root of the empty tree: the SHA-256 of nothing. -/
def emptyRoot : Bytes :=
  [0xe3, 0xb0, 0xc4, 0x42, 0x98, 0xfc, 0x1c, 0x14, 0x9a, 0xfb, 0xf4, 0xc8, 0x99, 0x6f, 0xb9, 0x24,
    0x27, 0xae, 0x41, 0xe4, 0x64, 0x9b, 0x93, 0x4c, 0xa4, 0x95, 0x99, 0x1b, 0x78, 0x52, 0xb8, 0x55]

/-- Whether the log has signed `head`, which must have the right root if the tree is empty. -/
def verifyHead (suite : Suite) (log : Log) (head : TreeHead) :
    Except Halt (Except Rejection Unit) := do
  if !head.signature.hasParameters log.hash log.scheme then
    return .error (.parameters head.signature)
  let signed ← head.signedData
  if !(← log.signs suite signed.bytes head.signature.data) then return .error .signature
  if head.treeSize = 0 && head.root.bytes ≠ emptyRoot then return .error .emptyTreeRoot
  return .ok ()

end Log

end Transparency
