import Transparency.Digest
import Transparency.Signature

/-!
# Public keys

Logs sign with RSA or on an elliptic curve, always over SHA-256. Keys of other types are told apart
by the number of their type. Checks take from a suite what reads keys, computes digests and verifies
signatures, so a statement about them holds of every such suite.
-/
namespace Transparency

inductive PublicKey
  | rsa (modulus exponent : Nat)
  /-- A key on the curve that the parameters tell, both as they are written. -/
  | elliptic (parameters point : Bytes)
  /-- A key of a type that logs do not use, by the number of the type. -/
  | other (kind : Nat)
deriving DecidableEq, Inhabited

/-- The functions that checks rest on. -/
structure Suite where
  digest : Bytes → Digest
  /-- Reads a key off the front of its input. -/
  readKey : Bytes → Option (PublicKey × Bytes)
  /-- Whether a signature over a message, hashed with an algorithm, is one by a key. -/
  verifies : HashAlgorithm → PublicKey → (message signature : Bytes) → Bool

end Transparency
