import Transparency.Ber.Stream
import Transparency.Certificate.Reader
import Transparency.Digest.Sha256
import Transparency.Key
import Transparency.Key.Ecdsa
import Transparency.Key.Rsa

/-!
# Reading keys

The suite with SHA-256 and the signatures over it. Its keys on curves are on four named ones, each
with a point of the curve.
-/
namespace Transparency

namespace PublicKey

/-- Reads modulus and exponent, which are taken without a sign; what follows them is ignored. -/
def rsa? (bs : Bytes) : Option PublicKey :=
  (Ber.sequence (fun bs => do
    let (modulus, bs) ← Ber.primitive .integer bs
    let (exponent, bs) ← Ber.primitive .integer bs
    return (rsa (Bytes.toNat modulus) (Bytes.toNat exponent), bs)) bs).map (·.1)

def curves : List (Oid × Curve) :=
  [(.p256, .p256), (.p384, .p384), (.p521, .p521), (.secp256k1, .secp256k1)]

/-- The curve with the given parameters, which have to name one. -/
def curve? (parameters : Bytes) : Option Curve := do
  let (oid, _) ← Oid.read parameters
  let (_, curve) ← curves.find? fun named => named.1 = oid
  return curve

def elliptic? (parameters : Option AnyValue) (point : Bytes) : Option PublicKey := do
  let parameters := (parameters.map AnyValue.write).getD []
  let curve ← curve? parameters
  let _ ← curve.point? point
  return elliptic parameters point

/-- The types of keys that logs do not use: their numbers, and the lengths of those that have no
parameters. -/
def otherKinds : List (Oid × Nat × Option Nat) :=
  [(.rsaPss, 912, none), (.x25519, 1034, some 32), (.x448, 1035, some 56),
    (.ed25519, 1087, some 32), (.ed448, 1088, some 57)]

def other? (k : SubjectKey) : Option PublicKey := do
  let (_, number, length) ← otherKinds.find? fun kind => kind.1 = k.algorithm.id
  let formed := match length with
    | none => (rsa? k.key.bytes).isSome
    | some length => k.algorithm.parameters.isNone && k.key.bytes.length = length
  if formed then some (other number) else none

def ofSubjectKey? (k : SubjectKey) : Option PublicKey :=
  if k.algorithm.id = .rsaEncryption ∨ k.algorithm.id = .rsa then rsa? k.key.bytes
  else if k.algorithm.id = .ecPublicKey then elliptic? k.algorithm.parameters k.key.bytes
  else other? k

/-- Reads a key whose bytes make a stream. -/
def read : Ber.Reader PublicKey := fun bs => do
  let ((bytes, k), rest) ← Ber.withBytes SubjectKey.read bs
  if !Ber.isStreamed bytes then none
  return (← ofSubjectKey? k, rest)

def verifies (key : PublicKey) (d : Digest) (signature : Bytes) : Bool :=
  match key with
  | rsa modulus exponent => Rsa.verifies modulus exponent d signature
  | elliptic parameters point =>
    match curve? parameters with
    | none => false
    | some curve => (curve.point? point).any fun p => Ecdsa.verifies curve p d signature
  | other _ => false

end PublicKey

/-- SHA-256 and the signatures over it. -/
def Suite.standard : Suite where
  digest := Sha256.digest
  readKey := PublicKey.read
  verifies hash key message signature :=
    hash = .sha256 && key.verifies (Sha256.digest message) signature

end Transparency
