import Transparency.Wire.Intake
import Transparency.Wire.Output

/-!
# Digitally signed elements

A signature stands on the wire with the two algorithms that made it.
-/
namespace Transparency

structure HashAlgorithm where
  code : UInt8
deriving DecidableEq, Inhabited

namespace HashAlgorithm

def none : HashAlgorithm := ⟨0⟩
def sha256 : HashAlgorithm := ⟨4⟩
def sha512 : HashAlgorithm := ⟨6⟩

/-- Whether the code names an algorithm or the absence of one. -/
def isNamed (h : HashAlgorithm) : Bool := h.code ≤ sha512.code

/-- Whether the code names an algorithm that hashes. -/
def hashes (h : HashAlgorithm) : Bool := h ≠ none && h.isNamed

end HashAlgorithm

structure SignatureScheme where
  code : UInt8
deriving DecidableEq, Inhabited

namespace SignatureScheme

def anonymous : SignatureScheme := ⟨0⟩
def rsa : SignatureScheme := ⟨1⟩
def dsa : SignatureScheme := ⟨2⟩
def ecdsa : SignatureScheme := ⟨3⟩

def isNamed (s : SignatureScheme) : Bool := s.code ≤ ecdsa.code

end SignatureScheme

structure Signature where
  hash : HashAlgorithm := .none
  scheme : SignatureScheme := .anonymous
  data : Bytes := []
deriving DecidableEq, Inhabited

namespace Signature

def hasParameters (s : Signature) (hash : HashAlgorithm) (scheme : SignatureScheme) : Bool :=
  s.hash = hash && s.scheme = scheme

def fields (s : Signature) : List Wire.Field :=
  [.uint 1 s.hash.code.toNat, .uint 1 s.scheme.code.toNat, .vector 2 s.data]

def encode (s : Signature) : Except Halt Wire.Encoding := Wire.write s.fields

def append (s : Signature) : Wire.Adding Bool := Wire.append s.fields

inductive Fault
  | truncated
  | unknownHash (h : HashAlgorithm)
  | unknownScheme (s : SignatureScheme)
deriving DecidableEq

def Fault.message? : Fault → Option String
  | truncated => .none
  | unknownHash h => some s!"Invalid hash algorithm {h.code.toNat}"
  | unknownScheme s => some s!"Invalid signature algorithm {s.code.toNat}"

/-- Reads the three fields, whatever the algorithms. -/
def readFields? (bs : Bytes) : Option (Signature × Bytes) := do
  let (hash, bs) ← Wire.uint? 1 bs
  let (scheme, bs) ← Wire.uint? 1 bs
  let (data, bs) ← Wire.vector? 2 bs
  return (⟨⟨.ofNat hash⟩, ⟨.ofNat scheme⟩, data⟩, bs)

def decode (bs : Bytes) : Except Fault (Signature × Bytes) :=
  match readFields? bs with
  | .none => .error .truncated
  | some (s, rest) =>
    if !s.hash.isNamed then .error (.unknownHash s.hash)
    else if !s.scheme.isNamed then .error (.unknownScheme s.scheme)
    else .ok (s, rest)

/-! ## In place -/

def take {α : Type} : Wire.Taking Fault α Signature := do
  let saved := (← get).rest
  Wire.Taking.restoring saved do
    let hash ← Wire.Taking.uint .truncated 1
    let scheme ← Wire.Taking.uint .truncated 1
    let data ← Wire.Taking.vector .truncated 2
    let s : Signature := ⟨⟨.ofNat hash⟩, ⟨.ofNat scheme⟩, data⟩
    unless s.hash.isNamed do throw (.unknownHash s.hash)
    unless s.scheme.isNamed do throw (.unknownScheme s.scheme)
    return s

/-- Reads an element over one that is there. -/
def receive : Wire.Taking Fault Signature Unit := take.fill

end Signature

end Transparency
