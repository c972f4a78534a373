import Transparency.Digest
import Transparency.Stored
import Transparency.Wire.Output

/-!
# Log entries

A log signs either a certificate or, for a precertificate, the body to be signed together with the
key of its issuer. An entry holds both; its kind selects what is signed.
-/
namespace Transparency

inductive EntryKind
  | certificate
  | precertificate
deriving DecidableEq, Inhabited

def EntryKind.code : EntryKind → Nat
  | certificate => 0
  | precertificate => 1

structure Entry where
  kind : EntryKind := .certificate
  certificate : Bytes := []
  issuerKeyHash : Digest := .zero
  body : Bytes := []
deriving DecidableEq, Inhabited

namespace Entry

/-- The fields that the kind selects. -/
def selected (e : Entry) : List Wire.Field :=
  match e.kind with
  | .certificate => [.vector 3 e.certificate]
  | .precertificate => [.fixed e.issuerKeyHash.bytes, .vector 3 e.body]

def fields (e : Entry) : List Wire.Field :=
  .uint 2 e.kind.code :: e.selected

def encode (e : Entry) : Except Halt Wire.Encoding := Wire.write e.fields

def append (e : Entry) : Wire.Adding Bool := Wire.append e.fields

/-- The entry of a certificate as it was presented. -/
def ofPresented? (certificate : Bytes) : Option Entry :=
  if certificate.isEmpty then none else some { certificate }

/-- Fills in the entry of a certificate as it was presented. -/
def fillPresented (certificate : Bytes) : Filling Unit Entry Unit := do
  if certificate.isEmpty then throw ()
  set ({} : Entry)
  modify fun e => { e with kind := .certificate, certificate }

end Entry

end Transparency
