import Transparency.Certificate.Policies
import Transparency.Codec

/-!
# The codec for certificates in memory

Bodies are written from their values: with the shortest lengths, names byte for byte, and without
the list of extensions when that is empty. A copy is read from what is written of a certificate.
-/
namespace Transparency

namespace Certificate

/-- Reads a certificate. Inputs have fewer bytes than the limit of lengths. -/
def readBelow : Ber.Reader Certificate := fun bs =>
  if bs.length < Ber.lengthLimit then read bs else none

/-- The certificate as it is read again once it is written. There is none if, for instance, the
parameters of its algorithm are an empty value with the tag zero: that is written as an end. -/
def copy? (c : Certificate) : Option Certificate := (readBelow c.write).map (·.1)

def removeAt (c : Certificate) (i : Nat) : Certificate :=
  { c with body := { c.body with extensions := c.body.extensions.eraseIdx i } }

end Certificate

def Codec.standard : Codec where
  Object := Certificate
  read := Certificate.readBelow
  find? c id := c.body.extensions.findIdx? fun e => e.id = id
  value? c i := c.body.extensions[i]?.map (·.value)
  octets? := Ber.string .octetString
  copy? := Certificate.copy?
  remove? c i := if i < c.body.extensions.length then some (c.removeAt i) else none
  body? c := some c.body.write
  key? c := some c.body.key.write
  policies c := Policies.ofBody c.body
  dotted? := Oid.text?
  subject? c := some c.body.subject.attributes
  issuer? c := some c.body.issuer.attributes

end Transparency
