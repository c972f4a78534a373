import Transparency.Certificate

/-!
# Reading certificates

Only the shape is checked: neither the version, the times, the signature, the key nor what the
extensions hold.
-/
namespace Transparency

def Algorithm.read : Ber.Reader Algorithm :=
  Ber.sequence fun bs => do
    let (id, bs) ← Oid.read bs
    let (parameters, bs) ← AnyValue.readOptional bs
    return (⟨id, parameters⟩, bs)

/-- Reads a key of any algorithm that has a text. -/
def SubjectKey.read : Ber.Reader SubjectKey :=
  Ber.sequence fun bs => do
    let (algorithm, bs) ← Algorithm.read bs
    let (key, bs) ← BitString.read .bitString bs
    if algorithm.id.text?.isSome then some (⟨algorithm, key⟩, bs) else none

def Moment.read : Ber.Reader Moment := fun bs => do
  let (h, inner) ← Ber.readHeader? bs
  if h.tag = .utcTime ∨ h.tag = .generalizedTime then
    (Ber.stringContents h inner).map fun (contents, rest) => (⟨h.tag, contents⟩, rest)
  else none

def Extension.read : Ber.Reader Extension :=
  Ber.sequence fun bs => do
    let (id, bs) ← Oid.read bs
    let (critical, bs) ← Ber.optional .boolean Ber.boolean bs
    let (value, bs) ← Ber.string .octetString bs
    return (⟨id, critical, value⟩, bs)

def CertificateBody.read : Ber.Reader CertificateBody :=
  Ber.sequence fun bs => do
    let (version, bs) ← Ber.optional (.context 0) (Ber.constructed (.context 0) Ber.integer) bs
    let (serial, bs) ← Ber.integer bs
    let (algorithm, bs) ← Algorithm.read bs
    let (issuer, bs) ← Name.read bs
    let ((notBefore, notAfter), bs) ← Ber.sequence (fun bs => do
      let (notBefore, bs) ← Moment.read bs
      let (notAfter, bs) ← Moment.read bs
      return ((notBefore, notAfter), bs)) bs
    let (subject, bs) ← Name.read bs
    let (key, bs) ← SubjectKey.read bs
    let (issuerId, bs) ← Ber.optional (.context 1) (BitString.read (.context 1)) bs
    let (subjectId, bs) ← Ber.optional (.context 2) (BitString.read (.context 2)) bs
    let (extensions, bs) ← Ber.optional (.context 3)
      (Ber.constructed (.context 3) (Ber.listOf .sequence Extension.read)) bs
    let extensions := extensions.getD []
    return ({ version, serial, algorithm, issuer, notBefore, notAfter, subject, key, issuerId,
              subjectId, extensions }, bs)

namespace Certificate

def read : Ber.Reader Certificate :=
  Ber.sequence fun bs => do
    let ((signed, body), bs) ← Ber.withBytes CertificateBody.read bs
    let (algorithm, bs) ← Algorithm.read bs
    let (signature, bs) ← BitString.read .bitString bs
    return ({ body, signed, algorithm, signature }, bs)

end Certificate

end Transparency
