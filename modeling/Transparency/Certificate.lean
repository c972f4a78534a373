import Transparency.Certificate.Name

/-!
# Certificates

A certificate is a signed body. It is written with the bytes that are signed and the rest from its
values. A body by itself is written from its values: with the shortest lengths, names byte for byte,
and without the list of extensions when that is empty.
-/
namespace Transparency

structure Algorithm where
  id : Oid
  parameters : Option AnyValue
deriving DecidableEq, Inhabited

structure SubjectKey where
  algorithm : Algorithm
  key : BitString
deriving DecidableEq, Inhabited

/-- A time as it is written, under one of two tags. -/
structure Moment where
  tag : Ber.Tag
  contents : Bytes
deriving DecidableEq, Inhabited

structure Extension where
  id : Oid
  /-- The byte of the mark that makes an extension critical, if it is there. -/
  critical : Option UInt8
  value : Bytes
deriving DecidableEq, Inhabited

structure CertificateBody where
  version : Option Bytes
  serial : Bytes
  algorithm : Algorithm
  issuer : Name
  notBefore : Moment
  notAfter : Moment
  subject : Name
  key : SubjectKey
  issuerId : Option BitString
  subjectId : Option BitString
  extensions : List Extension
deriving DecidableEq, Inhabited

structure Certificate where
  body : CertificateBody
  /-- The bytes of the body as they are signed. -/
  signed : Bytes
  algorithm : Algorithm
  signature : BitString
deriving DecidableEq, Inhabited

/-! ## Writing -/

def Algorithm.write (a : Algorithm) : Bytes :=
  Der.sequence [a.id.write, (a.parameters.map AnyValue.write).getD []]

def SubjectKey.write (k : SubjectKey) : Bytes :=
  Der.sequence [k.algorithm.write, k.key.write .bitString]

def Moment.write (m : Moment) : Bytes := Der.primitive m.tag m.contents

def Extension.write (e : Extension) : Bytes :=
  Der.sequence [e.id.write, (e.critical.map fun b => Der.primitive .boolean [b]).getD [],
    Der.primitive .octetString e.value]

namespace CertificateBody

def writeVersion (version : Bytes) : Bytes :=
  Der.constructed (.context 0) [Der.primitive .integer version]

def writeExtensions (extensions : List Extension) : Bytes :=
  if extensions.isEmpty then []
  else Der.constructed (.context 3) [Der.sequence (extensions.map (·.write))]

/-- The body with what is written of its extensions. -/
def writeWith (b : CertificateBody) (extensions : Bytes) : Bytes :=
  Der.sequence [(b.version.map writeVersion).getD [], Der.primitive .integer b.serial,
    b.algorithm.write, b.issuer.bytes, Der.sequence [b.notBefore.write, b.notAfter.write],
    b.subject.bytes, b.key.write, (b.issuerId.map (·.write (.context 1))).getD [],
    (b.subjectId.map (·.write (.context 2))).getD [], extensions]

def write (b : CertificateBody) : Bytes := b.writeWith (writeExtensions b.extensions)

end CertificateBody

namespace Certificate

/-- The certificate whose body is written from its values. -/
def ofBody (body : CertificateBody) (algorithm : Algorithm) (signature : BitString) :
    Certificate where
  body := body
  signed := body.write
  algorithm := algorithm
  signature := signature

def write (c : Certificate) : Bytes :=
  Der.sequence [c.signed, c.algorithm.write, c.signature.write .bitString]

end Certificate

end Transparency
