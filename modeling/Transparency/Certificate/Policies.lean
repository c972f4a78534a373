import Transparency.Certificate.Reader

/-!
# Certificate policies

The extension for policies holds a list of identifiers, each with qualifiers. Qualifiers are checked
but not kept, and nothing is asked of what follows the list.
-/
namespace Transparency.Policies

/-- The tags of text that is meant to be shown. -/
def displayTags : List Ber.Tag := [.ia5String, .visibleString, .bmpString, .utf8String]

def skipDisplayText : Ber.Reader Unit := fun bs => do
  let (h, inner) ← Ber.readHeader? bs
  if displayTags.contains h.tag then
    let (contents, rest) ← Ber.stringContents h inner
    (AnyValue.contents? h.tag contents).map fun _ => ((), rest)
  else none

/-- A text and the numbers of the notices that an organization has prepared. -/
def skipNoticeReference : Ber.Reader Unit :=
  Ber.sequence fun bs => do
    let (_, bs) ← skipDisplayText bs
    let (_, bs) ← Ber.listOf .sequence Ber.integer bs
    return ((), bs)

def skipNotice : Ber.Reader Unit :=
  Ber.sequence fun bs => do
    let (_, bs) ← Ber.optional .sequence skipNoticeReference bs
    if Ber.atEnd bs then some ((), bs) else skipDisplayText bs

def skipQualifier : Ber.Reader Unit :=
  Ber.sequence fun bs => do
    let (id, bs) ← Oid.read bs
    if id = .practiceStatement then (Ber.string .ia5String bs).map fun (_, rest) => ((), rest)
    else if id = .userNotice then skipNotice bs
    else (AnyValue.read bs).map fun (_, rest) => ((), rest)

def readPolicy : Ber.Reader Oid :=
  Ber.sequence fun bs => do
    let (id, bs) ← Oid.read bs
    let (_, bs) ← Ber.optional .sequence (Ber.listOf .sequence skipQualifier) bs
    return (id, bs)

def read : Ber.Reader (List Oid) := Ber.listOf .sequence readPolicy

/-- The policies of a body. There must not be two extensions for them. -/
def ofBody (body : CertificateBody) : PolicyList :=
  match body.extensions.filter fun e => e.id = .certificatePolicies with
  | [] => .absent
  | [e] =>
    match read e.value with
    | some (ids, _) => .policies ids
    | none => .malformed
  | _ => .malformed

end Transparency.Policies
