import Transparency.Codec

/-!
# Subjects

What a certificate says about its subject: policies in dotted form, and the texts of the attributes
of its names. Attributes without a text are skipped.
-/
namespace Transparency

structure SubjectInfo where
  policies : List String := []
  commonName : String := ""
  organizations : List String := []
  units : List String := []
  localities : List String := []
  provinces : List String := []
  postalCodes : List String := []
  issuerCommonName : String := ""
deriving DecidableEq, Inhabited

namespace SubjectInfo

/-- Why not all was learnt; `nameless` says that the subject or the issuer has no name. -/
inductive Fault
  | certificate (fault : Codec.Fault)
  | malformedPolicies
  | unprintablePolicy
  | nameless
deriving DecidableEq

def Fault.message? : Fault → Option String
  | certificate fault => fault.message?
  | malformedPolicies => some "Malformed certificatePolicies extension."
  | unprintablePolicy => some "Unprintable policy identifier."
  | nameless => none

/-- The outcome of reading: what was learnt, why no more, and the kinds of skipped attributes. -/
structure Reading where
  info : SubjectInfo := {}
  fault : Option Fault := none
  skipped : List String := []

def Reading.messages (r : Reading) : List String :=
  (r.fault.bind (·.message?)).toList ++
    r.skipped.map fun kind =>
      "Skipping " ++ kind ++ " attribute that is not convertible to UTF-8."

/-- The dotted form of an identifier, or nothing. -/
def dotted (codec : Codec) (id : Oid) : String := (codec.dotted? id).getD ""

/-- The texts before the first identifier without one, and whether there is none such. -/
def texts (codec : Codec) : List Oid → List String × Bool
  | [] => ([], true)
  | id :: ids =>
    if (dotted codec id).isEmpty then ([], false)
    else
      let (rest, all) := texts codec ids
      (dotted codec id :: rest, all)

/-- The texts of the attributes of a kind, missing where an attribute has none. -/
def values (name : List Attribute) (kind : Oid) : List (Option String) :=
  (name.filter fun a => a.kind = kind).map (·.text)

/-- Adds what the names say; of several common names the last one counts. -/
def addNames (info : SubjectInfo) (subject issuer : List Attribute) : SubjectInfo :=
  let texts := fun (name : List Attribute) kind => (values name kind).filterMap id
  { info with
    commonName := (texts subject .commonName).getLastD ""
    organizations := texts subject .organization
    units := texts subject .organizationalUnit
    localities := texts subject .locality
    provinces := texts subject .province
    postalCodes := texts subject .postalCode
    issuerCommonName := (texts issuer .commonName).getLastD "" }

/-- The kinds of the attributes without a text, in the order in which they are looked for. -/
def skipped (subject issuer : List Attribute) : List String :=
  [("CN", subject, Oid.commonName), ("O", subject, .organization),
    ("OU", subject, .organizationalUnit), ("L", subject, .locality), ("ST", subject, .province),
    ("postalCode", subject, .postalCode), ("CN", issuer, .commonName)].flatMap
    fun (kind, name, id) => ((values name id).filter (·.isNone)).map fun _ => kind

/-- Reads the names, once the policies are known. -/
def ofNames (codec : Codec) (c : codec.Object) (policies : List String) : Reading :=
  match codec.subject? c, codec.issuer? c with
  | some subject, some issuer =>
    { info := addNames { policies } subject issuer, skipped := skipped subject issuer }
  | _, _ => { info := { policies }, fault := some .nameless }

def ofObject (codec : Codec) (c : codec.Object) : Reading :=
  match codec.policies c with
  | .malformed => { fault := some .malformedPolicies }
  | .absent => ofNames codec c []
  | .policies ids =>
    match texts codec ids with
    | (policies, false) => { info := { policies }, fault := some .unprintablePolicy }
    | (policies, true) => ofNames codec c policies

def read (codec : Codec) (certificate : Bytes) : Reading :=
  match codec.decode certificate with
  | .error fault => { fault := some (.certificate fault) }
  | .ok c => ofObject codec c

end SubjectInfo

end Transparency
