import Transparency.Validation.Policy
import Transparency.Validation.Subject

/-!
# Classification

Policies decide. Without a known one, two habits of authorities show that only a domain was
checked: a subject named after its domain, and a subject that says so itself.
-/
namespace Transparency.SubjectInfo

/-- Whether `part` stands somewhere in a text. -/
def occurs (part : List Char) : List Char → Bool
  | [] => part.isEmpty
  | c :: cs => part.isPrefixOf (c :: cs) || occurs part cs

/-- Whether the first organization is the common name itself. -/
def namedAfterDomain (info : SubjectInfo) : Bool :=
  info.organizations.head? = some info.commonName

/-- Whether the first unit tells how the domain was checked. -/
def unitTellsDomain (info : SubjectInfo) : Bool :=
  match info.units with
  | [] => false
  | unit :: _ => occurs "Domain Control Validated".toList unit.toList

def hasAddress (info : SubjectInfo) : Bool :=
  !(info.localities.isEmpty && info.provinces.isEmpty && info.postalCodes.isEmpty)

/-- Whether the subject is a person whom the issuer did not check. -/
def isUncheckedPerson (info : SubjectInfo) : Bool :=
  info.organizations.head? = some "Persona Not Validated" &&
    occurs "StartCom".toList info.issuerCommonName.toList

def level (info : SubjectInfo) : ValidationLevel :=
  match Policy.level info.policies with
  | .unknown =>
    if info.namedAfterDomain || info.unitTellsDomain then
      if info.hasAddress then .unknown else .domain
    else if info.isUncheckedPerson then .domain
    else .unknown
  | level => level

end Transparency.SubjectInfo
