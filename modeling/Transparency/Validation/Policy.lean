/-!
# Policies and validation levels

Certificate authorities name the validation that they did by policy identifiers, in dotted form.
The level of several policies is the highest among them.
-/
namespace Transparency

/-- How much was checked about the subject of a certificate. -/
inductive ValidationLevel
  | unknown
  | domain
  | organization
  | extended
deriving DecidableEq, Inhabited, Repr

namespace ValidationLevel

def rank : ValidationLevel → Nat
  | unknown => 0
  | domain => 1
  | organization => 2
  | extended => 3

def ofRank? (n : Nat) : Option ValidationLevel :=
  [unknown, domain, organization, extended].find? fun l => l.rank = n

def name : ValidationLevel → String
  | unknown => "unknown"
  | domain => "DV"
  | organization => "OV"
  | extended => "EV"

/-- The higher of two levels. -/
def max (a b : ValidationLevel) : ValidationLevel := if a.rank < b.rank then b else a

end ValidationLevel

namespace Policy

def extendedPolicies : List String :=
  ["2.23.140.1.1", "2.23.140.1.3", "2.23.140.1.31", "1.3.6.1.4.1.17326.10.14.2.1.2",
  "1.3.6.1.4.1.17326.10.14.2.2.2", "1.3.6.1.4.1.17326.10.8.12.1.2", "1.3.6.1.4.1.17326.10.8.12.2.2",
  "1.3.159.1.17.1", "1.3.6.1.4.1.34697.2.1", "1.3.6.1.4.1.34697.2.2", "1.3.6.1.4.1.34697.2.3",
  "1.3.6.1.4.1.34697.2.4", "1.3.6.1.4.1.13177.10.1.3.10", "2.16.578.1.26.1.3.3",
  "1.3.6.1.4.1.36305.2", "1.3.6.1.4.1.22234.2.5.2.3.1", "1.2.616.1.113527.2.5.1.1",
  "1.3.6.1.4.1.29836.1.10", "1.3.6.1.4.1.6449.1.2.1.5.1", "1.3.6.1.4.1.6334.1.100.1",
  "2.16.840.1.114412.2.1", "1.3.6.1.4.1.4788.2.202.1", "2.16.840.1.114028.10.1.2",
  "2.16.792.3.0.4.1.1.4", "1.3.6.1.4.1.14370.1.6", "1.3.6.1.4.1.4146.1.1",
  "2.16.840.1.114413.1.7.23.3", "1.3.6.1.4.1.14777.6.1.1", "1.3.6.1.4.1.14777.6.1.2",
  "1.3.6.1.4.1.782.1.2.1.8.1", "1.3.6.1.4.1.8024.0.2.100.1.2", "2.16.840.1.114404.1.1.2.4.1",
  "1.2.392.200091.100.721.1", "2.16.528.1.1003.1.2.7", "1.3.6.1.4.1.23223.1.1.1",
  "2.16.840.1.114414.1.7.23.3", "2.16.840.1.114414.1.7.24.3", "2.16.756.1.89.1.2.1.1",
  "2.16.756.1.83.21.0", "2.16.840.1.113733.1.7.48.1", "1.3.6.1.4.1.40869.1.1.22.3",
  "1.3.6.1.4.1.7879.13.24.1", "2.16.840.1.113733.1.7.23.6", "2.16.840.1.114171.500.9",
  "2.16.156.112554.3", "2.16.756.5.14.7.4.8", "2.16.792.3.0.3.1.1.5"]

def organizationPolicies : List String :=
  ["2.23.140.1.2.2", "2.23.140.1.2.3", "2.16.840.1.114412.1.1", "1.3.6.1.4.1.4788.2.200.1",
  "2.16.840.1.114413.1.7.23.2", "2.16.528.1.1003.1.2.5.6", "1.3.6.1.4.1.8024.0.2.100.1.1",
  "2.16.840.1.114414.1.7.23.2", "2.16.792.3.0.3.1.1.2"]

def domainPolicies : List String :=
  ["1.3.6.1.4.1.4146.1.10.10", "1.3.6.1.4.1.44947.1.1.1", "1.3.6.1.4.1.6449.1.2.2.10",
  "1.3.6.1.4.1.6449.1.2.2.15", "1.3.6.1.4.1.6449.1.2.2.16", "1.3.6.1.4.1.6449.1.2.2.17",
  "1.3.6.1.4.1.6449.1.2.2.18", "1.3.6.1.4.1.6449.1.2.2.19", "1.3.6.1.4.1.6449.1.2.2.21",
  "1.3.6.1.4.1.6449.1.2.2.22", "1.3.6.1.4.1.6449.1.2.2.24", "1.3.6.1.4.1.6449.1.2.2.25",
  "1.3.6.1.4.1.6449.1.2.2.26", "1.3.6.1.4.1.6449.1.2.2.27", "1.3.6.1.4.1.6449.1.2.2.28",
  "1.3.6.1.4.1.6449.1.2.2.29", "1.3.6.1.4.1.6449.1.2.2.31", "1.3.6.1.4.1.6449.1.2.2.35",
  "1.3.6.1.4.1.6449.1.2.2.37", "1.3.6.1.4.1.6449.1.2.2.38", "1.3.6.1.4.1.6449.1.2.2.39",
  "1.3.6.1.4.1.6449.1.2.2.40", "1.3.6.1.4.1.6449.1.2.2.41", "1.3.6.1.4.1.6449.1.2.2.42",
  "1.3.6.1.4.1.6449.1.2.2.44", "1.3.6.1.4.1.6449.1.2.2.45", "1.3.6.1.4.1.6449.1.2.2.47",
  "1.3.6.1.4.1.6449.1.2.2.49", "1.3.6.1.4.1.6449.1.2.2.50", "1.3.6.1.4.1.6449.1.2.2.51",
  "1.3.6.1.4.1.6449.1.2.2.52", "1.3.6.1.4.1.6449.1.2.2.53", "1.3.6.1.4.1.6449.1.2.2.54",
  "1.3.6.1.4.1.6449.1.2.2.7", "1.3.6.1.4.1.6449.1.2.2.8", "2.16.840.1.114412.1.2",
  "2.16.840.1.114413.1.7.23.1", "2.16.840.1.114414.1.7.23.1", "2.23.140.1.2.1"]

def isExtended (policy : String) : Bool := extendedPolicies.contains policy
def isOrganization (policy : String) : Bool := organizationPolicies.contains policy
def isDomain (policy : String) : Bool := domainPolicies.contains policy

/-- The highest of `level` and the levels of the policies, up to the first extended one. -/
def highest (level : ValidationLevel) : List String → ValidationLevel
  | [] => level
  | policy :: policies =>
    if isExtended policy then .extended
    else if isOrganization policy then highest (level.max .organization) policies
    else if isDomain policy then highest (level.max .domain) policies
    else highest level policies

def level (policies : List String) : ValidationLevel := highest .unknown policies

end Policy

end Transparency
