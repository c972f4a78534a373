import Transparency.Validation

/-!
# Habits of authorities

By the rule for subjects, either of two habits is enough to tell that only a domain was checked. The
classification follows it but for one case: to a subject that shows the first habit and has an
address, the second is never put.
-/
namespace Transparency.SubjectInfo

variable {info : SubjectInfo}

/-! ## The rule -/

/-- Whether the first unit tells that the domain was checked. -/
def UnitTells (info : SubjectInfo) : Prop :=
  ∃ unit, info.units.head? = some unit ∧ "Domain Control Validated".toList <:+: unit.toList

/-- Whether a subject seems to tell of a domain only, by its organization or by its unit. -/
def TellsDomain (info : SubjectInfo) : Prop :=
  info.organizations.head? = some info.commonName ∨ info.UnitTells

/-- Whether a subject has no part of an address. -/
structure Unaddressed (info : SubjectInfo) : Prop where
  localities : info.localities = []
  provinces : info.provinces = []
  postalCodes : info.postalCodes = []

/-- Whether a subject is a person whom the issuer has left unchecked. -/
structure Unchecked (info : SubjectInfo) : Prop where
  organization : info.organizations.head? = some "Persona Not Validated"
  issuer : "StartCom".toList <:+: info.issuerCommonName.toList

/-- Whether a level is the one by the rule: that of the policies if they have one, and otherwise
that of a checked domain just if the subject shows one of the habits. -/
structure Follows (info : SubjectInfo) (level : ValidationLevel) : Prop where
  policies : Policy.level info.policies ≠ .unknown → level = Policy.level info.policies
  habits : Policy.level info.policies = .unknown →
    (level = .domain ↔ info.TellsDomain ∧ info.Unaddressed ∨ info.Unchecked) ∧
      (level ≠ .domain → level = .unknown)

/-- Whether the first habit, which an address takes the force of, conceals the second. -/
structure Conceals (info : SubjectInfo) : Prop where
  policies : Policy.level info.policies = .unknown
  tells : info.TellsDomain
  addressed : ¬ info.Unaddressed
  unchecked : info.Unchecked

/-! ## What is looked at -/

theorem occurs_iff (part text : List Char) : occurs part text = true ↔ part <:+: text := by
  induction text with
  | nil => simp [occurs]
  | cons c cs ih => simp [occurs, ih, List.infix_cons_iff]

theorem unitTells_iff : info.unitTellsDomain = true ↔ info.UnitTells := by
  unfold unitTellsDomain UnitTells
  cases info.units with
  | nil => simp
  | cons unit units => simp [occurs_iff]

theorem tellsDomain_iff :
    (info.namedAfterDomain || info.unitTellsDomain) = true ↔ info.TellsDomain := by
  rw [Bool.or_eq_true, unitTells_iff, namedAfterDomain, decide_eq_true_iff, TellsDomain]

theorem unaddressed_iff : info.hasAddress = false ↔ info.Unaddressed := by
  simp only [hasAddress, Bool.not_eq_false', Bool.and_eq_true, List.isEmpty_iff]
  exact ⟨fun ⟨⟨l, p⟩, c⟩ => ⟨l, p, c⟩, fun ⟨l, p, c⟩ => ⟨⟨l, p⟩, c⟩⟩

theorem unchecked_iff : info.isUncheckedPerson = true ↔ info.Unchecked := by
  rw [isUncheckedPerson, Bool.and_eq_true, decide_eq_true_iff, occurs_iff]
  exact ⟨fun ⟨o, i⟩ => ⟨o, i⟩, fun ⟨o, i⟩ => ⟨o, i⟩⟩

/-! ## The classification -/

theorem level_of_policies (known : Policy.level info.policies ≠ .unknown) :
    info.level = Policy.level info.policies := by
  unfold level
  split
  · next unknown => exact absurd unknown known
  · rfl

/-- Without a level by the policies, a subject that seems to tell of a domain is asked for its
address alone, and all others for the person alone. -/
theorem level_eq_domain_iff (unknown : Policy.level info.policies = .unknown) :
    info.level = .domain ↔
      info.TellsDomain ∧ info.Unaddressed ∨ ¬ info.TellsDomain ∧ info.Unchecked := by
  rw [← tellsDomain_iff, ← unaddressed_iff, ← unchecked_iff, level, unknown]
  cases info.namedAfterDomain || info.unitTellsDomain <;> cases info.hasAddress <;>
    cases info.isUncheckedPerson <;> simp

theorem level_eq_unknown (unknown : Policy.level info.policies = .unknown)
    (other : info.level ≠ .domain) : info.level = .unknown := by
  revert other
  rw [level, unknown]
  dsimp only
  split <;> split <;> simp

/-- With an address, a subject that seems to tell of a domain is not taken to, person or not. -/
theorem Conceals.level_ne_domain (conceals : info.Conceals) : info.level ≠ .domain := by
  obtain ⟨unknown, tells, addressed, -⟩ := conceals
  intro domain
  obtain ⟨-, unaddressed⟩ | ⟨silent, -⟩ := (level_eq_domain_iff unknown).1 domain
  · exact addressed unaddressed
  · exact silent tells

/-- Where nothing is concealed, the second habit is put on its own. -/
theorem level_eq_domain_iff_of_not_conceals (unknown : Policy.level info.policies = .unknown)
    (clear : ¬ info.Conceals) :
    info.level = .domain ↔ info.TellsDomain ∧ info.Unaddressed ∨ info.Unchecked := by
  rw [level_eq_domain_iff unknown]
  constructor
  · exact Or.imp_right And.right
  · rintro (told | unchecked)
    · exact .inl told
    · by_cases tells : info.TellsDomain
      · have unaddressed : info.Unaddressed := Classical.byContradiction fun addressed =>
          clear ⟨unknown, tells, addressed, unchecked⟩
        exact .inl ⟨tells, unaddressed⟩
      · exact .inr ⟨tells, unchecked⟩

/-- The classification is the one by the rule unless the first habit conceals the second, and then
it tells nothing. -/
theorem follows_level_iff (info : SubjectInfo) :
    (info.Follows info.level ↔ ¬ info.Conceals) ∧ (info.Conceals → info.level = .unknown) := by
  refine ⟨⟨fun follows conceals => ?_, fun clear => ⟨level_of_policies, fun unknown => ?_⟩⟩,
    fun conceals => ?_⟩
  · have domain := (follows.habits conceals.policies).1.2 (.inr conceals.unchecked)
    exact conceals.level_ne_domain domain
  · exact ⟨level_eq_domain_iff_of_not_conceals unknown clear, level_eq_unknown unknown⟩
  · exact level_eq_unknown conceals.policies conceals.level_ne_domain

/-- The issuer leaves persons unchecked, and this is one. But the unit tells of a domain, and the
locality is held against it. -/
theorem not_follows_level_of_locality :
    let info : SubjectInfo :=
      { commonName := "example.com", organizations := ["Persona Not Validated"]
        units := ["Domain Control Validated"], localities := ["Eilat"]
        issuerCommonName := "StartCom Class 1 CA" }
    info.level = .unknown ∧ info.Unchecked ∧ ¬ info.Follows info.level := by
  intro info
  have unknown : info.level = .unknown := by decide
  have unchecked : info.Unchecked := ⟨rfl, by decide⟩
  refine ⟨unknown, unchecked, fun follows => ?_⟩
  have domain := (follows.habits rfl).1.2 (.inr unchecked)
  cases unknown.symm.trans domain

end Transparency.SubjectInfo
