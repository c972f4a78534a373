import Mathlib.Tactic.SplitIfs
import Transparency.Validation.Policy

/-!
# The level of several policies

A policy has the level of the first table that lists it. The level of several is the least one that
none of them is above, so their order does not matter, and neither does where the search ends.
-/
namespace Transparency

namespace ValidationLevel

theorem rank_le_three (l : ValidationLevel) : l.rank ≤ 3 := by
  cases l <;> decide

theorem rank_inj {a b : ValidationLevel} : a.rank = b.rank ↔ a = b := by
  cases a <;> cases b <;> decide

/-- A level is known by the numbers that it is not above. -/
theorem eq_of_bounds {a b : ValidationLevel} (same : ∀ n, a.rank ≤ n ↔ b.rank ≤ n) : a = b := by
  apply rank_inj.1
  apply Nat.le_antisymm
  · exact (same b.rank).2 (Nat.le_refl _)
  · exact (same a.rank).1 (Nat.le_refl _)

@[simp] theorem max_unknown (l : ValidationLevel) : l.max .unknown = l := by
  cases l <;> rfl

theorem rank_max (a b : ValidationLevel) : (a.max b).rank = Max.max a.rank b.rank := by
  unfold max
  split_ifs <;> omega

end ValidationLevel

namespace Policy

variable {l : ValidationLevel} {policy : String} {policies a b : List String}

/-- The tables, those of higher levels first. -/
def tables : List (ValidationLevel × List String) :=
  [(.extended, extendedPolicies), (.organization, organizationPolicies), (.domain, domainPolicies)]

/-- The level of the first table that lists a policy. -/
def levelOf (policy : String) : ValidationLevel :=
  ((tables.find? fun table => table.2.contains policy).map (·.1)).getD .unknown

theorem levelOf_eq (policy : String) :
    levelOf policy =
      if isExtended policy then .extended
      else if isOrganization policy then .organization
      else if isDomain policy then .domain
      else .unknown := by
  unfold levelOf tables isExtended isOrganization isDomain
  split_ifs <;> simp_all

/-! ## The search -/

/-- A step of the search raises the level to that of the policy, and an extended policy ends it. -/
theorem highest_cons (l : ValidationLevel) (policy : String) (policies : List String) :
    highest l (policy :: policies) =
      if levelOf policy = .extended then .extended
      else highest (l.max (levelOf policy)) policies := by
  rw [highest, levelOf_eq]
  split_ifs <;> simp_all

/-- Nothing is above an extended policy, so it makes no difference that the search ends there. -/
theorem rank_highest_le_iff {n : Nat} :
    (highest l policies).rank ≤ n ↔ l.rank ≤ n ∧ ∀ p ∈ policies, (levelOf p).rank ≤ n := by
  induction policies generalizing l with
  | nil => simp [highest]
  | cons policy policies ih =>
    rw [highest_cons, List.forall_mem_cons]
    split_ifs with extended
    · rw [extended]
      constructor
      · intro bound
        have below (l : ValidationLevel) : l.rank ≤ n := Nat.le_trans l.rank_le_three bound
        exact ⟨below l, bound, fun p _ => below (levelOf p)⟩
      · exact fun bounds => bounds.2.1
    · rw [ih, ValidationLevel.rank_max, Nat.max_le, and_assoc]

/-! ## The level -/

theorem rank_level_le_iff {n : Nat} :
    (level policies).rank ≤ n ↔ ∀ p ∈ policies, (levelOf p).rank ≤ n := by
  rw [level, rank_highest_le_iff]
  exact and_iff_right (Nat.zero_le n)

theorem level_singleton (policy : String) : level [policy] = levelOf policy := by
  apply ValidationLevel.eq_of_bounds
  intro n
  rw [rank_level_le_iff, List.forall_mem_singleton]

theorem level_append (a b : List String) : level (a ++ b) = (level a).max (level b) := by
  apply ValidationLevel.eq_of_bounds
  intro n
  rw [ValidationLevel.rank_max, Nat.max_le, rank_level_le_iff, rank_level_le_iff,
    rank_level_le_iff, List.forall_mem_append]

theorem rank_level_le_of_subset (subset : a ⊆ b) : (level a).rank ≤ (level b).rank :=
  rank_level_le_iff.2 fun p member => rank_level_le_iff.1 (Nat.le_refl _) p (subset member)

theorem level_eq_of_mem_iff (same : ∀ policy, policy ∈ a ↔ policy ∈ b) : level a = level b := by
  apply ValidationLevel.eq_of_bounds
  intro n
  simp only [rank_level_le_iff, same]

/-- The level of two lists together is the higher one of theirs, and that of a single policy is the
level of the first table that lists it. So policies that are given again or in another order change
nothing, and more of them never lower the level. -/
theorem level_append_eq_higher (a b : List String) :
    level (a ++ b) = (level a).max (level b) ∧
    (level (a ++ b)).rank = max (level a).rank (level b).rank ∧
    (∀ policy, level [policy] = levelOf policy) ∧
    ((∀ policy, policy ∈ a ↔ policy ∈ b) → level a = level b) ∧
    (a ⊆ b → (level a).rank ≤ (level b).rank) := by
  refine ⟨level_append a b, ?_, level_singleton, level_eq_of_mem_iff, rank_level_le_of_subset⟩
  rw [level_append, ValidationLevel.rank_max]

/-- The extended policy is found last or first, beside a domain policy that is given twice. -/
theorem level_append_eq_higher_twice :
    let a := ["2.23.140.1.2.1", "1.2.3", "2.23.140.1.2.1", "2.23.140.1.1"]
    let b := ["2.23.140.1.1", "1.2.3", "2.23.140.1.2.1"]
    let c := ["2.23.140.1.2.1", "1.2.3"]
    ((∀ policy, policy ∈ a ↔ policy ∈ b) ∧ level a = level b) ∧
      (c ⊆ b ∧ (level c).rank ≤ (level b).rank) ∧ level c = .domain ∧ level b = .extended := by
  intro a b c
  have same : ∀ policy, policy ∈ a ↔ policy ∈ b := by
    intro policy
    simp only [a, b, List.mem_cons, List.not_mem_nil]
    grind
  have subset : c ⊆ b := by
    intro policy member
    simp only [b, c, List.mem_cons, List.not_mem_nil] at member ⊢
    grind
  obtain ⟨-, -, -, unordered, -⟩ := level_append_eq_higher a b
  obtain ⟨-, -, -, -, monotone⟩ := level_append_eq_higher c b
  exact ⟨⟨same, unordered same⟩, ⟨subset, monotone subset⟩, by decide +kernel, by decide +kernel⟩

end Policy

end Transparency
