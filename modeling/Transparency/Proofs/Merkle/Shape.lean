import Mathlib.Logic.ExistsUnique
import Transparency.Proofs.Merkle.Path
import Transparency.Stored

/-!
# The shape of a proof

How many siblings a leaf has on its way depends on its place and on the size of the tree alone. The
levels on which it has one are counted to the length of its path in every tree of that size, and a
check uses up just as many. So each leaf hash leads to one root by a proof of that length, and to
none by any other.
-/
namespace Transparency.Merkle

variable {digest : Bytes → Digest} {leafIndex treeSize : UInt64} {n : Nat}

/-! ## Length -/

theorem length_levelSides_le (index last : Nat) : (levelSides index last).length ≤ 1 := by
  unfold levelSides
  split
  · exact Nat.le_refl 1
  · split <;> simp

/-- There is at most one sibling for each bit of the place of the last leaf. -/
theorem length_sides_le {index last : Nat} (bits : last < 2 ^ n) :
    (sides index last).length ≤ n := by
  induction n generalizing index last with
  | zero =>
    obtain rfl : last = 0 := by omega
    simp
  | succ n ih =>
    by_cases inner : last = 0
    · simp [inner]
    · rw [Nat.pow_succ] at bits
      have above := @ih (index / 2) (last / 2) (by omega)
      have level := length_levelSides_le index last
      rw [sides_of_inner index last inner, List.length_append]
      omega

theorem pathLength?_eq_some_iff :
    pathLength? leafIndex treeSize = some n ↔
      leafIndex < treeSize ∧ (sides leafIndex.toNat (treeSize.toNat - 1)).length = n := by
  unfold pathLength?
  rw [levels_eq_length_sides]
  split
  · next inside => simp [inside]
  · next outside => simp [outside]

/-- The length that is computed for a place inside a tree is that of its path in every tree of the
size. Without such a place the length that was there is kept. -/
theorem pathLength?_stores_length_path (leafIndex treeSize : UInt64) (prior : Nat) :
    (leafIndex < treeSize → ∃ n ≤ 64,
      store prior (pathLength? leafIndex treeSize) = ⟨n, true⟩ ∧
        ∀ (digest : Bytes → Digest) (leaves : List Bytes), leaves.length = treeSize.toNat →
          (path digest leafIndex.toNat leaves).length = n) ∧
      (¬ leafIndex < treeSize →
        store prior (pathLength? leafIndex treeSize) = ⟨prior, false⟩) := by
  constructor
  · intro inside
    have computed := pathLength?_eq_some_iff.2 ⟨inside, rfl⟩
    refine ⟨_, length_sides_le ?bits, by rw [computed, store], fun digest leaves size => ?_⟩
    case bits => exact Nat.lt_of_le_of_lt (Nat.sub_le _ _) treeSize.toNat_lt
    have position : Position leaves leafIndex.toNat :=
      .of_lt (size ▸ UInt64.lt_iff_toNat_lt.1 inside)
    rw [length_path digest position, size]
  · intro outside
    rw [pathLength?, if_neg outside, store]

/-- The last of nine leaves meets its one sibling three levels up; a tenth there is not. -/
theorem pathLength?_stores_length_path_nine :
    (8 : UInt64) < 9 ∧ store 7 (pathLength? 8 9) = ⟨1, true⟩ ∧
      (∀ (digest : Bytes → Digest) (leaves : List Bytes), leaves.length = 9 →
        (path digest 8 leaves).length = 1) ∧
        ¬ (9 : UInt64) < 9 ∧ store 7 (pathLength? 9 9) = ⟨7, false⟩ := by
  obtain ⟨n, -, stored, same⟩ := (pathLength?_stores_length_path 8 9 7).1 (by decide)
  have one : pathLength? 8 9 = some 1 := by simp [pathLength?, levels]
  obtain rfl : n = 1 := by simpa [one, store, eq_comm] using stored
  exact ⟨by decide, stored, same, by decide, (pathLength?_stores_length_path 9 9 7).2 (by decide)⟩

/-! ## Roots -/

/-- A proof of the right length leads from each leaf hash to one root, and every other proof is
refused whatever the root. -/
theorem Proof.existsUnique_root (digest : Bytes → Digest) (p : Proof) :
    (pathLength? p.leafIndex p.treeSize = some p.nodes.length →
      ∀ leafHash, ∃! rootHash, p.verifies digest rootHash leafHash = true) ∧
      (pathLength? p.leafIndex p.treeSize ≠ some p.nodes.length →
        ∀ rootHash leafHash, p.verifies digest rootHash leafHash = false) := by
  constructor
  · intro shape leafHash
    obtain ⟨inside, length⟩ := pathLength?_eq_some_iff.1 shape
    refine ⟨climb digest leafHash (p.sides.zip p.nodes), ?_, fun rootHash verified => ?_⟩
    · exact verifies_iff.2 ⟨inside, length.symm, rfl⟩
    · obtain ⟨-, -, arrives⟩ := verifies_iff.1 verified
      exact arrives.symm
  · intro shape rootHash leafHash
    refine Bool.eq_false_iff.2 fun verified => shape ?_
    obtain ⟨inside, length, -⟩ := verifies_iff.1 verified
    exact pathLength?_eq_some_iff.2 ⟨inside, length.symm⟩

/-- One sibling of a single byte leads on from the last of nine leaves; a second one is too many. -/
theorem Proof.existsUnique_root_nine :
    pathLength? 8 9 = some 1 ∧
      (∃! rootHash, verifies Sha256.digest ⟨8, 9, [[7]]⟩ rootHash [] = true) ∧
        pathLength? 8 9 ≠ some 2 ∧
          verifies Sha256.digest ⟨8, 9, [[7], []]⟩ [1] [2] = false := by
  have one : pathLength? 8 9 = some 1 := by simp [pathLength?, levels]
  have notTwo : pathLength? 8 9 ≠ some 2 := by simp [one]
  exact ⟨one, (existsUnique_root Sha256.digest ⟨8, 9, [[7]]⟩).1 one [], notTwo,
    (existsUnique_root Sha256.digest ⟨8, 9, [[7], []]⟩).2 notTwo [1] [2]⟩

end Transparency.Merkle
