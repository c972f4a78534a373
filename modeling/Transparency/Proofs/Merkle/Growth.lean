import Transparency.Proofs.Merkle.Shape

/-!
# Growing trees

A leaf of a full tree meets a sibling on every level, and no leaf of a tree of that height meets
more. Once a tree has at least doubled, its old leaves lie in the full left part of the new one. So
each of them has a longer way to the root than before, and its old proofs are too short.
-/
namespace Transparency.Merkle

variable {index m n : Nat} {leafIndex treeSize larger : UInt64}

/-! ## Full trees -/

/-- On a level with an even number of nodes each of them has a sibling. -/
theorem length_levelSides_of_odd {last : Nat} (odd : last % 2 = 1) :
    (levelSides index last).length = 1 := by
  grind [levelSides]

theorem length_sides_of_full (inside : index < 2 ^ m) :
    (sides index (2 ^ m - 1)).length = m := by
  induction m generalizing index with
  | zero => simp
  | succ m ih =>
    have positive : 0 < 2 ^ m := Nat.two_pow_pos m
    rw [Nat.pow_succ] at inside ⊢
    have half : (2 ^ m * 2 - 1) / 2 = 2 ^ m - 1 := by omega
    have level : (levelSides index (2 ^ m * 2 - 1)).length = 1 := by
      apply length_levelSides_of_odd
      omega
    rw [sides_of_inner index _ (by omega), List.length_append, level, half, ih (by omega)]
    exact Nat.add_comm 1 m

/-! ## Trees of at least twice the size -/

theorem length_sides_lt_of_two_mul_le (inside : index < m) (double : 2 * m ≤ n) :
    (sides index (m - 1)).length < (sides index (n - 1)).length := by
  have many : 1 < n := by omega
  have half : n ≤ 2 * splitPoint n := le_two_mul_splitPoint many
  have left : index < splitPoint n := by omega
  have after : (sides index (splitPoint n - 1)).length = (n - 1).log2 := length_sides_of_full left
  have before : (sides index (m - 1)).length ≤ (n - 1).log2 := by
    apply length_sides_le
    change m - 1 < splitPoint n
    omega
  rw [sides_of_lt_splitPoint many left, List.length_append, after, List.length_singleton]
  omega

theorem pathLength?_lt_of_two_mul_le (inside : leafIndex < treeSize)
    (double : 2 * treeSize.toNat ≤ larger.toNat) :
    ∃ n m, pathLength? leafIndex treeSize = some n ∧ pathLength? leafIndex larger = some m ∧
      n < m := by
  rw [UInt64.lt_iff_toNat_lt] at inside
  have insideLarger : leafIndex.toNat < larger.toNat := by omega
  refine ⟨_, _, pathLength?_eq_some_iff.2 ⟨UInt64.lt_iff_toNat_lt.2 inside, rfl⟩,
    pathLength?_eq_some_iff.2 ⟨UInt64.lt_iff_toNat_lt.2 insideLarger, rfl⟩, ?_⟩
  exact length_sides_lt_of_two_mul_le inside double

/-- A check counts the nodes that it is given. -/
theorem Proof.pathLength?_of_verifies {digest : Bytes → Digest} {p : Proof}
    {rootHash leafHash : Bytes} (verified : p.verifies digest rootHash leafHash = true) :
    pathLength? p.leafIndex p.treeSize = some p.nodes.length := by
  obtain ⟨inside, length, -⟩ := verifies_iff.1 verified
  exact pathLength?_eq_some_iff.2 ⟨inside, length.symm⟩

/-- In a tree of twice the size every leaf has a longer path, so nodes that lead from it to some
root of the smaller tree lead to no root of the larger one, whatever the hashes. -/
theorem pathLength?_lt_double (digest : Bytes → Digest) (inside : leafIndex < treeSize)
    (fits : 2 * treeSize.toNat < UInt64.size) :
    (∃ n m, pathLength? leafIndex treeSize = some n ∧
      pathLength? leafIndex (2 * treeSize) = some m ∧ n < m) ∧
      ∀ nodes rootHash leafHash,
        Proof.verifies digest ⟨leafIndex, treeSize, nodes⟩ rootHash leafHash = true →
          ∀ rootHash' leafHash',
            Proof.verifies digest ⟨leafIndex, 2 * treeSize, nodes⟩ rootHash' leafHash' = false := by
  have size : (2 * treeSize).toNat = 2 * treeSize.toNat := by
    rw [UInt64.toNat_mul]
    exact Nat.mod_eq_of_lt fits
  obtain ⟨n, m, small, large, less⟩ := pathLength?_lt_of_two_mul_le inside (Nat.le_of_eq size.symm)
  refine ⟨⟨n, m, small, large, less⟩, fun nodes rootHash leafHash verified => ?_⟩
  intro rootHash' leafHash'
  apply Bool.eq_false_iff.2
  intro verified'
  have length : n = nodes.length :=
    Option.some.inj (small.symm.trans (Proof.pathLength?_of_verifies verified))
  have length' : m = nodes.length :=
    Option.some.inj (large.symm.trans (Proof.pathLength?_of_verifies verified'))
  omega

/-- The last of nine leaves has one sibling. Among eighteen it has five: its short way along the
right edge has become a full one. -/
theorem pathLength?_lt_double_nine :
    (8 : UInt64) < 9 ∧ 2 * (9 : UInt64).toNat < UInt64.size ∧ pathLength? 8 9 = some 1 ∧
      pathLength? 8 18 = some 5 ∧
        Proof.verifies Sha256.digest ⟨8, 9, [[7]]⟩ (nodeHash Sha256.digest [7] []).bytes [] =
          true ∧
          Proof.verifies Sha256.digest ⟨8, 18, [[7]]⟩ [] [] = false := by
  have inside : (8 : UInt64) < 9 := by decide
  have fits : 2 * (9 : UInt64).toNat < UInt64.size := by decide
  have verified : Proof.verifies Sha256.digest ⟨8, 9, [[7]]⟩
      (nodeHash Sha256.digest [7] []).bytes [] = true := by
    simp [Proof.verifies, Proof.root?, walk, ascend]
  refine ⟨inside, fits, ?_, ?_, verified, ?_⟩
  · simp [pathLength?, levels]
  · simp [pathLength?, levels]
  · obtain ⟨-, outgrown⟩ := pathLength?_lt_double Sha256.digest inside fits
    exact outgrown _ _ _ verified [] []

end Transparency.Merkle
