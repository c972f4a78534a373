import Transparency.Digest

/-!
# Merkle trees

The tree over a list of leaves splits it at the largest power of two below its size. The audit path
of a leaf lists the hashes of the subtrees beside the way from the leaf to the root.
-/
namespace Transparency.Merkle

def leafHash (digest : Bytes → Digest) (leaf : Bytes) : Digest := digest (0 :: leaf)

def nodeHash (digest : Bytes → Digest) (left right : Bytes) : Digest :=
  digest (1 :: left ++ right)

/-- The largest power of two below `n`, for `n` above one. -/
def splitPoint (n : Nat) : Nat := 2 ^ (n - 1).log2

theorem splitPoint_pos (n : Nat) : 0 < splitPoint n := Nat.two_pow_pos _

theorem splitPoint_lt {n : Nat} (h : 1 < n) : splitPoint n < n := by
  have := Nat.log2_self_le (n := n - 1) (by omega)
  unfold splitPoint; omega

theorem le_two_mul_splitPoint {n : Nat} (h : 1 < n) : n ≤ 2 * splitPoint n := by
  have := Nat.lt_log2_self (n := n - 1)
  unfold splitPoint; rw [Nat.pow_succ] at this; omega

/-- The root of the tree over `leaves`. -/
def root (digest : Bytes → Digest) : List Bytes → Digest
  | [] => digest []
  | [leaf] => leafHash digest leaf
  | l₁ :: l₂ :: leaves =>
    let all := l₁ :: l₂ :: leaves
    let k := splitPoint all.length
    nodeHash digest (root digest (all.take k)).bytes (root digest (all.drop k)).bytes
termination_by leaves => leaves.length
decreasing_by
  · have := splitPoint_lt (n := leaves.length + 1 + 1) (by omega)
    simp only [List.length_take, List.length_cons]; omega
  · have := splitPoint_pos (leaves.length + 1 + 1)
    simp only [List.length_drop, List.length_cons]; omega

/-- The audit path of the leaf at `index`, from the leaf upward. -/
def path (digest : Bytes → Digest) (index : Nat) : List Bytes → List Digest
  | [] => []
  | [_] => []
  | l₁ :: l₂ :: leaves =>
    let all := l₁ :: l₂ :: leaves
    let k := splitPoint all.length
    if index < k then path digest index (all.take k) ++ [root digest (all.drop k)]
    else path digest (index - k) (all.drop k) ++ [root digest (all.take k)]
termination_by leaves => leaves.length
decreasing_by
  · have := splitPoint_lt (n := leaves.length + 1 + 1) (by omega)
    simp only [List.length_take, List.length_cons]; omega
  · have := splitPoint_pos (leaves.length + 1 + 1)
    simp only [List.length_drop, List.length_cons]; omega

end Transparency.Merkle
