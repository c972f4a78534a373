import Transparency.Digest.Sha256
import Transparency.Proofs.Merkle.Sides

/-!
# Audit paths verify

The audit path of a leaf has one hash for each side on the way to the root, and the climb along it
arrives at the root of the tree. So every path of a tree whose size fits its field has the shape of
one and verifies.
-/
namespace Transparency.Merkle

variable {digest : Bytes → Digest} {leaves : List Bytes} {index : Nat}

/-! ## Trees by their splits -/

/-- The leaves of the left part. -/
def leftPart (leaves : List Bytes) : List Bytes := leaves.take (splitPoint leaves.length)

/-- The leaves of the right part. -/
def rightPart (leaves : List Bytes) : List Bytes := leaves.drop (splitPoint leaves.length)

theorem length_leftPart (many : 1 < leaves.length) :
    (leftPart leaves).length = splitPoint leaves.length := by
  have := splitPoint_lt many
  simp only [leftPart, List.length_take]; omega

@[simp] theorem length_rightPart :
    (rightPart leaves).length = leaves.length - splitPoint leaves.length := by
  simp [rightPart]

theorem root_of_many (many : 1 < leaves.length) :
    root digest leaves =
      nodeHash digest (root digest (leftPart leaves)).bytes
        (root digest (rightPart leaves)).bytes := by
  match leaves, many with
  | _ :: _ :: _, _ => rw [root]; rfl

theorem path_of_left (many : 1 < leaves.length) (left : index < splitPoint leaves.length) :
    path digest index leaves =
      path digest index (leftPart leaves) ++ [root digest (rightPart leaves)] := by
  match leaves, many with
  | _ :: _ :: _, _ => rw [path, if_pos left]; rfl

theorem path_of_right (many : 1 < leaves.length) (right : splitPoint leaves.length ≤ index) :
    path digest index leaves =
      path digest (index - splitPoint leaves.length) (rightPart leaves) ++
        [root digest (leftPart leaves)] := by
  match leaves, many with
  | _ :: _ :: _, _ => rw [path, if_neg (by simpa using right)]; rfl

/-- That `index` is the place of a leaf, by the parts that the leaf lies in. -/
inductive Position : List Bytes → Nat → Prop
  | leaf (leaf : Bytes) : Position [leaf] 0
  | left {leaves : List Bytes} {index : Nat} (many : 1 < leaves.length)
      (left : index < splitPoint leaves.length) :
      Position (leftPart leaves) index → Position leaves index
  | right {leaves : List Bytes} {index : Nat} (many : 1 < leaves.length)
      (right : splitPoint leaves.length ≤ index) (inside : index < leaves.length) :
      Position (rightPart leaves) (index - splitPoint leaves.length) → Position leaves index

theorem Position.of_lt (inside : index < leaves.length) : Position leaves index := by
  induction size : leaves.length using Nat.strongRecOn generalizing leaves index with
  | ind n ih =>
    subst size
    by_cases many : 1 < leaves.length
    · have below := splitPoint_lt many
      have positive := splitPoint_pos leaves.length
      by_cases first : index < splitPoint leaves.length
      · have inLeft : index < (leftPart leaves).length := by rwa [length_leftPart many]
        exact .left many first (ih _ below inLeft (length_leftPart many))
      · have inRight : index - splitPoint leaves.length < (rightPart leaves).length := by
          rw [length_rightPart]; omega
        exact .right many (by omega) inside (ih _ (by omega) inRight length_rightPart)
    · obtain ⟨leaf, rfl⟩ := List.length_eq_one_iff.1 (show leaves.length = 1 by omega)
      obtain rfl : index = 0 := by simpa using inside
      exact .leaf leaf

/-! ## The climb along a path -/

theorem length_path (digest : Bytes → Digest) (position : Position leaves index) :
    (path digest index leaves).length = (sides index (leaves.length - 1)).length := by
  induction position with
  | leaf leaf => simp [path]
  | left many left _ ih =>
    rw [path_of_left many left, sides_of_lt_splitPoint many left, List.length_append, ih,
      length_leftPart many, List.length_append]
    rfl
  | right many right inside _ ih =>
    rw [path_of_right many right, sides_of_splitPoint_le right inside, List.length_append, ih,
      length_rightPart, List.length_append]
    rfl

/-- The steps from a leaf along its path. -/
def honestSteps (digest : Bytes → Digest) (leaves : List Bytes) (index : Nat) :
    List (Side × Bytes) :=
  (sides index (leaves.length - 1)).zip ((path digest index leaves).map (·.bytes))

@[simp] theorem honestSteps_leaf (leaf : Bytes) : honestSteps digest [leaf] 0 = [] := by
  simp [honestSteps]

theorem honestSteps_of_left (many : 1 < leaves.length) (left : index < splitPoint leaves.length)
    (position : Position (leftPart leaves) index) :
    honestSteps digest leaves index =
      honestSteps digest (leftPart leaves) index ++
        [(.right, (root digest (rightPart leaves)).bytes)] := by
  have length := length_path digest position
  rw [length_leftPart many] at length
  rw [honestSteps, path_of_left many left, sides_of_lt_splitPoint many left, List.map_append,
    List.zip_append (by simp [length]), honestSteps, length_leftPart many]
  rfl

theorem honestSteps_of_right (many : 1 < leaves.length) (right : splitPoint leaves.length ≤ index)
    (inside : index < leaves.length)
    (position : Position (rightPart leaves) (index - splitPoint leaves.length)) :
    honestSteps digest leaves index =
      honestSteps digest (rightPart leaves) (index - splitPoint leaves.length) ++
        [(.left, (root digest (leftPart leaves)).bytes)] := by
  have length := length_path digest position
  rw [length_rightPart] at length
  rw [honestSteps, path_of_right many right, sides_of_splitPoint_le right inside, List.map_append,
    List.zip_append (by simp [length]), honestSteps, length_rightPart]
  rfl

theorem getElem?_leftPart (left : index < splitPoint leaves.length) :
    (leftPart leaves)[index]? = leaves[index]? := by
  rw [leftPart, List.getElem?_take_of_lt left]

theorem getElem?_rightPart (right : splitPoint leaves.length ≤ index) :
    (rightPart leaves)[index - splitPoint leaves.length]? = leaves[index]? := by
  rw [rightPart, List.getElem?_drop, Nat.add_sub_cancel' right]

/-- The path of a leaf leads from its hash to the root. -/
theorem climb_honestSteps (digest : Bytes → Digest) (position : Position leaves index)
    {leaf : Bytes} (found : leaves[index]? = some leaf) :
    climb digest (leafHash digest leaf).bytes (honestSteps digest leaves index) =
      (root digest leaves).bytes := by
  induction position with
  | leaf only =>
    obtain rfl : only = leaf := by simpa using found
    rw [honestSteps_leaf, climb, root]
  | left many left position ih =>
    rw [honestSteps_of_left many left position, climb_append,
      ih (by rw [getElem?_leftPart left, found]), root_of_many many]
    rfl
  | right many right inside position ih =>
    rw [honestSteps_of_right many right inside position, climb_append,
      ih (by rw [getElem?_rightPart right, found]), root_of_many many]
    rfl

/-! ## Proofs of a tree -/

namespace Proof

/-- The sides of the siblings that a proof should have. -/
def sides (p : Proof) : List Side := Merkle.sides p.leafIndex.toNat (p.treeSize.toNat - 1)

theorem checkShape_eq_ok_iff {p : Proof} :
    p.checkShape = .ok () ↔
      p.leafIndex < p.treeSize ∧ p.nodes.length = p.sides.length ∧
        ∀ node ∈ p.nodes, node.length = 32 := by
  simp only [checkShape, pathLength?, levels_eq_length_sides, sides]
  grind

theorem verifies_iff {p : Proof} {rootHash leafHash : Bytes} :
    p.verifies digest rootHash leafHash = true ↔
      p.leafIndex < p.treeSize ∧ p.nodes.length = p.sides.length ∧
        climb digest leafHash (p.sides.zip p.nodes) = rootHash := by
  simp only [verifies, root?, walk_eq_climb, sides]
  grind

/-- The proof that a log gives for the leaf at `index` of its tree. -/
def ofTree (digest : Bytes → Digest) (leaves : List Bytes) (index : Nat) : Proof where
  leafIndex := .ofNat index
  treeSize := .ofNat leaves.length
  nodes := (path digest index leaves).map (·.bytes)

theorem sides_ofTree (size : leaves.length < UInt64.size) (inside : index < leaves.length) :
    (ofTree digest leaves index).sides = Merkle.sides index (leaves.length - 1) := by
  simp only [sides, ofTree, UInt64.toNat_ofNat_of_lt' (Nat.lt_trans inside size),
    UInt64.toNat_ofNat_of_lt' size]

end Proof

/-- Every leaf of a tree whose size fits its field has a proof of the right shape that verifies. -/
theorem ofTree_verifies (digest : Bytes → Digest) {leaves : List Bytes} {index : Nat}
    (size : leaves.length < UInt64.size) (inside : index < leaves.length) :
    (Proof.ofTree digest leaves index).checkShape = .ok () ∧
      (Proof.ofTree digest leaves index).verifies digest (root digest leaves).bytes
        (leafHash digest leaves[index]).bytes = true := by
  have position := Position.of_lt inside
  have order : (Proof.ofTree digest leaves index).leafIndex <
      (Proof.ofTree digest leaves index).treeSize := by
    simpa only [Proof.ofTree, UInt64.lt_iff_toNat_lt, UInt64.toNat_ofNat_of_lt' size,
      UInt64.toNat_ofNat_of_lt' (Nat.lt_trans inside size)] using inside
  have length : (Proof.ofTree digest leaves index).nodes.length =
      (Proof.ofTree digest leaves index).sides.length := by
    rw [Proof.sides_ofTree size inside, Proof.ofTree, List.length_map, length_path digest position]
  refine ⟨Proof.checkShape_eq_ok_iff.2 ⟨order, length, ?_⟩,
    Proof.verifies_iff.2 ⟨order, length, ?_⟩⟩
  · simp [Proof.ofTree, Digest.length_eq]
  · rw [Proof.sides_ofTree size inside]
    exact climb_honestSteps digest position (List.getElem?_eq_getElem inside)

/-- The last of seven leaves has two siblings, and its way skips the first level. -/
theorem ofTree_verifies_seven :
    let leaves : List Bytes := [[], [1], [2, 2], [3], [4], [5], [6]]
    leaves.length < UInt64.size ∧ 6 < leaves.length ∧
      (Proof.ofTree Sha256.digest leaves 6).checkShape = .ok () ∧
        (Proof.ofTree Sha256.digest leaves 6).verifies Sha256.digest
          (root Sha256.digest leaves).bytes (leafHash Sha256.digest [6]).bytes = true :=
  ⟨by decide, by decide, ofTree_verifies Sha256.digest (by decide) (by decide)⟩

end Transparency.Merkle
