import Transparency.Proofs.Merkle.Path

/-!
# What a root binds

A root fixes the leaf at each place of a tree and the siblings on its way, up to a collision of the
digest. No digest of all strings is free of collisions, so a collision counts only if its two
strings are among those that were hashed.
-/
namespace Transparency.Merkle

variable {digest : Bytes → Digest} {leaves : List Bytes} {index : Nat}

/-! ## What is hashed -/

/-- Two different strings with one digest, each from one of two computations. -/
def Collide (digest : Bytes → Digest) (xs ys : List Bytes) : Prop :=
  ∃ x ∈ xs, ∃ y ∈ ys, x ≠ y ∧ digest x = digest y

theorem Collide.mono {xs ys xs' ys' : List Bytes} (h : Collide digest xs ys) (left : xs ⊆ xs')
    (right : ys ⊆ ys') : Collide digest xs' ys' := by
  obtain ⟨x, hx, y, hy, differ, same⟩ := h
  exact ⟨x, left hx, y, right hy, differ, same⟩

theorem eq_or_collide {x y : Bytes} (same : digest x = digest y) :
    x = y ∨ Collide digest [x] [y] := by
  by_cases eq : x = y
  · exact .inl eq
  · exact .inr ⟨x, List.mem_singleton_self x, y, List.mem_singleton_self y, eq, same⟩

/-- The strings that a walk hashes, from the leaf upward. -/
def walkInputs (digest : Bytes → Digest) : Nat → Nat → Bytes → List Bytes → List Bytes
  | _, _, _, [] => []
  | index, last, node, sibling :: siblings =>
    if last = 0 then []
    else
      let (side, i, l) := turn index last
      let input := side.join node sibling
      input :: walkInputs digest i l (digest input).bytes siblings

/-- The strings that are hashed to check a proof. -/
def Proof.inputs (digest : Bytes → Digest) (p : Proof) (leafHash : Bytes) : List Bytes :=
  walkInputs digest p.leafIndex.toNat (p.treeSize.toNat - 1) leafHash p.nodes

/-- The strings that are hashed for the root of a tree. -/
def treeInputs (digest : Bytes → Digest) : List Bytes → List Bytes
  | [] => [[]]
  | [leaf] => [leafInput leaf]
  | l₁ :: l₂ :: leaves =>
    let left := leftPart (l₁ :: l₂ :: leaves)
    let right := rightPart (l₁ :: l₂ :: leaves)
    treeInputs digest left ++ treeInputs digest right ++
      [nodeInput (root digest left).bytes (root digest right).bytes]
termination_by leaves => leaves.length
decreasing_by
  · rw [length_leftPart (by simp)]
    exact splitPoint_lt (by simp)
  · rw [length_rightPart]
    exact Nat.sub_lt (by simp) (splitPoint_pos _)

theorem treeInputs_of_many (many : 1 < leaves.length) :
    treeInputs digest leaves =
      treeInputs digest (leftPart leaves) ++ treeInputs digest (rightPart leaves) ++
        [nodeInput (root digest (leftPart leaves)).bytes
          (root digest (rightPart leaves)).bytes] := by
  match leaves, many with
  | _ :: _ :: _, _ => rw [treeInputs]

/-- The strings that a climb hashes. -/
def climbInputs (digest : Bytes → Digest) : Bytes → List (Side × Bytes) → List Bytes
  | _, [] => []
  | node, (side, sibling) :: steps =>
    let input := side.join node sibling
    input :: climbInputs digest (digest input).bytes steps

theorem climbInputs_append (node : Bytes) (steps later : List (Side × Bytes)) :
    climbInputs digest node (steps ++ later) =
      climbInputs digest node steps ++ climbInputs digest (climb digest node steps) later := by
  induction steps generalizing node with
  | nil => rfl
  | cons step steps ih => simp only [List.cons_append, climbInputs, climb, ih]

theorem walkInputs_eq_climbInputs (index last : Nat) (node : Bytes) (siblings : List Bytes) :
    walkInputs digest index last node siblings =
      climbInputs digest node ((sides index last).zip siblings) := by
  induction siblings generalizing index last node with
  | nil => simp [walkInputs, climbInputs]
  | cons sibling siblings ih =>
    by_cases inner : last = 0
    · subst inner; simp [walkInputs, climbInputs]
    · rw [walkInputs, if_neg inner, sides_eq_cons index inner]
      simp only [ih, List.zip_cons_cons, climbInputs]

/-! ## Two climbs -/

/-- Nodes of one length are told apart from their siblings, however long those are. -/
theorem Side.join_inj {side : Side} {node node' sibling sibling' : Bytes}
    (length : node.length = node'.length)
    (same : side.join node sibling = side.join node' sibling') :
    node = node' ∧ sibling = sibling' := by
  cases side with
  | left =>
    obtain ⟨siblings, nodes⟩ := List.append_inj' (List.cons.inj same).2 length
    exact ⟨nodes, siblings⟩
  | right => exact List.append_inj (List.cons.inj same).2 length

/-- Climbs on the same sides that meet started together, or there is a collision. -/
theorem climb_binds {sides : List Side} {node node' : Bytes} {siblings siblings' : List Bytes}
    (length : node.length = 32) (length' : node'.length = 32)
    (count : siblings.length = sides.length) (count' : siblings'.length = sides.length)
    (meet : climb digest node (sides.zip siblings) = climb digest node' (sides.zip siblings')) :
    node = node' ∧ siblings = siblings' ∨
      Collide digest (climbInputs digest node (sides.zip siblings))
        (climbInputs digest node' (sides.zip siblings')) := by
  induction sides generalizing node node' siblings siblings' with
  | nil =>
    obtain rfl := List.length_eq_zero_iff.1 count
    obtain rfl := List.length_eq_zero_iff.1 count'
    exact .inl ⟨meet, rfl⟩
  | cons side sides ih =>
    obtain ⟨sibling, siblings, rfl⟩ := List.exists_cons_of_length_eq_add_one count
    obtain ⟨sibling', siblings', rfl⟩ := List.exists_cons_of_length_eq_add_one count'
    simp only [List.zip_cons_cons, climb, climbInputs] at meet ⊢
    have later := ih (digest _).length_eq (digest _).length_eq (by simpa using count)
      (by simpa using count') meet
    rcases later with ⟨parents, rest⟩ | collide
    · rcases eq_or_collide (Digest.ext_bytes parents) with inputs | collide
      · obtain ⟨rfl, rfl⟩ := Side.join_inj (length.trans length'.symm) inputs
        exact .inl ⟨rfl, by rw [rest]⟩
      · exact .inr (collide.mono (by simp) (by simp))
    · exact .inr (collide.mono (List.subset_cons_self _ _) (List.subset_cons_self _ _))

/-- At each place of a tree a root accepts one leaf hash with one path, or the two checks hash
different strings to the same digest. -/
theorem verifies_unique (digest : Bytes → Digest) {leafIndex treeSize : UInt64}
    {rootHash leaf leaf' : Bytes} {nodes nodes' : List Bytes} (length : leaf.length = 32)
    (length' : leaf'.length = 32)
    (verified : Proof.verifies digest ⟨leafIndex, treeSize, nodes⟩ rootHash leaf = true)
    (verified' : Proof.verifies digest ⟨leafIndex, treeSize, nodes'⟩ rootHash leaf' = true) :
    leaf = leaf' ∧ nodes = nodes' ∨
      Collide digest (Proof.inputs digest ⟨leafIndex, treeSize, nodes⟩ leaf)
        (Proof.inputs digest ⟨leafIndex, treeSize, nodes'⟩ leaf') := by
  obtain ⟨-, count, arrives⟩ := Proof.verifies_iff.1 verified
  obtain ⟨-, count', arrives'⟩ := Proof.verifies_iff.1 verified'
  simp only [Proof.inputs, walkInputs_eq_climbInputs]
  exact climb_binds length length' count count' (arrives.trans arrives'.symm)

/-- A digest without any strength lets the last of three leaves be exchanged, by a collision. -/
theorem verifies_unique_constant :
    let digest : Bytes → Digest := fun _ => .zero
    let leaf : Bytes := List.replicate 32 1
    let leaf' : Bytes := List.replicate 32 2
    let nodes : List Bytes := [[7]]
    let nodes' : List Bytes := [[8, 8]]
    leaf.length = 32 ∧ leaf'.length = 32 ∧
      Proof.verifies digest ⟨2, 3, nodes⟩ Digest.zero.bytes leaf = true ∧
        Proof.verifies digest ⟨2, 3, nodes'⟩ Digest.zero.bytes leaf' = true ∧
          (leaf = leaf' ∧ nodes = nodes' ∨
            Collide digest (Proof.inputs digest ⟨2, 3, nodes⟩ leaf)
              (Proof.inputs digest ⟨2, 3, nodes'⟩ leaf')) := by
  intro digest leaf leaf' nodes nodes'
  have verified : Proof.verifies digest ⟨2, 3, nodes⟩ Digest.zero.bytes leaf = true := by
    simp [Proof.verifies, Proof.root?, walk, ascend, nodeHash, digest, nodes]
  have verified' : Proof.verifies digest ⟨2, 3, nodes'⟩ Digest.zero.bytes leaf' = true := by
    simp [Proof.verifies, Proof.root?, walk, ascend, nodeHash, digest, nodes']
  exact ⟨rfl, rfl, verified, verified', verifies_unique digest rfl rfl verified verified'⟩

/-! ## A climb and a tree -/

theorem climbInputs_honestSteps_subset (position : Position leaves index) {leaf : Bytes}
    (found : leaves[index]? = some leaf) :
    climbInputs digest (leafHash digest leaf).bytes (honestSteps digest leaves index) ⊆
      treeInputs digest leaves := by
  induction position with
  | leaf only => simp [climbInputs]
  | left many left position ih =>
    have inLeft := (getElem?_leftPart left).trans found
    rw [honestSteps_of_left many left position, climbInputs_append,
      climb_honestSteps digest position inLeft, treeInputs_of_many many]
    simp only [climbInputs, Side.join]
    exact List.append_subset.2 ⟨fun x hx => by simp [ih inLeft hx], by simp⟩
  | right many right inside position ih =>
    have inRight := (getElem?_rightPart right).trans found
    rw [honestSteps_of_right many right inside position, climbInputs_append,
      climb_honestSteps digest position inRight, treeInputs_of_many many]
    simp only [climbInputs, Side.join]
    exact List.append_subset.2 ⟨fun x hx => by simp [ih inRight hx], by simp⟩

theorem leafInput_mem_treeInputs (position : Position leaves index) {leaf : Bytes}
    (found : leaves[index]? = some leaf) : leafInput leaf ∈ treeInputs digest leaves := by
  induction position with
  | leaf only =>
    obtain rfl : only = leaf := by simpa using found
    simp [treeInputs]
  | left many left _ ih =>
    rw [treeInputs_of_many many]
    simp [ih ((getElem?_leftPart left).trans found)]
  | right many right _ _ ih =>
    rw [treeInputs_of_many many]
    simp [ih ((getElem?_rightPart right).trans found)]

/-- A proof that verifies against the root of a tree is about the leaf at its place, or checking it
and building the tree hash different strings to the same digest. -/
theorem root_binds_leaf {p : Proof} {leaf : Bytes} (size : leaves.length = p.treeSize.toNat)
    (verified : p.verifies digest (root digest leaves).bytes (leafHash digest leaf).bytes = true) :
    leaves[p.leafIndex.toNat]? = some leaf ∨
      Collide digest (treeInputs digest leaves)
        (leafInput leaf :: p.inputs digest (leafHash digest leaf).bytes) := by
  obtain ⟨order, count, arrives⟩ := Proof.verifies_iff.1 verified
  have inside : p.leafIndex.toNat < leaves.length := size ▸ UInt64.lt_iff_toNat_lt.1 order
  have position := Position.of_lt inside
  obtain ⟨held, found⟩ : ∃ held, leaves[p.leafIndex.toNat]? = some held :=
    ⟨_, List.getElem?_eq_getElem inside⟩
  have sides : p.sides = Merkle.sides p.leafIndex.toNat (leaves.length - 1) := by
    rw [Proof.sides, size]
  rw [sides] at count arrives
  have honest := climb_honestSteps digest position found
  have bound := climb_binds (leafHash digest held).length_eq (leafHash digest leaf).length_eq
    (by rw [List.length_map, length_path digest position]) count (honest.trans arrives.symm)
  rw [Proof.inputs, walkInputs_eq_climbInputs, ← size]
  rcases bound with ⟨hashes, -⟩ | collide
  · have same : digest (leafInput held) = digest (leafInput leaf) := by
      simpa only [leafHash_eq] using Digest.ext_bytes hashes
    rcases eq_or_collide same with inputs | collide
    · exact .inl (found.trans (congrArg some (List.cons.inj inputs).2))
    · refine .inr (collide.mono ?_ (by simp))
      simpa using leafInput_mem_treeInputs position found
  · exact .inr (collide.mono (climbInputs_honestSteps_subset position found)
      (List.subset_cons_self _ _))

end Transparency.Merkle
