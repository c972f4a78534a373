import Transparency.Merkle.Proof

/-!
# The way to the root

On its way to the root a node meets one sibling for each level on which it has one. The sides on
which they stand depend on the place of the leaf and the size of the tree alone, and two readings
of them agree: level by level, as a proof is checked, and split by split, as the tree is built.
-/
namespace Transparency.Merkle

/-- The string that is hashed for a leaf. -/
def leafInput (leaf : Bytes) : Bytes := 0 :: leaf

/-- The string that is hashed for a node. -/
def nodeInput (left right : Bytes) : Bytes := 1 :: left ++ right

theorem leafHash_eq (digest : Bytes → Digest) (leaf : Bytes) :
    leafHash digest leaf = digest (leafInput leaf) := rfl

theorem nodeHash_eq (digest : Bytes → Digest) (left right : Bytes) :
    nodeHash digest left right = digest (nodeInput left right) := rfl

/-- Where a sibling stands. -/
inductive Side
  | left
  | right
deriving DecidableEq

/-- The string that is hashed for the parent of `node` and its sibling. -/
def Side.join (side : Side) (node sibling : Bytes) : Bytes :=
  match side with
  | left => nodeInput sibling node
  | right => nodeInput node sibling

/-! ## Level by level -/

/-- Where the next sibling stands, and the place of the parent on its level. -/
def turn (index last : Nat) : Side × Nat × Nat :=
  if index % 2 ≠ 0 ∨ index = last then
    let (i, l) := ascend index last
    (.left, i / 2, l / 2)
  else (.right, index / 2, last / 2)

/-- The side of the sibling on a node's own level, if it has one there. -/
def levelSides (index last : Nat) : List Side :=
  if index % 2 ≠ 0 then [.left] else if index = last then [] else [.right]

/-- The sides of all siblings, from the leaf upward. -/
def sides (index last : Nat) : List Side :=
  if last = 0 then [] else levelSides index last ++ sides (index / 2) (last / 2)
termination_by last
decreasing_by omega

@[simp] theorem sides_zero (index : Nat) : sides index 0 = [] := by
  rw [sides, if_pos rfl]

theorem sides_of_inner (index last : Nat) (inner : last ≠ 0) :
    sides index last = levelSides index last ++ sides (index / 2) (last / 2) := by
  rw [sides, if_neg inner]

theorem ascend_of_odd {index last : Nat} (odd : index % 2 ≠ 0) :
    ascend index last = (index, last) := by
  rw [ascend, if_neg (by omega)]

theorem ascend_of_even {index last : Nat} (even : index % 2 = 0) (inner : index ≠ 0) :
    ascend index last = ascend (index / 2) (last / 2) := by
  rw [ascend, if_pos ⟨even, inner⟩]

theorem turn_of_odd {index last : Nat} (odd : index % 2 ≠ 0) :
    turn index last = (.left, index / 2, last / 2) := by
  rw [turn, if_pos (.inl odd), ascend_of_odd odd]

/-- A last node without a sibling is passed on to the level above. -/
theorem turn_of_alone {last : Nat} (even : last % 2 = 0) (inner : last ≠ 0) :
    turn last last = turn (last / 2) (last / 2) := by
  rw [turn, turn, if_pos (.inr rfl), if_pos (.inr rfl), ascend_of_even even inner]

theorem turn_of_even {index last : Nat} (even : index % 2 = 0) (other : index ≠ last) :
    turn index last = (.right, index / 2, last / 2) := by
  rw [turn, if_neg (by omega)]

theorem sides_eq_cons (index : Nat) {last : Nat} (inner : last ≠ 0) :
    sides index last =
      (turn index last).1 :: sides (turn index last).2.1 (turn index last).2.2 := by
  induction last using Nat.strongRecOn generalizing index with
  | ind last ih =>
    rw [sides_of_inner index last inner, levelSides]
    by_cases odd : index % 2 ≠ 0
    · rw [if_pos odd, turn_of_odd odd, List.singleton_append]
    · rw [if_neg odd]
      by_cases alone : index = last
      · subst alone
        rw [if_pos rfl, turn_of_alone (by omega) inner, List.nil_append]
        exact ih (index / 2) (by omega) (index / 2) (by omega)
      · rw [if_neg alone, turn_of_even (by omega) alone, List.singleton_append]

theorem levels_eq_length_sides (index last : Nat) :
    levels index last = (sides index last).length := by
  fun_induction levels index last with
  | case1 index => simp
  | case2 index last inner ih =>
    rw [sides_of_inner index last inner, List.length_append, ← ih, levelSides]
    grind

/-! ## The walk -/

/-- The hash that a node and its siblings lead to. -/
def climb (digest : Bytes → Digest) : Bytes → List (Side × Bytes) → Bytes
  | node, [] => node
  | node, (side, sibling) :: steps => climb digest (digest (side.join node sibling)).bytes steps

theorem climb_append (digest : Bytes → Digest) (node : Bytes) (steps later : List (Side × Bytes)) :
    climb digest node (steps ++ later) = climb digest (climb digest node steps) later := by
  induction steps generalizing node with
  | nil => rfl
  | cons step steps ih => exact ih _

theorem walk_cons (digest : Bytes → Digest) (index : Nat) {last : Nat} (inner : last ≠ 0)
    (node sibling : Bytes) (siblings : List Bytes) :
    walk digest index last node (sibling :: siblings) =
      walk digest (turn index last).2.1 (turn index last).2.2
        (digest ((turn index last).1.join node sibling)).bytes siblings := by
  rw [walk, if_neg inner, turn]
  split <;> simp only [nodeHash_eq, Side.join]

/-- A walk arrives exactly if it has one sibling for each side. -/
theorem walk_eq_climb (digest : Bytes → Digest) (index last : Nat) (node : Bytes)
    (siblings : List Bytes) :
    walk digest index last node siblings =
      if siblings.length = (sides index last).length then
        some (climb digest node ((sides index last).zip siblings))
      else none := by
  induction siblings generalizing index last node with
  | nil =>
    by_cases inner : last = 0
    · subst inner; simp [walk, climb]
    · simp [walk, inner, sides_eq_cons index inner]
  | cons sibling siblings ih =>
    by_cases inner : last = 0
    · subst inner; simp [walk]
    · rw [walk_cons digest index inner, ih, sides_eq_cons index inner]
      simp [climb]

/-! ## Split by split -/

theorem sides_of_lt_pow {m index last : Nat} (left : index < 2 ^ m) (le : 2 ^ m ≤ last)
    (lt : last < 2 ^ (m + 1)) :
    sides index last = sides index (2 ^ m - 1) ++ [.right] := by
  induction m generalizing index last with
  | zero =>
    obtain rfl : index = 0 := by omega
    obtain rfl : last = 1 := by omega
    rw [sides_of_inner 0 1 (by omega)]
    simp [levelSides]
  | succ m ih =>
    rw [Nat.pow_succ] at left le lt ⊢
    have positive : 0 < 2 ^ m := Nat.two_pow_pos m
    have half : (2 ^ m * 2 - 1) / 2 = 2 ^ m - 1 := by omega
    have above := @ih (index / 2) (last / 2) (by omega) (by omega) (by omega)
    -- Neither a node of the whole tree nor one of its full left part is both even and last.
    have level : levelSides index last = levelSides index (2 ^ m * 2 - 1) := by grind [levelSides]
    rw [sides_of_inner index last (by omega), above, level, ← List.append_assoc,
      sides_of_inner index (2 ^ m * 2 - 1) (by omega), half]

/-- On a level the right part of a tree looks like a tree of its own. -/
theorem levelSides_sub {k index last : Nat} (right : k * 2 ≤ index) (le : index ≤ last) :
    levelSides (index - k * 2) (last - k * 2) = levelSides index last := by
  grind [levelSides]

theorem sides_of_pow_le {m index last : Nat} (right : 2 ^ m ≤ index) (le : index ≤ last)
    (lt : last < 2 ^ (m + 1)) :
    sides index last = sides (index - 2 ^ m) (last - 2 ^ m) ++ [.left] := by
  induction m generalizing index last with
  | zero =>
    obtain rfl : index = 1 := by omega
    obtain rfl : last = 1 := by omega
    rw [sides_of_inner 1 1 (by omega)]
    simp [levelSides]
  | succ m ih =>
    rw [Nat.pow_succ] at right lt ⊢
    have positive : 0 < 2 ^ m := Nat.two_pow_pos m
    have halfIndex : (index - 2 ^ m * 2) / 2 = index / 2 - 2 ^ m := by omega
    have halfLast : (last - 2 ^ m * 2) / 2 = last / 2 - 2 ^ m := by omega
    have above := @ih (index / 2) (last / 2) (by omega) (by omega) (by omega)
    rw [sides_of_inner index last (by omega), above, ← levelSides_sub right le, ← halfIndex,
      ← halfLast, ← List.append_assoc]
    congr 1
    by_cases inner : last - 2 ^ m * 2 = 0
    · -- The right part is one leaf, which meets no sibling below the split.
      have first : index - 2 ^ m * 2 = 0 := by omega
      simp [inner, first, levelSides]
    · rw [← sides_of_inner _ _ inner]

theorem sides_of_lt_splitPoint {index n : Nat} (many : 1 < n) (left : index < splitPoint n) :
    sides index (n - 1) = sides index (splitPoint n - 1) ++ [.right] := by
  have below := splitPoint_lt many
  have above := le_two_mul_splitPoint many
  unfold splitPoint at *
  exact sides_of_lt_pow left (by omega) (by rw [Nat.pow_succ]; omega)

theorem sides_of_splitPoint_le {index n : Nat} (right : splitPoint n ≤ index) (inside : index < n) :
    sides index (n - 1) = sides (index - splitPoint n) (n - splitPoint n - 1) ++ [.left] := by
  have positive := splitPoint_pos n
  have above := le_two_mul_splitPoint (n := n) (by omega)
  rw [Nat.sub_right_comm]
  unfold splitPoint at *
  exact sides_of_pow_le right (by omega) (by rw [Nat.pow_succ]; omega)

end Transparency.Merkle
