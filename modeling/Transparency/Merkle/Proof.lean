import Transparency.Merkle.Tree

/-!
# Audit proofs

A proof is checked by walking from the leaf to the root. `index` is the place of the current node
on its level and `last` that of the last node; a last node without a sibling moves up unchanged.
-/
namespace Transparency.Merkle

/-- How many siblings the way to the root has. -/
def levels (index last : Nat) : Nat :=
  if last = 0 then 0
  else (if index % 2 ≠ 0 ∨ index ≠ last then 1 else 0) + levels (index / 2) (last / 2)
termination_by last
decreasing_by omega

/-- The length of the audit path of a leaf inside a tree. -/
def pathLength? (leafIndex treeSize : UInt64) : Option Nat :=
  if leafIndex < treeSize then some (levels leafIndex.toNat (treeSize.toNat - 1)) else none

/-- Moves up past the levels on which the node has no sibling. -/
def ascend (index last : Nat) : Nat × Nat :=
  if index % 2 = 0 ∧ index ≠ 0 then ascend (index / 2) (last / 2) else (index, last)
termination_by index
decreasing_by omega

/-- The hash that the siblings lead to from `node`, if they are as many as the way has. -/
def walk (digest : Bytes → Digest) : Nat → Nat → Bytes → List Bytes → Option Bytes
  | _, last, node, [] => if last = 0 then some node else none
  | index, last, node, sibling :: siblings =>
    if last = 0 then none
    else if index % 2 ≠ 0 ∨ index = last then
      let (i, l) := ascend index last
      walk digest (i / 2) (l / 2) (nodeHash digest sibling node).bytes siblings
    else walk digest (index / 2) (last / 2) (nodeHash digest node sibling).bytes siblings

structure Proof where
  leafIndex : UInt64 := 0
  treeSize : UInt64 := 0
  nodes : List Bytes := []
deriving DecidableEq, Inhabited

namespace Proof

inductive Fault
  | outsideTree (leafIndex treeSize : UInt64)
  | wrongLength (actual expected : Nat)
  | notADigest
deriving DecidableEq

def Fault.message? : Fault → Option String
  | outsideTree leafIndex treeSize =>
    some s!"Leaf index {leafIndex.toNat} outside tree of size {treeSize.toNat}"
  | wrongLength actual expected => some s!"Audit path has {actual} nodes, expected {expected}"
  | notADigest => none

/-- Whether the path has the length and the nodes of one, whatever the root. -/
def checkShape (p : Proof) : Except Fault Unit :=
  match pathLength? p.leafIndex p.treeSize with
  | none => .error (.outsideTree p.leafIndex p.treeSize)
  | some expected =>
    if p.nodes.length ≠ expected then .error (.wrongLength p.nodes.length expected)
    else if p.nodes.all fun node => node.length = 32 then .ok ()
    else .error .notADigest

/-- The root that the proof leads to from `leafHash`. -/
def root? (digest : Bytes → Digest) (p : Proof) (leafHash : Bytes) : Option Bytes :=
  if p.leafIndex < p.treeSize then
    walk digest p.leafIndex.toNat (p.treeSize.toNat - 1) leafHash p.nodes
  else none

def verifies (digest : Bytes → Digest) (p : Proof) (root leafHash : Bytes) : Bool :=
  p.root? digest leafHash = some root

end Proof

end Transparency.Merkle
