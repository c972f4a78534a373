import Transparency.Entry
import Transparency.Sct

/-!
# Leaves of a log's tree

A leaf is a log entry with the time and the extensions of its timestamp.
-/
namespace Transparency

structure Leaf where
  entry : Entry := {}
  timestamp : Instant := .epoch
  extensions : Bytes := []
deriving DecidableEq, Inhabited

namespace Leaf

def fields (leaf : Leaf) : List Wire.Field :=
  [.uint 1 version, .uint 1 0, leaf.timestamp.field] ++ leaf.entry.fields ++
    [.vector 2 leaf.extensions]

def encode (leaf : Leaf) : Except Halt Wire.Encoding := Wire.write leaf.fields

def append (leaf : Leaf) : Wire.Adding Bool := Wire.append leaf.fields

/-- The leaf that `sct` promises: its time and extensions replace those of `leaf`. -/
def bind (leaf : Leaf) (sct : Sct) : Leaf :=
  { leaf with timestamp := sct.timestamp, extensions := sct.extensions }

/-- The hash of a leaf that can be encoded. -/
def hash? (digest : Bytes → Digest) (leaf : Leaf) : Except Halt (Option Digest) :=
  leaf.encode.map fun e => if e.complete then some (digest (0 :: e.bytes)) else none

/-- Puts the hash of a leaf that can be encoded in place of an output. -/
def putHash (digest : Bytes → Digest) (leaf : Leaf) : Wire.Adding Bool := do
  let (complete, bytes) ← leaf.append.run [0]
  if complete then set (digest bytes).bytes
  return complete

end Leaf

end Transparency
