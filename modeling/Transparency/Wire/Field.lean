import Transparency.Bytes
import Transparency.Journal

/-!
# Writing structures

A structure is written field by field. Writing stops at a vector that is too long for its length
prefix and keeps the fields before it; a number too wide for its field is a broken assumption.
-/
namespace Transparency.Wire

inductive Field
  | uint (width value : Nat)
  | fixed (bytes : Bytes)
  /-- Bytes after their length, which takes `width` bytes. -/
  | vector (width : Nat) (bytes : Bytes)

/-- What writing leaves. -/
structure Encoding where
  bytes : Bytes
  complete : Bool
deriving DecidableEq

/-- Whether a number takes at most `width` bytes. -/
def fits (width value : Nat) : Bool := value < 256 ^ width

def Encoding.after (head : Bytes) (e : Encoding) : Encoding :=
  { e with bytes := head ++ e.bytes }

def write : List Field → Except Halt Encoding
  | [] => .ok ⟨[], true⟩
  | .uint width value :: fields => do
    Halt.unless (fits width value) "the value fits its field"
    return (← write fields).after (Bytes.bigEndian width value)
  | .fixed bytes :: fields => do
    return (← write fields).after bytes
  | .vector width bytes :: fields => do
    Halt.unless (0 < width && width ≤ 8) "the length prefix has one to eight bytes"
    if fits width bytes.length then
      return (← write fields).after (Bytes.bigEndian width bytes.length ++ bytes)
    else
      return ⟨[], false⟩

/-- What was there before, with an encoding after it. -/
def Encoding.onto (prior : Bytes) (e : Encoding) : Bytes := prior ++ e.bytes

/-- Keeps an encoding only if it is complete. -/
def Encoding.staged (e : Encoding) : Encoding :=
  if e.complete then e else ⟨[], false⟩

end Transparency.Wire
