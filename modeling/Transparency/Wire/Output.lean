import Transparency.Wire.Field

/-!
# Adding to an output

A structure is added to an output field by field, so what stands before a vector that is too long
stays in the output. What is wanted whole or not at all is put together in an output of its own.
-/
namespace Transparency.Wire

/-- A part of writing. It adds to the end of an output unless an assumption breaks. -/
abbrev Adding (α : Type) := StateT Bytes (Except Halt) α

def push (bytes : Bytes) : Adding Unit := modify (· ++ bytes)

/-- Adds a field, or nothing of a vector that is too long for its length prefix. -/
def Field.append : Field → Adding Bool
  | .uint width value => do
    Halt.unless (fits width value) "the value fits its field"
    push (Bytes.bigEndian width value)
    return true
  | .fixed bytes => do
    push bytes
    return true
  | .vector width bytes => do
    Halt.unless (0 < width && width ≤ 8) "the length prefix has one to eight bytes"
    if fits width bytes.length then
      push (Bytes.bigEndian width bytes.length)
      push bytes
      return true
    else return false

/-- Adds fields up to the first that is too long. -/
def append : List Field → Adding Bool
  | [] => return true
  | field :: fields => do
    if ← field.append then append fields else return false

/-- Adds what was put together in an empty output, if all of it could be. -/
def appendStaged (part : Adding Bool) : Adding Bool := do
  let (complete, bytes) ← part.run []
  if complete then push bytes
  return complete

end Transparency.Wire
