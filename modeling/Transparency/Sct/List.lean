import Transparency.Wire.Intake
import Transparency.Wire.Output

/-!
# Lists of serialized timestamps

A list is one vector of vectors. Reading refuses the empty list, empty items and bytes after the
list; writing refuses only what is too long, and then writes nothing.
-/
namespace Transparency.SctList

inductive Fault
  | truncated
  | malformedItem
  | noItems
  | trailing
deriving DecidableEq

def Fault.message? : Fault → Option String
  | malformedItem => some "Malformed list item."
  | _ => none

/-- Reads at most `fuel` items, which have to end where the input does. -/
def items? : Nat → Bytes → Option (List Bytes)
  | _, [] => some []
  | 0, _ => none
  | fuel + 1, bs =>
    match Wire.vector? 2 bs with
    | none => none
    | some (item, rest) =>
      if item.isEmpty then none else (items? fuel rest).map (item :: ·)

def decode (bs : Bytes) : Except Fault (List Bytes) :=
  match Wire.vector? 2 bs with
  | none => .error .truncated
  | some (list, rest) =>
    match items? list.length list with
    | none => .error .malformedItem
    | some items =>
      if !rest.isEmpty then .error .trailing
      else if items.isEmpty then .error .noItems
      else .ok items

/-! ## In place -/

/-- Takes at most `fuel` items, which have to end where the input does. -/
def takeItems : Nat → Wire.Taking Fault Unit (List Bytes)
  | 0 => do
    if (← get).rest.isEmpty then return [] else throw .malformedItem
  | fuel + 1 => do
    if (← get).rest.isEmpty then return []
    let item ← Wire.Taking.vector .malformedItem 2
    if item.isEmpty then throw .malformedItem
    return item :: (← takeItems fuel)

/-- Takes a list that may be empty. -/
def take {α : Type} : Wire.Taking Fault α (List Bytes) := do
  let saved := (← get).rest
  let list ← Wire.Taking.vector .truncated 2
  Wire.Taking.restoring saved do
    (takeItems list.length).within list

/-- Reads a list over one that is there. -/
def receive (bs : Bytes) : ExceptT Fault (StateM (List Bytes)) Unit := do
  let left ← take.fill.apart bs []
  unless left.rest.isEmpty do throw .trailing
  if left.value.isEmpty then throw .noItems
  set left.value

/-! ## Writing -/

def encode (items : List Bytes) : Except Halt Wire.Encoding := do
  let list ← Wire.write (items.map (.vector 2 ·))
  if list.complete then (Wire.write [.vector 2 list.bytes]).map (·.staged)
  else return ⟨[], false⟩

def append (items : List Bytes) : Wire.Adding Bool := do
  let (complete, list) ← (Wire.append (items.map (.vector 2 ·))).run []
  if complete then Wire.append [.vector 2 list] else return false

end Transparency.SctList
