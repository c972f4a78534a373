import Transparency.Wire.Reader

/-!
# Reading in place

The readers of nested structures take their fields off the front of one input, which they share. One
that fails halfway has to put back what was taken. A value is filled in when all of it is taken.
-/
namespace Transparency.Wire

/-- The input as far as it is not taken yet, and the value that is to be filled in. -/
structure Intake (α : Type) where
  rest : Bytes
  value : α
deriving DecidableEq

/-- A part of reading. One that fails leaves the intake as it was at that point. -/
abbrev Taking (ε α β : Type) := ExceptT ε (StateM (Intake α)) β

namespace Taking

variable {ε α β : Type}

/-- Takes a number, or nothing if there are too few bytes. -/
def uint (fault : ε) (width : Nat) : Taking ε α Nat := do
  let intake ← get
  if Bytes.hasAtLeast width intake.rest then
    set { intake with rest := intake.rest.drop width }
    return Bytes.toNat (intake.rest.take width)
  else throw fault

/-- Takes `n` bytes, or nothing if there are too few. -/
def fixed (fault : ε) (n : Nat) : Taking ε α Bytes := do
  let intake ← get
  if Bytes.hasAtLeast n intake.rest then
    set { intake with rest := intake.rest.drop n }
    return intake.rest.take n
  else throw fault

/-- Puts `saved` back for the input if a part of reading fails. -/
def restoring (saved : Bytes) (part : Taking ε α β) : Taking ε α β := fun intake =>
  match part intake with
  | (.ok b, left) => (.ok b, left)
  | (.error fault, left) => (.error fault, { left with rest := saved })

/-- Takes bytes after their length, which takes `width` bytes. -/
def vector (fault : ε) (width : Nat) : Taking ε α Bytes := do
  let saved := (← get).rest
  restoring saved do
    let n ← uint fault width
    fixed fault n

/-- Fills in the value that is taken. -/
def fill (part : Taking ε α α) : Taking ε α Unit := do
  let value ← part
  modify fun intake => { intake with value }

/-- Takes from an input of its own, and keeps nothing but the result. -/
def within (bytes : Bytes) (part : Taking ε Unit β) : Taking ε α β := fun intake =>
  ((part ⟨bytes, ()⟩).1, intake)

/-- What a part of reading leaves of an input that is not shared; the state has no share in it. -/
def apart {σ : Type} (bytes : Bytes) (value : α) (part : Taking ε α Unit) :
    ExceptT ε (StateM σ) (Intake α) := fun s =>
  let (outcome, left) := part ⟨bytes, value⟩
  (outcome.map fun _ => left, s)

end Taking

end Transparency.Wire
