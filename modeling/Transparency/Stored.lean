/-!
# Stored results

A result is stored in the place of a value that is already there. A failure keeps that value. What
is made up step by step is made up apart, so that no part of it is stored before the last step.
-/
namespace Transparency

structure Stored (α : Type) where
  value : α
  accepted : Bool
deriving DecidableEq

def store {α : Type} (prior : α) : Option α → Stored α
  | some a => ⟨a, true⟩
  | none => ⟨prior, false⟩

/-! ## In place -/

/-- Changes a value that is already there, and may fail halfway. -/
abbrev Filling (ε α β : Type) := ExceptT ε (StateM α) β

/-- Fills in `start` apart, and puts it in place of the value once it is whole. -/
def Filling.staged {ε α : Type} (start : α) (part : Filling ε α Unit) : Filling ε α Unit := do
  let (outcome, made) := part.run.run start
  MonadExcept.ofExcept outcome
  set made

end Transparency
