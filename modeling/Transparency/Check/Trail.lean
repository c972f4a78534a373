import Transparency.Journal
import Transparency.Provider

/-!
# Checks as computations

A check reads and changes its surroundings, leaves a trail of notes and requests, and ends with a
value unless an assumption breaks. What is written of the notes is decided afterwards, from the
thresholds, since nothing that a check does depends on them.
-/
namespace Transparency

inductive Event
  | note (note : Journal.Note)
  | request (request : ProofRequest) (watched : Bool)

structure Trail (σ α : Type) where
  events : List Event
  outcome : Except Halt (α × σ)

def Check (σ α : Type) : Type := σ → Trail σ α

namespace Check

variable {σ α β : Type}

def pure (a : α) : Check σ α := fun s => ⟨[], .ok (a, s)⟩

def bind (x : Check σ α) (f : α → Check σ β) : Check σ β := fun s =>
  match x s with
  | ⟨events, .error halt⟩ => ⟨events, .error halt⟩
  | ⟨events, .ok (a, s)⟩ =>
    let later := f a s
    ⟨events ++ later.events, later.outcome⟩

instance : Monad (Check σ) where
  pure := pure
  bind := bind

def note (n : Journal.Note) : Check σ Unit := fun s => ⟨[.note n], .ok ((), s)⟩

def tell (text : String) : Check σ Unit := note (.verbose text)

/-- Notes a text that is made only if it is written. -/
def tellLazily (text : Except Halt String) : Check σ Unit := note ⟨.verbose 1, text⟩

def tellAll (texts : List String) : Check σ Unit := fun s =>
  ⟨texts.map fun text => .note (.verbose text), .ok ((), s)⟩

def read (f : σ → α × σ) : Check σ α := fun s => ⟨[], .ok (f s)⟩

def ofExcept (x : Except Halt α) : Check σ α := fun s => ⟨[], x.map (·, s)⟩

/-- Asks a provider. -/
def ask (provider : Provider σ) (r : ProofRequest) (watched : Bool) : Check σ ProofReply := fun s =>
  ⟨[.request r watched], .ok (provider r watched s)⟩

end Check

namespace Trail

variable {σ α : Type}

/-- What a check shows at some thresholds: the messages and requests up to its end, which may be a
note whose text breaks an assumption. -/
structure Observation (σ α : Type) where
  messages : List Journal.Message
  requests : List (ProofRequest × Bool)
  outcome : Except Halt (α × σ)

def observe (l : Journal.Levels) (outcome : Except Halt (α × σ)) :
    List Event → Observation σ α
  | [] => ⟨[], [], outcome⟩
  | .request r watched :: events =>
    let later := observe l outcome events
    { later with requests := (r, watched) :: later.requests }
  | .note n :: events =>
    if l.admits n.channel then
      match n.text with
      | .error halt => ⟨[], [], .error halt⟩
      | .ok text =>
        let later := observe l outcome events
        { later with messages := ⟨n.channel.toSeverity, text⟩ :: later.messages }
    else observe l outcome events

def observed (l : Journal.Levels) (t : Trail σ α) : Observation σ α := observe l t.outcome t.events

/-- The requests of a check, in order. -/
def requests (t : Trail σ α) : List (ProofRequest × Bool) :=
  t.events.filterMap fun
    | .request r watched => some (r, watched)
    | .note _ => none

end Trail

end Transparency
