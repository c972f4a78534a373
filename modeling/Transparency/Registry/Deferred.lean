import Transparency.Registry

/-!
# Registries built on demand

The list of logs is loaded when the registry is first asked for, and never again: every later
answer is the first one.
-/
namespace Transparency

/-- What a loader yields, and whether it claims success. -/
structure Loaded where
  available : Bool
  listings : List Listing

structure DeferredRegistry where
  /-- The answer of the loader to each of its calls. -/
  loader : Option (Nat → Loaded)
  calls : Nat := 0
  built : Option Registry.Built := none

namespace DeferredRegistry

def unavailable : Registry.Built :=
  ⟨none, .invalidLogList, [.error "Unable to load the CT log list."]⟩

def build (suite : Suite) (d : DeferredRegistry) : Registry.Built × DeferredRegistry :=
  match d.loader with
  | none => (unavailable, { d with built := some unavailable })
  | some load =>
    let loaded := load d.calls
    let built := if loaded.available then Registry.create suite loaded.listings else unavailable
    (built, { d with calls := d.calls + 1, built := some built })

/-- The registry; only the first answer comes with notes. -/
def get (suite : Suite) (d : DeferredRegistry) : Registry.Built × DeferredRegistry :=
  match d.built with
  | some built => ({ built with notes := [] }, d)
  | none => d.build suite

/-! ## Callers -/

/-- What a caller gets: the registry, and its place for the code as it is then. -/
structure Answer where
  registry : Option Registry
  place : Option Int
  notes : List Journal.Note

/-- Answers a caller, and puts the code into the place that it offers, if it offers one. -/
def answer (suite : Suite) (place : Option Int) : StateM DeferredRegistry Answer := do
  let built ← modifyGet (DeferredRegistry.get suite)
  return ⟨built.registry, place.map fun _ => built.code.toInt, built.notes⟩

/-- Answers callers one after another. -/
def answerAll (suite : Suite) (places : List (Option Int)) :
    StateM DeferredRegistry (List Answer) :=
  places.mapM (answer suite)

end DeferredRegistry

end Transparency
