import Transparency.Key.Reader
import Transparency.Registry.Deferred

/-!
# Answers of registries built on demand

The first caller settles what all others get: the list is loaded once, for the first of them, and
nothing changes after that.
-/
namespace Transparency

variable {suite : Suite}

theorem Registry.isSome_registry_iff (listings : List Listing) :
    (create suite listings).registry.isSome = true ↔ (create suite listings).code = .ok := by
  unfold create
  split <;> simp

namespace DeferredRegistry

variable {d : DeferredRegistry} {built outcome : Registry.Built} {loader : Option (Nat → Loaded)}

/-- Whether `outcome` is what the first answer of a loader makes. -/
structure Settles (suite : Suite) (loader : Option (Nat → Loaded))
    (outcome : Registry.Built) : Prop where
  loaded : ∀ load, loader = some load → (load 0).available = true →
    outcome = Registry.create suite (load 0).listings
  unavailable : (∀ load, loader = some load → (load 0).available = false) →
    outcome.registry = none ∧ outcome.code = .invalidLogList

/-- What is kept once an outcome is settled. -/
def settled (loader : Option (Nat → Loaded)) (outcome : Registry.Built) : DeferredRegistry where
  loader := loader
  calls := if loader.isSome then 1 else 0
  built := some outcome

/-- What every caller gets of an outcome. -/
def shown (outcome : Registry.Built) (place : Option Int) : Option Registry × Option Int :=
  (outcome.registry, place.map fun _ => outcome.code.toInt)

/-! ## The first caller -/

theorem exists_settles (suite : Suite) (loader : Option (Nat → Loaded)) :
    ∃ outcome, Settles suite loader outcome ∧
      (outcome.registry.isSome = true ↔ outcome.code = .ok) ∧
      get suite { loader } = (outcome, settled loader outcome) := by
  cases loader with
  | none => exact ⟨unavailable, ⟨nofun, fun _ => ⟨rfl, rfl⟩⟩, by simp [unavailable], rfl⟩
  | some load =>
    cases available : (load 0).available with
    | true =>
      refine ⟨Registry.create suite (load 0).listings, ⟨?_, fun none => ?_⟩,
        Registry.isSome_registry_iff _, ?_⟩
      · rintro _ ⟨⟩ _
        rfl
      · cases available.symm.trans (none load rfl)
      · simp [get, build, settled, available]
    | false =>
      refine ⟨unavailable, ⟨?_, fun _ => ⟨rfl, rfl⟩⟩, by simp [unavailable], ?_⟩
      · rintro _ ⟨⟩ available'
        cases available.symm.trans available'
      · simp [get, build, settled, available]

/-! ## All callers -/

theorem run_answer (suite : Suite) (place : Option Int) (d : DeferredRegistry) :
    (answer suite place).run d =
      (⟨(get suite d).1.registry, place.map fun _ => (get suite d).1.code.toInt,
        (get suite d).1.notes⟩, (get suite d).2) := rfl

theorem run_answerAll_cons (suite : Suite) (place : Option Int)
    (places : List (Option Int)) (d : DeferredRegistry) :
    (answerAll suite (place :: places)).run d =
      let first := (answer suite place).run d
      let later := (answerAll suite places).run first.2
      (first.1 :: later.1, later.2) := by
  rw [answerAll, List.mapM_cons]
  rfl

/-- Once there is an outcome, it is what all callers get, and nothing changes. -/
theorem run_answerAll_of_built (suite : Suite) (kept : d.built = some outcome)
    (places : List (Option Int)) :
    ((answerAll suite places).run d).1.map (fun a => (a.registry, a.place)) =
        places.map (shown outcome) ∧
      ((answerAll suite places).run d).2 = d := by
  induction places with
  | nil => exact ⟨rfl, rfl⟩
  | cons place places ih =>
    have again : get suite d = ({ outcome with notes := [] }, d) := by rw [get, kept]
    rw [run_answerAll_cons, run_answer, again]
    exact ⟨congrArg (shown outcome place :: ·) ih.1, ih.2⟩

/-- Whoever asks, and however often, all get the outcome that the first answer of the loader makes.
The loader is called for the first of them alone, and nothing is kept before that. -/
theorem answerAll_settled (suite : Suite) (loader : Option (Nat → Loaded)) :
    ∃ outcome, Settles suite loader outcome ∧
      (outcome.registry.isSome = true ↔ outcome.code = .ok) ∧
      ∀ places, let ran := (answerAll suite places).run { loader }
        ran.1.map (fun a => (a.registry, a.place)) =
          places.map (fun place => (outcome.registry, place.map fun _ => outcome.code.toInt)) ∧
        ran.2 = if places = [] then { loader } else settled loader outcome := by
  obtain ⟨outcome, settles, usable, first⟩ := exists_settles suite loader
  refine ⟨outcome, settles, usable, fun places => ?_⟩
  cases places with
  | nil => exact ⟨rfl, rfl⟩
  | cons place places =>
    have kept : (settled loader outcome).built = some outcome := rfl
    obtain ⟨later, after⟩ := run_answerAll_of_built suite kept places
    dsimp only
    rw [run_answerAll_cons, run_answer, first]
    exact ⟨congrArg (shown outcome place :: ·) later, after⟩

/-- A loader that has a log from its second call on and until then claims to have none, although it
lists it: no caller gets a registry, and only those that offer a place get the code. -/
theorem answerAll_settled_late :
    let load : Nat → Loaded := fun n =>
      { available := n ≠ 0, listings := [{ description := "late" }] }
    let ran := (answerAll .standard [some 777, none, some 0]).run { loader := some load }
    ran.1.map (fun a => (a.registry, a.place)) =
        [(none, some (-200)), (none, none), (none, some (-200))] ∧
      ran.2.calls = 1 := by
  intro load ran
  obtain ⟨outcome, settles, -, all⟩ := answerAll_settled .standard (some load)
  obtain ⟨registry, code⟩ := settles.unavailable (by simp [load])
  obtain ⟨answers, after⟩ := all [some 777, none, some 0]
  rw [registry, code] at answers
  exact ⟨answers, congrArg calls after⟩

end DeferredRegistry

end Transparency
