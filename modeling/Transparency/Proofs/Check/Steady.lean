import Transparency.Proofs.Check.Outcome

/-!
# Checks in steady surroundings

While the clock stands still, and whoever gives proofs answers each request the same way, the check
of one timestamp has one result, whenever it is made.
-/
namespace Transparency

namespace Check

variable {σ α β : Type} {kept : σ → Prop}

/-- From every state with a property the computation ends with `a`, and the property is kept. -/
def Returns (kept : σ → Prop) (x : Check σ α) (a : α) : Prop :=
  ∀ s, kept s → ∃ t, (x s).outcome = .ok (a, t) ∧ kept t

theorem returns_pure (a : α) : Returns kept (Pure.pure a) a := fun s holds => ⟨s, rfl, holds⟩

theorem Returns.bind {x : Check σ α} {f : α → Check σ β} {a : α} {b : β}
    (first : Returns kept x a) (rest : Returns kept (f a) b) : Returns kept (x >>= f) b := by
  intro s holds
  obtain ⟨t, ends, holds⟩ := first s holds
  obtain ⟨u, ends', holds⟩ := rest t holds
  exact ⟨u, by rw [outcome_bind, ends]; exact ends', holds⟩

theorem returns_tellLazily (text : Except Halt String) : Returns kept (tellLazily text) () :=
  fun s holds => ⟨s, rfl, holds⟩

theorem returns_tellAll (texts : List String) : Returns kept (tellAll texts) () :=
  fun s holds => ⟨s, rfl, holds⟩

theorem returns_ofExcept (a : α) : Returns kept (ofExcept (.ok a)) a :=
  fun s holds => ⟨s, rfl, holds⟩

end Check

namespace Surroundings

variable {σ α : Type}

/-- While no flag is watched the clock stands still, and a reply depends on nothing but the
request. -/
structure Steady (u : Surroundings σ) : Prop extends u.Still false where
  replies : ∀ provider ∈ u.provider, ∀ request s t,
    (provider request false s).1 = (provider request false t).1

/-- The value of a step depends on nothing but the clock, which the step leaves alone. -/
def Respects (u : Surroundings σ) (step : σ → α × σ) : Prop :=
  ∀ s t, (u.now s).1 = (u.now t).1 →
    (step s).1 = (step t).1 ∧ (u.now (step s).2).1 = (u.now s).1

end Surroundings

namespace Checker

variable {σ : Type} {c : Checker σ}

theorem respects_included (steady : c.surroundings.Steady) (log : Log) (sct : Sct)
    (leafHash? : Option Digest) :
    c.surroundings.Respects (c.included false log sct leafHash?) := by
  intro s t time
  unfold included
  cases leafHash? with
  | none => exact ⟨rfl, rfl⟩
  | some leafHash =>
    cases provided : c.surroundings.provider with
    | none => exact ⟨rfl, rfl⟩
    | some provider =>
      -- No flag is watched, so the clock is read at once.
      change c.convinces log sct leafHash (provider (c.request log sct leafHash
          (c.surroundings.now s).1) false (c.surroundings.now s).2).1 =
          c.convinces log sct leafHash (provider (c.request log sct leafHash
            (c.surroundings.now t).1) false (c.surroundings.now t).2).1 ∧ _
      rw [← time]
      have reply := steady.replies provider provided
        (c.request log sct leafHash (c.surroundings.now s).1) (c.surroundings.now s).2
        (c.surroundings.now t).2
      exact ⟨congrArg (c.convinces log sct leafHash) reply,
        (steady.ask provider provided _ _).trans (steady.clock s)⟩

theorem respects_judgement (steady : c.surroundings.Steady) (log : Log) (sct : Sct) (leaf : Leaf) :
    c.surroundings.Respects (c.judgement false log sct leaf) := by
  intro s t time
  have later : (c.surroundings.now (c.surroundings.now s).2).1 =
      (c.surroundings.now (c.surroundings.now t).2).1 := by
    rw [steady.clock s, steady.clock t, time]
  obtain ⟨same, still⟩ :=
    respects_included steady log sct ((leaf.bind sct).hash c.suite.digest) _ _ later
  unfold judgement
  dsimp only
  rw [← time]
  split
  · exact ⟨rfl, steady.clock s⟩
  · exact ⟨by simp only [same], still.trans (steady.clock s)⟩

theorem respects_knownVerdict (steady : c.surroundings.Steady) (log : Log) (sct : Sct)
    (leaf : Leaf) : c.surroundings.Respects (c.knownVerdict false log sct leaf) := by
  intro s t time
  unfold knownVerdict
  split
  · exact respects_judgement steady log sct leaf s t time
  · exact ⟨rfl, rfl⟩

theorem respects_verdict (steady : c.surroundings.Steady) (bytes : Bytes) (leaf : Leaf) :
    c.surroundings.Respects (c.verdict false bytes leaf) := by
  intro s t time
  unfold verdict
  cases Sct.decodeWhole bytes with
  | error fault => exact ⟨rfl, rfl⟩
  | ok sct =>
    dsimp only
    cases c.registry.find? sct.logId with
    | none => exact ⟨rfl, rfl⟩
    | some log =>
      obtain ⟨same, still⟩ := respects_knownVerdict steady log
        { sct with logDescription := log.description } leaf s t time
      exact ⟨by simp only [same], still⟩

/-- The states in which a check is made at the time of `s`. -/
def During (c : Checker σ) (s t : σ) : Prop :=
  (c.surroundings.now t).1 = (c.surroundings.now s).1

theorem returns_checkOne (steady : c.surroundings.Steady) (bytes : Bytes) (leaf : Leaf) (s : σ) :
    Check.Returns (c.During s) (c.checkOne false bytes leaf) (c.verdict false bytes leaf s).1 := by
  intro t time
  obtain ⟨same, still⟩ := respects_verdict steady bytes leaf t s time
  refine ⟨(c.verdict false bytes leaf t).2, ?_, still.trans time⟩
  rw [outcome_checkOne, ← same]

end Checker

end Transparency
