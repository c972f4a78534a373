import Transparency.Check.Trail

/-!
# What a check exchanges with its provider

The state of a check changes by what it reads of its surroundings and by what the provider answers,
and nothing is asked once the flag is set. So a check is told by its end and by its exchanges.
-/
namespace Transparency

/-- A request and the reply to it. -/
structure Exchange where
  request : ProofRequest
  reply : ProofReply

/-! ## Ways -/

namespace Surroundings

variable {σ : Type} {u : Surroundings σ} {watched : Bool} {s t v : σ} {es es' : List Exchange}

/-- The look at the clock that goes with a request, which follows on the one at the flag. -/
def asking (u : Surroundings σ) (watched : Bool) (s : σ) : Instant × σ :=
  u.now (u.flagged watched s).2

/-- The way from one state to another through readings and through what the provider answers. Before
each request the flag is found unset, and then the clock is read. -/
inductive Way (u : Surroundings σ) (watched : Bool) : σ → List Exchange → σ → Prop
  | done {s : σ} : Way u watched s [] s
  | clock {s t : σ} {es : List Exchange} (rest : Way u watched (u.now s).2 es t) :
      Way u watched s es t
  | flag {s t : σ} {es : List Exchange} (rest : Way u watched (u.flagged watched s).2 es t) :
      Way u watched s es t
  | ask {s t v : σ} {provider : Provider σ} {e : Exchange} {es : List Exchange}
      (provided : u.provider = some provider) (unset : (u.flagged watched s).1 = false)
      (answered : provider e.request watched (u.asking watched s).2 = (e.reply, t))
      (rest : Way u watched t es v) : Way u watched s (e :: es) v

theorem Way.append (first : u.Way watched s es t) (rest : u.Way watched t es' v) :
    u.Way watched s (es ++ es') v := by
  induction first with
  | done => exact rest
  | clock _ ih => exact .clock (ih rest)
  | flag _ ih => exact .flag (ih rest)
  | ask provided unset answered _ ih => exact .ask provided unset answered (ih rest)

/-! ### Flags that stay set -/

/-- The flag stays set while nothing is asked. -/
structure Latched (u : Surroundings σ) (watched : Bool) : Prop where
  clock : ∀ s, (u.flagged watched s).1 = true → (u.flagged watched (u.now s).2).1 = true
  flag : ∀ s, (u.flagged watched s).1 = true →
    (u.flagged watched (u.flagged watched s).2).1 = true

/-- Nothing is asked once the flag is set, so it stays set. -/
theorem Way.quiet (latched : u.Latched watched) (way : u.Way watched s es t)
    (set : (u.flagged watched s).1 = true) : es = [] ∧ (u.flagged watched t).1 = true := by
  induction way with
  | done => exact ⟨rfl, set⟩
  | clock _ ih => exact ih (latched.clock _ set)
  | flag _ ih => exact ih (latched.flag _ set)
  | ask _ unset => exact absurd (set.symm.trans unset) (by decide)

/-! ### Clocks that stand still -/

/-- Neither readings nor requests move the clock. -/
structure Still (u : Surroundings σ) (watched : Bool) : Prop where
  clock : ∀ s, (u.now (u.now s).2).1 = (u.now s).1
  flag : ∀ s, (u.now (u.flagged watched s).2).1 = (u.now s).1
  ask : ∀ provider ∈ u.provider, ∀ request s,
    (u.now (provider request watched s).2).1 = (u.now s).1

theorem Way.now_eq (still : u.Still watched) (way : u.Way watched s es t) :
    (u.now t).1 = (u.now s).1 := by
  induction way with
  | done => rfl
  | clock _ ih => exact ih.trans (still.clock _)
  | flag _ ih => exact ih.trans (still.flag _)
  | @ask s t v provider e es provided _ answered _ ih =>
    have kept := still.ask provider provided e.request (u.asking watched s).2
    rw [answered] at kept
    exact ih.trans (kept.trans ((still.clock _).trans (still.flag s)))

end Surroundings

/-! ## Computations -/

namespace Trail

variable {σ α : Type}

theorem requests_append {τ β : Type} (events : List Event) (later : Trail τ β)
    (outcome : Except Halt (α × σ)) :
    requests ⟨events ++ later.events, later.outcome⟩ =
      requests ⟨events, outcome⟩ ++ later.requests := by
  simp [requests]

end Trail

namespace Check

variable {σ α β : Type} {u : Surroundings σ} {watched : Bool} {s t v : σ} {es es' : List Exchange}

@[simp] theorem outcome_bind (x : Check σ α) (f : α → Check σ β) (s : σ) :
    ((x >>= f) s).outcome =
      match (x s).outcome with
      | .error halt => .error halt
      | .ok (a, t) => (f a t).outcome := by
  change (Check.bind x f s).outcome = _
  unfold Check.bind
  rcases x s with ⟨events, halt | ⟨a, t⟩⟩ <;> rfl

/-- What follows a step that ends is what is left after it. -/
theorem bind_eq_of_ends {x : Check σ α} {a : α} (ends : (x s).outcome = .ok (a, t))
    (f : α → Check σ β) : (x >>= f) s = ⟨(x s).events ++ (f a t).events, (f a t).outcome⟩ := by
  change Check.bind x f s = _
  unfold Check.bind
  generalize x s = trail at ends
  obtain ⟨events, outcome⟩ := trail
  obtain rfl : outcome = .ok (a, t) := ends
  rfl

theorem requests_bind {x : Check σ α} {f : α → Check σ β} {a : α}
    (ends : (x s).outcome = .ok (a, t)) :
    ((x >>= f) s).requests = (x s).requests ++ (f a t).requests := by
  rw [bind_eq_of_ends ends]
  exact Trail.requests_append (x s).events (f a t) (x s).outcome

/-- Two checks are one if they begin alike and go on alike from where that ends. -/
theorem bind_congr_of_ends {x : Check σ α} {f g : α → Check σ β} {a : α}
    (ends : (x s).outcome = .ok (a, t)) (same : f a t = g a t) : (x >>= f) s = (x >>= g) s := by
  rw [bind_eq_of_ends ends, bind_eq_of_ends ends, same]

instance : LawfulMonad (Check σ) := .mk' _
  (by
    intro α x
    funext s
    change Check.bind x Check.pure s = x s
    unfold Check.bind Check.pure
    rcases x s with ⟨events, halt | ⟨a, t⟩⟩ <;> simp)
  (by
    intros
    rfl)
  (by
    intro α β γ x f g
    funext s
    change Check.bind (Check.bind x f) g s = Check.bind x (fun a => Check.bind (f a) g) s
    unfold Check.bind
    rcases x s with ⟨events, halt | ⟨a, t⟩⟩
    · rfl
    · dsimp only
      rcases f a t with ⟨later, halt | ⟨b, v⟩⟩
      · rfl
      · simp)

/-- A computation that goes the way `es` from `s` to `t`, makes the requests of that way and no
others, and ends with `a`. -/
structure Runs (u : Surroundings σ) (watched : Bool) (x : Check σ α) (s : σ) (es : List Exchange)
    (a : α) (t : σ) : Prop where
  outcome : (x s).outcome = .ok (a, t)
  requests : (x s).requests = es.map fun e => (e.request, watched)
  way : u.Way watched s es t

theorem runs_pure (a : α) : Runs u watched (Pure.pure a) s [] a s := ⟨rfl, rfl, .done⟩

theorem runs_now : Runs u watched (read u.now) s [] (u.now s).1 (u.now s).2 :=
  ⟨rfl, rfl, .clock .done⟩

theorem runs_flagged :
    Runs u watched (read (u.flagged watched)) s [] (u.flagged watched s).1
      (u.flagged watched s).2 :=
  ⟨rfl, rfl, .flag .done⟩

theorem runs_tell (text : String) : Runs u watched (tell text) s [] () s := ⟨rfl, rfl, .done⟩

theorem runs_tellLazily (text : Except Halt String) :
    Runs u watched (tellLazily text) s [] () s := ⟨rfl, rfl, .done⟩

theorem runs_tellAll (texts : List String) : Runs u watched (tellAll texts) s [] () s := by
  refine ⟨rfl, ?_, .done⟩
  simp [tellAll, Trail.requests]

theorem runs_ofExcept (a : α) : Runs u watched (ofExcept (.ok a)) s [] a s := ⟨rfl, rfl, .done⟩

theorem Runs.bind {x : Check σ α} {f : α → Check σ β} {a : α} {b : β}
    (first : Runs u watched x s es a t) (rest : Runs u watched (f a) t es' b v) :
    Runs u watched (x >>= f) s (es ++ es') b v where
  outcome := by rw [outcome_bind, first.outcome]; exact rest.outcome
  requests := by rw [requests_bind first.outcome, first.requests, rest.requests, List.map_append]
  way := first.way.append rest.way

/-- A step that asks nothing. -/
theorem Runs.bind_quiet {x : Check σ α} {f : α → Check σ β} {a : α} {b : β}
    (first : Runs u watched x s [] a t) (rest : Runs u watched (f a) t es b v) :
    Runs u watched (x >>= f) s es b v :=
  first.bind rest

/-- A step after which nothing is asked. -/
theorem Runs.bind_last {x : Check σ α} {f : α → Check σ β} {a : α} {b : β}
    (first : Runs u watched x s es a t) (rest : Runs u watched (f a) t [] b v) :
    Runs u watched (x >>= f) s es b v := by
  have whole := first.bind rest
  rwa [List.append_nil] at whole

/-- A request, with the look at the flag and the look at the clock that come before it. -/
theorem Runs.ask {provider : Provider σ} {request : Instant → ProofRequest} {x : Check σ α}
    {f : ProofReply → Check σ α} {reply : ProofReply} {a : α}
    (provided : u.provider = some provider) (unset : (u.flagged watched s).1 = false)
    (answered : provider (request (u.asking watched s).1) watched (u.asking watched s).2 =
      (reply, t))
    (rest : Runs u watched (f reply) t es a v) :
    Runs u watched
      (do
        if ← read (u.flagged watched) then x
        else f (← Check.ask provider (request (← read u.now)) watched))
      s (⟨request (u.asking watched s).1, reply⟩ :: es) a v := by
  have looked : (read (u.flagged watched) s).outcome = .ok (false, (u.flagged watched s).2) := by
    rw [← unset]
    rfl
  have timed : (read u.now (u.flagged watched s).2).outcome =
      .ok ((u.asking watched s).1, (u.asking watched s).2) := rfl
  have asked : (Check.ask provider (request (u.asking watched s).1) watched
      (u.asking watched s).2).outcome = .ok (reply, t) := congrArg Except.ok answered
  constructor
  case outcome =>
    rw [bind_eq_of_ends looked, if_neg Bool.false_ne_true, bind_eq_of_ends timed,
      bind_eq_of_ends asked]
    exact rest.outcome
  case requests =>
    rw [requests_bind looked, if_neg Bool.false_ne_true, requests_bind timed,
      requests_bind asked, rest.requests]
    rfl
  case way => exact .ask provided unset answered rest.way

theorem Runs.map {x : Check σ α} {a : α} (f : α → β) (runs : Runs u watched x s es a t) :
    Runs u watched (f <$> x) s es (f a) t := by
  rw [map_eq_pure_bind]
  exact runs.bind_last (runs_pure (f a))

end Check

end Transparency
