import Transparency.Proofs.Wire.Reading
import Transparency.Wire.Intake

/-!
# What reading in place leaves

A part of reading takes from the input what a reader finds at its front. If it fails, it may have
taken some of that already. Putting the input back makes a part out of it that takes all or nothing,
whatever parts it is made of.
-/
namespace Transparency.Wire

/-- A reader finds a value at the front of an input and tells what follows. -/
abbrev Reader (ε β : Type) := StateT Bytes (Except ε) β

/-- A reader that fails in one way only. -/
def orFault {ε β : Type} (fault : ε) (reader : Bytes → Option (β × Bytes)) : Reader ε β := fun bs =>
  match reader bs with
  | none => .error fault
  | some read => .ok read

/-- What a part of reading leaves if it takes what a reader has found, or stops where it fails. -/
def taken {ε α β : Type} (found : Except ε (β × Bytes)) (stop : Bytes) (a : α) :
    Except ε β × Intake α :=
  match found with
  | .ok (b, rest) => (.ok b, ⟨rest, a⟩)
  | .error fault => (.error fault, ⟨stop, a⟩)

variable {ε ε' σ α β γ : Type} {fault : ε} {a : α} {b : β} {bs : Bytes} {s t : σ}
  {part : Taking ε α β} {reader : Reader ε β} {next : β → Taking ε α γ} {later : β → Reader ε γ}

/-- Whether a part of reading takes what a reader finds. It may stop anywhere if it fails. -/
def Follows (part : Taking ε α β) (reader : Reader ε β) : Prop :=
  ∀ bs a, ∃ stop, part ⟨bs, a⟩ = taken (reader bs) stop a

/-- Whether a part of reading takes what a reader finds, and nothing if it fails. -/
def Mirrors (part : Taking ε α β) (reader : Reader ε β) : Prop :=
  ∀ bs a, part ⟨bs, a⟩ = taken (reader bs) bs a

theorem Mirrors.follows (mirrors : Mirrors part reader) : Follows part reader :=
  fun bs a => ⟨bs, mirrors bs a⟩

/-! ## One part after another -/

theorem bind_of_ok {first : ExceptT ε (StateM σ) β} (ends : first s = (.ok b, t))
    (next : β → ExceptT ε (StateM σ) γ) : (first >>= next) s = next b t := by
  change (match first s with | (outcome, t) => ExceptT.bindCont next outcome t) = _
  rw [ends]
  rfl

theorem bind_of_error {first : ExceptT ε (StateM σ) β} (fails : first s = (.error fault, t))
    (next : β → ExceptT ε (StateM σ) γ) : (first >>= next) s = (.error fault, t) := by
  change (match first s with | (outcome, t) => ExceptT.bindCont next outcome t) = _
  rw [fails]
  rfl

theorem reader_bind :
    (reader >>= later) bs =
      match reader bs with
      | .error fault => .error fault
      | .ok (b, rest) => later b rest := by
  change reader bs >>= _ = _
  cases reader bs <;> rfl

theorem orFault_bind {reader : Bytes → Option (β × Bytes)} :
    (orFault fault reader >>= later) bs =
      match reader bs with
      | none => .error fault
      | some (b, rest) => later b rest := by
  rw [reader_bind, orFault]
  cases reader bs <;> rfl

theorem Follows.bind (follows : Follows part reader) (onward : ∀ b, Follows (next b) (later b)) :
    Follows (part >>= next) (reader >>= later) := by
  intro bs a
  obtain ⟨stop, took⟩ := follows bs a
  rw [reader_bind]
  cases found : reader bs with
  | error fault =>
    rw [found] at took
    exact ⟨stop, bind_of_error took next⟩
  | ok read =>
    obtain ⟨b, rest⟩ := read
    rw [found] at took
    rw [bind_of_ok took next]
    exact onward b rest a

theorem Follows.adapt (follows : Follows part reader) (wrap : ε → ε') :
    Follows (part.adapt wrap) fun bs => (reader bs).mapError wrap := by
  intro bs a
  obtain ⟨stop, took⟩ := follows bs a
  refine ⟨stop, ?_⟩
  change (Except.mapError wrap (part ⟨bs, a⟩).1, (part ⟨bs, a⟩).2) = _
  rw [took]
  change _ = taken ((reader bs).mapError wrap) stop a
  cases reader bs <;> rfl

/-! ## Putting the input back -/

theorem restoring_eq {found : Except ε (β × Bytes)} {rest stop : Bytes}
    (took : part ⟨rest, a⟩ = taken found stop a) (saved : Bytes) :
    Taking.restoring saved part ⟨rest, a⟩ = taken found saved a := by
  rw [Taking.restoring, took]
  cases found <;> rfl

theorem Follows.restoring (follows : Follows part reader) :
    Mirrors (do let saved := (← get).rest; Taking.restoring saved part) reader := by
  intro bs a
  obtain ⟨stop, took⟩ := follows bs a
  exact restoring_eq took bs

theorem Mirrors.restoring (mirrors : Mirrors part reader)
    (onward : ∀ b, Follows (next b) (later b)) :
    Mirrors (do let saved := (← get).rest; let b ← part; Taking.restoring saved (next b))
      (reader >>= later) := by
  intro bs a
  change (part >>= fun b => Taking.restoring bs (next b)) ⟨bs, a⟩ = _
  rw [reader_bind]
  have took := mirrors bs a
  cases found : reader bs with
  | error fault =>
    rw [found] at took
    exact bind_of_error took _
  | ok read =>
    obtain ⟨b, rest⟩ := read
    obtain ⟨stop, tookNext⟩ := onward b rest a
    rw [found] at took
    rw [bind_of_ok took]
    exact restoring_eq tookNext bs

/-! ## Fields -/

/-- Whether the head is there is seen without counting what follows it. -/
theorem split?_eq_ite (n : Nat) (bs : Bytes) :
    Bytes.split? n bs =
      if Bytes.hasAtLeast n bs then some (bs.take n, bs.drop n) else none := by
  have enough : (bs.take n).length = n ↔ Bytes.hasAtLeast n bs = true := by
    rw [Bytes.hasAtLeast_iff, List.length_take]
    omega
  simp only [Bytes.split?, enough]

theorem mirrors_uint (fault : ε) (width : Nat) :
    Mirrors (Taking.uint fault width : Taking ε α Nat) (orFault fault (uint? width)) := by
  intro bs a
  change (if Bytes.hasAtLeast width bs then _ else _ : Taking ε α Nat) _ = _
  rw [orFault, uint?, split?_eq_ite]
  cases Bytes.hasAtLeast width bs <;> rfl

theorem mirrors_fixed (fault : ε) (n : Nat) :
    Mirrors (Taking.fixed fault n : Taking ε α Bytes) (orFault fault (Bytes.split? n)) := by
  intro bs a
  change (if Bytes.hasAtLeast n bs then _ else _ : Taking ε α Bytes) _ = _
  rw [orFault, split?_eq_ite]
  cases Bytes.hasAtLeast n bs <;> rfl

theorem orFault_vector? (fault : ε) (width : Nat) :
    orFault fault (vector? width) =
      orFault fault (uint? width) >>= fun n => orFault fault (Bytes.split? n) := by
  funext bs
  rw [orFault_bind, orFault, vector?]
  cases uint? width bs <;> rfl

theorem mirrors_vector (fault : ε) (width : Nat) :
    Mirrors (Taking.vector fault width : Taking ε α Bytes) (orFault fault (vector? width)) := by
  have number : Follows (Taking.uint fault width : Taking ε α Nat) _ :=
    (mirrors_uint fault width).follows
  rw [orFault_vector?]
  exact (number.bind fun n => (mirrors_fixed fault n).follows).restoring

/-! ## Whole structures -/

theorem Mirrors.fill {part : Taking ε α α} {reader : Reader ε α} (mirrors : Mirrors part reader)
    (bs : Bytes) (a : α) :
    part.fill ⟨bs, a⟩ =
      match reader bs with
      | .ok (b, rest) => (.ok (), ⟨rest, b⟩)
      | .error fault => (.error fault, ⟨bs, a⟩) := by
  have took := mirrors bs a
  rw [Taking.fill]
  cases found : reader bs with
  | error fault =>
    rw [found] at took
    exact bind_of_error took _
  | ok read =>
    rw [found] at took
    exact bind_of_ok took _

theorem Mirrors.fill_fails {part : Taking ε α α} {reader : Reader ε α} {left : Intake α}
    (mirrors : Mirrors part reader) (fails : part.fill ⟨bs, a⟩ = (.error fault, left)) :
    left = ⟨bs, a⟩ ∧ reader bs = .error fault := by
  rw [mirrors.fill] at fails
  cases found : reader bs with
  | error fault' =>
    rw [found] at fails
    obtain ⟨same, rfl⟩ := Prod.mk.inj fails
    exact ⟨rfl, congrArg Except.error (Except.error.inj same)⟩
  | ok read =>
    rw [found] at fails
    cases fails

/-- A value that is filled in apart from the state is given back with what follows it. -/
theorem Mirrors.apart {part : Taking ε α α} {reader : Reader ε α} (mirrors : Mirrors part reader)
    (bs : Bytes) (a : α) (s : σ) :
    (part.fill.apart bs a : ExceptT ε (StateM σ) (Intake α)) s =
      ((reader bs).map fun (b, rest) => ⟨rest, b⟩, s) := by
  rw [Taking.apart, mirrors.fill]
  cases reader bs <;> rfl

end Transparency.Wire
