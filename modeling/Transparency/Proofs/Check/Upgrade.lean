import Transparency.Certificate.Codec
import Transparency.Check.Evidence
import Transparency.Key.Reader
import Transparency.Proofs.Check.Outcome

/-!
# What a provider can change

Nobody has to trust a provider. All that its answers do is to make a timestamp good that would have
been too old without them, and only an answer that proves inclusion does that.
-/
namespace Transparency

namespace Surroundings

variable {σ : Type} {u : Surroundings σ} {watched : Bool} {s t : σ} {es : List Exchange}

theorem Way.eq_nil_of_nobody (nobody : u.provider = none) (way : u.Way watched s es t) :
    es = [] := by
  induction way with
  | done => rfl
  | clock _ ih => exact ih
  | flag _ ih => exact ih
  | ask provided => cases nobody.symm.trans provided

end Surroundings

namespace Checker

variable {σ : Type} {c : Checker σ} {watched : Bool} {log : Log} {sct : Sct} {leaf : Leaf}
  {bytes : Bytes} {s s₀ : σ}

/-- The checker without its provider. -/
def alone (c : Checker σ) : Checker σ :=
  { c with surroundings := { c.surroundings with provider := none } }

@[simp] theorem alone_config : c.alone.config = c.config := rfl

@[simp] theorem alone_registry : c.alone.registry = c.registry := rfl

@[simp] theorem alone_now : c.alone.surroundings.now = c.surroundings.now := rfl

theorem still_alone (still : c.surroundings.Still watched) : c.alone.surroundings.Still watched :=
  ⟨still.clock, still.flag, nofun⟩

/-- Whether a reply proves what was requested: the log that was meant accepts its head and path. -/
def Proves (c : Checker σ) (e : Exchange) : Prop :=
  ∃ log leafHash head proof, c.registry.find? e.request.logId = some log ∧
    e.request.leafHash = leafHash.bytes ∧ e.reply = .available head proof ∧
      log.checkInclusion c.suite e.request.sctTimestamp leafHash head proof = .ok (.ok ())

/-! ## One timestamp -/

theorem proves_iff {leafHash : Digest} {now : Instant} {reply : ProofReply}
    (known : c.registry.find? log.id.bytes = some log) :
    c.Proves ⟨c.request log sct leafHash now, reply⟩ ↔
      c.convinces log sct leafHash reply = true := by
  rw [convinces_iff]
  constructor
  · rintro ⟨log', leafHash', head, proof, known', hash, rfl, judged⟩
    obtain rfl : log = log' := Option.some.inj (known.symm.trans known')
    obtain rfl : leafHash = leafHash' := Digest.ext_bytes hash
    exact ⟨head, proof, rfl, judged⟩
  · rintro ⟨head, proof, rfl, judged⟩
    exact ⟨log, leafHash, head, proof, known, rfl, rfl, judged⟩

theorem exists_proves_iff {leafHash? : Option Digest}
    (known : c.registry.find? log.id.bytes = some log) :
    (∃ e ∈ c.exchanged watched log sct leafHash? s, c.Proves e) ↔
      (c.included watched log sct leafHash? s).1 = true := by
  unfold Checker.included exchanged
  cases leafHash? with
  | none => simp
  | some leafHash =>
    cases c.surroundings.provider with
    | none => simp
    | some provider =>
      cases flagged : (c.surroundings.flagged watched s).1 with
      | true => simp [flagged]
      | false =>
        simp only [flagged, Bool.false_eq_true, if_false, List.mem_singleton, exists_eq_left]
        exact proves_iff known

/-- The code found after some exchanges, against the one found without any. -/
structure Raises (c : Checker σ) (es : List Exchange) (code code₀ : ResultCode) : Prop where
  same_or_stale : code = code₀ ∨
    code = .ok ∧ code₀ = .inclusionFailedStale ∧ ∃ e ∈ es, c.Proves e
  ok_of_proves : (∃ e ∈ es, c.Proves e) → code = .ok

theorem Raises.same (code : ResultCode) : c.Raises [] code code := ⟨.inl rfl, by simp⟩

theorem judgement_alone (log : Log) (sct : Sct) (leaf : Leaf) (s : σ) :
    c.alone.judgement watched log sct leaf s =
      (if c.config.rejectFuture && (c.surroundings.now s).1 < sct.timestamp then .invalidTimestamp
        else if isFresh log (c.surroundings.now s).1 sct then .ok else .inclusionFailedStale,
        (c.surroundings.now s).2) := by
  have nobody : ∀ leafHash? s, c.alone.included watched log sct leafHash? s = (false, s) := by
    intro leafHash? s
    cases leafHash? <;> rfl
  by_cases future :
      (c.config.rejectFuture && (c.surroundings.now s).1 < sct.timestamp) = true
  · simp only [judgement, alone_config, alone_now, if_pos future]
    exact if_pos future
  · simp only [judgement, nobody, Bool.false_or, alone_config, alone_now, if_neg future]
    exact if_neg future

variable (time : (c.surroundings.now s).1 = (c.surroundings.now s₀).1)
include time

theorem raises_judgement (known : c.registry.find? log.id.bytes = some log) :
    c.Raises (c.exchangedToJudge watched log sct leaf s)
      (c.judgement watched log sct leaf s).1 (c.alone.judgement watched log sct leaf s₀).1 := by
  rw [judgement_alone, ← time]
  unfold judgement exchangedToJudge
  generalize c.surroundings.now s = reading
  obtain ⟨now, s⟩ := reading
  by_cases future : (c.config.rejectFuture && now < sct.timestamp) = true
  · simp only [if_pos future]
    exact .same _
  · simp only [if_neg future]
    cases proved : (c.included watched log sct ((leaf.bind sct).hash c.suite.digest) s).1 with
    | false =>
      refine ⟨.inl rfl, fun proof => ?_⟩
      cases proved.symm.trans ((exists_proves_iff known).1 proof)
    | true =>
      refine ⟨?_, fun _ => rfl⟩
      cases isFresh log now sct with
      | false => exact .inr ⟨rfl, rfl, (exists_proves_iff known).2 proved⟩
      | true => exact .inl rfl

theorem raises_knownVerdict (known : c.registry.find? log.id.bytes = some log) :
    c.Raises
      (if c.vouched log sct leaf.entry then c.exchangedToJudge watched log sct leaf s else [])
      (c.knownVerdict watched log sct leaf s).1
      (c.alone.knownVerdict watched log sct leaf s₀).1 := by
  have same : c.alone.vouched log sct leaf.entry = c.vouched log sct leaf.entry := rfl
  unfold knownVerdict
  rw [same]
  cases c.vouched log sct leaf.entry with
  | true => exact raises_judgement time known
  | false => exact .same _

/-- With a provider or without, the same timestamp is read, and the code is the same or raised. -/
theorem exists_verdict (watched : Bool) (bytes : Bytes) (leaf : Leaf) :
    ∃ code code₀ sct, (c.verdict watched bytes leaf s).1 = (code, sct) ∧
      (c.alone.verdict watched bytes leaf s₀).1 = (code₀, sct) ∧
        c.Raises (c.exchanges watched bytes leaf s) code code₀ := by
  unfold verdict exchanges
  cases Sct.decodeWhole bytes with
  | error fault => exact ⟨_, _, _, rfl, rfl, .same _⟩
  | ok sct =>
    cases known : c.registry.find? sct.logId with
    | none =>
      simp only [alone_registry, known]
      exact ⟨_, _, _, rfl, rfl, .same _⟩
    | some log =>
      have listed : c.registry.find? log.id.bytes = some log := by
        rw [Registry.id_of_find? known, known]
      simp only [alone_registry, known]
      exact ⟨_, _, _, rfl, rfl, raises_knownVerdict time listed⟩

omit time

/-! ## Two checks -/

/-- Two checks made at the same time, the second one without the provider. They end alike, or else
the first one ends well and one of its exchanges proves inclusion. -/
def Upgrades {α : Type} (c : Checker σ) (watched : Bool) (good : α → Prop) (x x₀ : Check σ α) :
    Prop :=
  ∀ s s₀, (c.surroundings.now s).1 = (c.surroundings.now s₀).1 → ∃ es a t a₀ t₀,
    Check.Runs c.surroundings watched x s es a t ∧
      Check.Runs c.alone.surroundings watched x₀ s₀ [] a₀ t₀ ∧
        (a = a₀ ∨ good a ∧ ∃ e ∈ es, c.Proves e)

section

variable {α β : Type} {good : α → Prop} {good' : β → Prop}

/-- A check that asks nothing needs no provider. -/
theorem upgrades_of_quiet {x : Check σ α} {a : α}
    (quiet : ∀ u s, Check.Runs u watched x s [] a s) : c.Upgrades watched good x x :=
  fun s s₀ _ => ⟨[], a, s, a, s₀, quiet _ s, quiet _ s₀, .inl rfl⟩

theorem Upgrades.bind {x x₀ : Check σ α} {f f₀ : α → Check σ β}
    (still : c.surroundings.Still watched) (first : c.Upgrades watched good x x₀)
    (rest : ∀ a, c.Upgrades watched good' (f a) (f₀ a))
    (ends : ∀ a, good a → ∃ b, good' b ∧ ∀ s, Check.Runs c.surroundings watched (f a) s [] b s) :
    c.Upgrades watched good' (x >>= f) (x₀ >>= f₀) := by
  intro s s₀ time
  obtain ⟨es, a, t, a₀, t₀, runs, alone, same | ⟨good, proof⟩⟩ := first s s₀ time
  · subst same
    have later : (c.surroundings.now t).1 = (c.surroundings.now t₀).1 := by
      rw [runs.way.now_eq still, time]
      exact (alone.way.now_eq (still_alone still)).symm
    obtain ⟨es', b, v, b₀, v₀, runs', alone', compared⟩ := rest a t t₀ later
    refine ⟨es ++ es', b, v, b₀, v₀, runs.bind runs', alone.bind_quiet alone', ?_⟩
    refine compared.imp_right fun ⟨good', e, member, proves⟩ => ⟨good', e, ?_, proves⟩
    exact List.mem_append_right es member
  · obtain ⟨b, good', quiet⟩ := ends a good
    obtain ⟨_, _, _, b₀, v₀, _, alone', _⟩ := rest a₀ t₀ t₀ rfl
    exact ⟨es, b, t, b₀, v₀, runs.bind_last (quiet t), alone.bind_quiet alone',
      .inr ⟨good', proof⟩⟩

/-- A first step that asks nothing. -/
theorem Upgrades.bind_quiet {x : Check σ α} {f f₀ : α → Check σ β} {a : α}
    (quiet : ∀ u s, Check.Runs u watched x s [] a s)
    (rest : c.Upgrades watched good' (f a) (f₀ a)) :
    c.Upgrades watched good' (x >>= f) (x >>= f₀) := by
  intro s s₀ time
  obtain ⟨es, b, t, b₀, t₀, runs, alone, compared⟩ := rest s s₀ time
  exact ⟨es, b, t, b₀, t₀, (quiet _ s).bind_quiet runs, (quiet _ s₀).bind_quiet alone, compared⟩

end

theorem runs_checkOne_alone (bytes : Bytes) (leaf : Leaf) (s : σ) :
    Check.Runs c.alone.surroundings watched (c.alone.checkOne watched bytes leaf) s []
      (c.alone.verdict watched bytes leaf s).1 (c.alone.verdict watched bytes leaf s).2 := by
  have runs := c.alone.runs_checkOne watched bytes leaf s
  rwa [runs.way.eq_nil_of_nobody rfl] at runs

theorem upgrades_checkOne (bytes : Bytes) (leaf : Leaf) :
    c.Upgrades watched (fun r => r.1 = .ok) (c.checkOne watched bytes leaf)
      (c.alone.checkOne watched bytes leaf) := by
  intro s s₀ time
  obtain ⟨code, code₀, sct, provided, alone, raises⟩ := exists_verdict time watched bytes leaf
  have runs := c.runs_checkOne watched bytes leaf s
  have runs₀ : Check.Runs c.alone.surroundings watched (c.alone.checkOne watched bytes leaf) s₀ []
      _ _ := runs_checkOne_alone bytes leaf s₀
  rw [provided] at runs
  rw [alone] at runs₀
  refine ⟨_, _, _, _, _, runs, runs₀, ?_⟩
  obtain rfl | ⟨good, -, proof⟩ := raises.same_or_stale
  · exact .inl rfl
  · exact .inr ⟨good, proof⟩

section

variable (still : c.surroundings.Still watched)
include still

theorem upgrades_checkEach (origin : Origin) (leaf : Leaf) (scts : List Bytes)
    (last : ResultCode) :
    c.Upgrades watched (fun r => r.1 = .ok) (c.checkEach watched origin leaf last scts)
      (c.alone.checkEach watched origin leaf last scts) := by
  induction scts generalizing last with
  | nil => exact upgrades_of_quiet fun _ _ => Check.runs_pure _
  | cons bytes scts ih =>
    rw [checkEach_cons, checkEach_cons]
    refine (upgrades_checkOne bytes leaf).bind still ?_ ?_
    · rintro ⟨code, sct⟩
      by_cases accepted : code = .ok
      · simp only [if_pos accepted]
        exact upgrades_of_quiet fun _ _ => Check.runs_pure _
      · simp only [if_neg accepted]
        exact Upgrades.bind_quiet (fun _ _ => Check.runs_tellLazily _) (ih _)
    · rintro ⟨code, sct⟩ rfl
      exact ⟨_, rfl, fun _ => Check.runs_pure _⟩

theorem upgrades_checkSource {origin : Origin} (place : origin ≠ .unspecified)
    (chain scts : List Bytes) :
    c.Upgrades watched (fun r => r.1 = .ok) (c.checkSource watched origin chain scts)
      (c.alone.checkSource watched origin chain scts) := by
  obtain ⟨leaf?, built⟩ := c.exists_leafFor place chain
  have built₀ : c.alone.leafFor origin chain = .ok leaf? := built
  unfold checkSource
  split
  · exact upgrades_of_quiet fun _ _ => Check.runs_pure _
  · rw [built, built₀]
    refine Upgrades.bind_quiet (fun _ _ => Check.runs_ofExcept leaf?) ?_
    cases leaf? with
    | error fault =>
      exact upgrades_of_quiet fun _ _ => (Check.runs_tellAll _).bind_quiet
        ((Check.runs_tellLazily _).bind_quiet (Check.runs_pure _))
    | ok leaf => exact upgrades_checkEach still origin leaf scts .noEvidenceFound

theorem upgrades_checkSources (chain : List Bytes) (sources : List (Origin × List Bytes))
    (places : ∀ source ∈ sources, source.1 ≠ .unspecified) (result : CheckResult) :
    c.Upgrades watched (fun r => r.code = .ok) (c.checkSources watched chain result sources)
      (c.alone.checkSources watched chain result sources) := by
  induction sources generalizing result with
  | nil => exact upgrades_of_quiet fun _ _ =>
      (Check.runs_tellLazily _).bind_quiet (Check.runs_pure _)
  | cons source sources ih =>
    obtain ⟨origin, scts⟩ := source
    obtain ⟨place, places⟩ := List.forall_mem_cons.1 places
    refine (upgrades_checkSource still place chain scts).bind still ?_ ?_
    · rintro ⟨code, sct⟩
      by_cases accepted : code = .ok
      · simp only [if_pos accepted]
        exact upgrades_of_quiet fun _ _ =>
          (Check.runs_tellLazily _).bind_quiet (Check.runs_pure _)
      · simp only [if_neg accepted]
        exact ih places _
    · rintro ⟨code, sct⟩ rfl
      refine ⟨_, ?_, fun _ => (Check.runs_tellLazily _).bind_quiet (Check.runs_pure _)⟩
      rfl

theorem upgrades_checkEvidence (chain tls embedded ocsp : List Bytes) :
    c.Upgrades watched (fun r => r.code = .ok)
      (c.checkEvidence watched chain tls embedded ocsp)
      (c.alone.checkEvidence watched chain tls embedded ocsp) := by
  unfold checkEvidence
  split
  · exact upgrades_of_quiet fun _ _ => Check.runs_pure _
  · exact upgrades_checkSources still chain _ (by simp) _

end

/-- A provider makes no difference to what is read, and none to a code but for making it good where
it would have been stale, which it does just by a proof of inclusion. While the clock stands still
that holds of a whole connection, and nothing but a proof of inclusion, given before the flag is
set, makes a difference to its result. -/
theorem provider_only_raises (c : Checker σ) (watched : Bool) (s : σ) :
    (∀ bytes leaf, ∃ es code code₀ sct t t₀,
      Check.Runs c.surroundings watched (c.checkOne watched bytes leaf) s es (code, sct) t ∧
        Check.Runs c.alone.surroundings watched (c.alone.checkOne watched bytes leaf) s []
            (code₀, sct) t₀ ∧
          (code = code₀ ∨ code = .ok ∧ code₀ = .inclusionFailedStale) ∧
            ((∃ e ∈ es, c.Proves e) → code = .ok) ∧
              ((∀ e ∈ es, ¬ c.Proves e) → code = code₀)) ∧
      (c.surroundings.Still watched → ∀ chain tls embedded ocsp, ∃ es r t r₀ t₀,
        Check.Runs c.surroundings watched (c.checkEvidence watched chain tls embedded ocsp) s es r
            t ∧
          Check.Runs c.alone.surroundings watched
              (c.alone.checkEvidence watched chain tls embedded ocsp) s [] r₀ t₀ ∧
            (r₀.code = .ok → r.code = .ok) ∧
              (c.surroundings.Latched watched → (c.surroundings.flagged watched s).1 = true →
                r = r₀) ∧
                ((∀ e ∈ es, ¬ c.Proves e) → r = r₀)) := by
  constructor
  · intro bytes leaf
    obtain ⟨code, code₀, sct, provided, alone, raises⟩ :=
      exists_verdict (Eq.refl (c.surroundings.now s).1) watched bytes leaf
    have runs := c.runs_checkOne watched bytes leaf s
    have runs₀ : Check.Runs c.alone.surroundings watched (c.alone.checkOne watched bytes leaf) s []
        _ _ := runs_checkOne_alone bytes leaf s
    rw [provided] at runs
    rw [alone] at runs₀
    refine ⟨_, code, code₀, sct, _, _, runs, runs₀, ?_, raises.ok_of_proves, ?_⟩
    · exact raises.same_or_stale.imp_right fun ⟨good, stale, _⟩ => ⟨good, stale⟩
    · intro unproved
      obtain same | ⟨-, -, e, member, proves⟩ := raises.same_or_stale
      · exact same
      · exact absurd proves (unproved e member)
  · intro still chain tls embedded ocsp
    obtain ⟨es, r, t, r₀, t₀, runs, alone, compared⟩ :=
      upgrades_checkEvidence still chain tls embedded ocsp s s rfl
    refine ⟨es, r, t, r₀, t₀, runs, alone, ?_, ?_, ?_⟩
    · intro good₀
      obtain rfl | ⟨good, -⟩ := compared
      · exact good₀
      · exact good
    · intro latched set
      obtain same | ⟨-, e, member, -⟩ := compared
      · exact same
      · rw [(runs.way.quiet latched set).1] at member
        cases member
    · intro unproved
      obtain same | ⟨-, e, member, proves⟩ := compared
      · exact same
      · exact absurd proves (unproved e member)

/-- A timestamp of ten minutes ago comes with the handshake and again with the status response. The
provider has a proof for whoever asks twice, and then the flag is set. -/
theorem provider_only_raises_asked_twice :
    let log : Log :=
      { id := .zero, key := .rsa 0 0, hash := .sha256, scheme := .rsa, description := "twice"
        url := "", mergeDelay := .ofMinutes 1, hash_hashes := rfl }
    let head : TreeHead :=
      { treeSize := 1, logId := log.id.bytes, signature := ⟨.sha256, .rsa, []⟩ }
    let c : Checker Nat :=
      { suite := { Suite.standard with
          digest := fun _ => .zero, verifies := fun _ _ _ _ => true }
        codec := .standard
        registry := ⟨[log], List.pairwise_singleton _ _⟩, config := {}
        surroundings :=
          { now := fun asked => (.ofMillis 600000, asked)
            cancelled := fun asked => (asked = 2, asked)
            provider := some fun _ _ asked =>
              (if asked = 0 then .unavailable else .available head ⟨0, 1, []⟩, asked + 1) } }
    let sct : Bytes := 0 :: log.id.bytes ++ List.replicate 10 0 ++ [4, 1, 0, 0]
    let check := fun c : Checker Nat => c.checkEvidence true [[42]] [sct] [] [sct]
    c.surroundings.Still true ∧ c.surroundings.Latched true ∧
      (∃ es r t r₀ t₀, Check.Runs c.surroundings true (check c) 0 es r t ∧
        Check.Runs c.alone.surroundings true (check c.alone) 0 [] r₀ t₀ ∧
          r.code = .ok ∧ r₀.code = .inclusionFailedStale ∧ ∃ e ∈ es, c.Proves e) ∧
        ∃ es r t t₀, Check.Runs c.surroundings true (check c) 2 es r t ∧
          Check.Runs c.alone.surroundings true (check c.alone) 2 [] r t₀ := by
  intro log head c sct check
  have still : c.surroundings.Still true := by
    refine ⟨fun _ => rfl, fun _ => rfl, ?_⟩
    rintro provider ⟨⟩
    intros
    rfl
  have latched : c.surroundings.Latched true := ⟨fun _ set => set, fun _ set => set⟩
  refine ⟨still, latched, ?_, ?_⟩
  · obtain ⟨es, r, t, r₀, t₀, runs, alone, -, -, unproved⟩ :=
      (c.provider_only_raises true 0).2 still [[42]] [sct] [] [sct]
    have good : r.code = .ok := by
      have ends : (check c 0).outcome.toOption.map (·.1.code) = some .ok := by decide +kernel
      rw [runs.outcome] at ends
      exact Option.some.inj ends
    have stale : r₀.code = .inclusionFailedStale := by
      have ends : (check c.alone 0).outcome.toOption.map (·.1.code) =
          some .inclusionFailedStale := by decide +kernel
      rw [alone.outcome] at ends
      exact Option.some.inj ends
    refine ⟨es, r, t, r₀, t₀, runs, alone, good, stale, ?_⟩
    by_cases proof : ∃ e ∈ es, c.Proves e
    · exact proof
    · have same : r = r₀ := unproved fun e member proves => proof ⟨e, member, proves⟩
      rw [same, stale] at good
      cases good
  · obtain ⟨es, r, t, r₀, t₀, runs, alone, -, set, -⟩ :=
      (c.provider_only_raises true 2).2 still [[42]] [sct] [] [sct]
    obtain rfl : r = r₀ := set latched (by decide)
    exact ⟨es, r, t, t₀, runs, alone⟩

end Checker

end Transparency
