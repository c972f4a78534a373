import Transparency.Certificate.Codec
import Transparency.Key.Reader
import Transparency.Proofs.Check.Requests
import Transparency.Proofs.Check.Upgrade
import Transparency.Proofs.Sct.Codec
import Transparency.Proofs.Time

/-!
# Judging by age

Without a provider a signed timestamp is judged by its age alone. Times that come from the wire do
not lie before 1970, and neither does the clock, so the rule is the one over the integers. Of the
surroundings only the clock enters it, and a timestamp that is once too old stays so.
-/
namespace Transparency

/-! ## The rule -/

/-- The code that the age of a signed timestamp comes to. Nothing wraps here. -/
def Config.codeByAge (config : Config) (now timestamp mergeDelay : Int) : ResultCode :=
  if config.rejectFuture ∧ now < timestamp then .invalidTimestamp
  else if now < timestamp + mergeDelay then .ok
  else .inclusionFailedStale

theorem Config.codeByAge_of_le {config : Config} {now now' timestamp mergeDelay : Int}
    (later : now ≤ now')
    (stale : config.codeByAge now timestamp mergeDelay = .inclusionFailedStale) :
    config.codeByAge now' timestamp mergeDelay = .inclusionFailedStale := by
  unfold codeByAge at *
  grind

namespace Checker

variable {σ : Type} {c : Checker σ} {watched : Bool} {bytes : Bytes} {log : Log} {sct : Sct}
  {leaf : Leaf} {s : σ}

theorem isFresh_iff {now : Instant} (since1970 : 0 ≤ now.micros.toInt)
    (since1970' : 0 ≤ sct.timestamp.micros.toInt) :
    isFresh log now sct = true ↔
      now.micros.toInt < sct.timestamp.micros.toInt + log.mergeDelay.micros.toInt := by
  have exact : (now.since sct.timestamp).micros.toInt =
      now.micros.toInt - sct.timestamp.micros.toInt := Instant.toInt_since since1970 since1970'
  have younger : isFresh log now sct = true ↔
      (now.since sct.timestamp).micros.toInt < log.mergeDelay.micros.toInt :=
    decide_eq_true_iff.trans Int64.lt_iff_toInt_lt
  rw [younger, exact]
  omega

/-! ## Without a provider -/

theorem alone_eq_self (nobody : c.surroundings.provider = none) : c.alone = c := by
  obtain ⟨suite, codec, registry, config, ⟨now, cancelled, provider⟩⟩ := c
  obtain rfl : provider = none := nobody
  rfl

theorem judgement_eq_codeByAge (nobody : c.surroundings.provider = none)
    (since1970 : 0 ≤ (c.surroundings.now s).1.micros.toInt)
    (since1970' : 0 ≤ sct.timestamp.micros.toInt) :
    c.judgement watched log sct leaf s =
      (c.config.codeByAge (c.surroundings.now s).1.micros.toInt sct.timestamp.micros.toInt
        log.mergeDelay.micros.toInt, (c.surroundings.now s).2) := by
  have future : (c.config.rejectFuture && (c.surroundings.now s).1 < sct.timestamp) = true ↔
      c.config.rejectFuture = true ∧
        (c.surroundings.now s).1.micros.toInt < sct.timestamp.micros.toInt := by
    rw [Bool.and_eq_true, decide_eq_true_iff, Instant.lt_iff_toInt_lt]
  have alone : c.alone.judgement watched log sct leaf s = _ := judgement_alone log sct leaf s
  rw [alone_eq_self nobody] at alone
  simp only [alone, future, isFresh_iff since1970 since1970', Config.codeByAge]

theorem verdict_eq_codeByAge (nobody : c.surroundings.provider = none)
    (read : Sct.decodeWhole bytes = .ok sct) (known : c.registry.find? sct.logId = some log)
    (signed : log.verifySct c.suite leaf.entry sct = .ok (.ok ()))
    (since1970 : 0 ≤ (c.surroundings.now s).1.micros.toInt) :
    c.verdict watched bytes leaf s =
      ((c.config.codeByAge (c.surroundings.now s).1.micros.toInt sct.timestamp.micros.toInt
        log.mergeDelay.micros.toInt, some { sct with logDescription := log.description }),
        (c.surroundings.now s).2) := by
  have vouched : c.vouched log { sct with logDescription := log.description } leaf.entry = true :=
    vouched_iff.2 signed
  have since1970' : 0 ≤ sct.timestamp.micros.toInt := Sct.timestamp_nonneg read
  have judged : c.judgement watched log { sct with logDescription := log.description } leaf s =
      (c.config.codeByAge (c.surroundings.now s).1.micros.toInt sct.timestamp.micros.toInt
        log.mergeDelay.micros.toInt, (c.surroundings.now s).2) :=
    judgement_eq_codeByAge nobody since1970 since1970'
  simp only [verdict, read, known, knownVerdict, if_pos vouched, judged]

/-- A signed timestamp is judged by its age over the integers, whatever the 64 bits of the clock, of
the timestamp and of the merge delay. Once it is too old it is so at every later time. -/
theorem checkOne_judges_age (c : Checker σ) (watched : Bool) {bytes : Bytes} {sct : Sct} {log : Log}
    {leaf : Leaf} (nobody : c.surroundings.provider = none)
    (read : Sct.decodeWhole bytes = .ok sct) (known : c.registry.find? sct.logId = some log)
    (signed : log.verifySct c.suite leaf.entry sct = .ok (.ok ())) (s : σ)
    (since1970 : 0 ≤ (c.surroundings.now s).1.micros.toInt) :
    (c.checkOne watched bytes leaf s).outcome =
        .ok ((c.config.codeByAge (c.surroundings.now s).1.micros.toInt sct.timestamp.micros.toInt
          log.mergeDelay.micros.toInt, some { sct with logDescription := log.description }),
            (c.surroundings.now s).2) ∧
      ((c.surroundings.now s).1 - sct.timestamp).micros.toInt =
        (c.surroundings.now s).1.micros.toInt - sct.timestamp.micros.toInt ∧
      ∀ decoded u, (c.checkOne watched bytes leaf s).outcome =
          .ok ((.inclusionFailedStale, decoded), u) →
        ∀ t, (c.surroundings.now s).1 ≤ (c.surroundings.now t).1 →
          (c.checkOne watched bytes leaf t).outcome =
            .ok ((.inclusionFailedStale, decoded), (c.surroundings.now t).2) := by
  simp only [c.outcome_checkOne, Except.ok.injEq]
  have judged : c.verdict watched bytes leaf s = _ :=
    verdict_eq_codeByAge nobody read known signed since1970
  refine ⟨judged, Instant.toInt_since since1970 (Sct.timestamp_nonneg read), ?_⟩
  intro decoded u stale t later
  have order : (c.surroundings.now s).1.micros.toInt ≤ (c.surroundings.now t).1.micros.toInt :=
    Instant.le_iff_toInt_le.1 later
  obtain ⟨old, rfl⟩ := Prod.mk.inj (congrArg Prod.fst (judged.symm.trans stale))
  rw [verdict_eq_codeByAge nobody read known signed (Int.le_trans since1970 order),
    Config.codeByAge_of_le order old]

/-- The latest time that the wire can tell, in a log that has less than a millisecond to merge. The
clock is the state, and passes the merge delay one microsecond before its last reading. -/
theorem checkOne_judges_age_latest :
    let suite : Suite :=
      { Suite.standard with
        digest := fun bytes =>
          (Digest.ofBytes? ((bytes ++ List.replicate 32 0).take 32)).getD .zero
        verifies := fun _ _ message signature => message = signature }
    let log : Log :=
      { id := .zero, key := .rsa 0 0, hash := .sha256, scheme := .rsa, description := "late"
        url := "", mergeDelay := .ofMicros 806, hash_hashes := rfl }
    let leaf : Leaf := { entry := { certificate := [42] } }
    let time : Bytes := [0, 0x20, 0xc4, 0x9b, 0xa5, 0xe3, 0x53, 0xf7]
    let promise : Bytes := [0, 0] ++ time ++ [0, 0, 0, 0, 1, 42, 0, 0]
    let sct : Sct :=
      { logId := log.id.bytes, timestamp := .ofMillis 9223372036854775
        signature := ⟨.sha256, .rsa, promise⟩ }
    let named : Sct := { sct with logDescription := "late" }
    let bytes : Bytes := 0 :: sct.logId ++ time ++ [0, 0, 4, 1, 0, 18] ++ promise
    let c : Checker Instant :=
      { suite, codec := .standard, registry := ⟨[log], List.pairwise_singleton _ _⟩, config := {}
        surroundings :=
          { now := fun now => (now, now), cancelled := fun now => (false, now), provider := none } }
    Sct.decodeWhole bytes = .ok sct ∧ log.verifySct suite leaf.entry sct = .ok (.ok ()) ∧
      (c.checkOne true bytes leaf .epoch).outcome = .ok ((.ok, some named), .epoch) ∧
        (c.checkOne true bytes leaf ⟨9223372036854775805⟩).outcome =
          .ok ((.ok, some named), ⟨9223372036854775805⟩) ∧
          (c.checkOne true bytes leaf ⟨9223372036854775806⟩).outcome =
            .ok ((.inclusionFailedStale, some named), ⟨9223372036854775806⟩) ∧
            (c.checkOne true bytes leaf ⟨Int64.maxValue⟩).outcome =
              .ok ((.inclusionFailedStale, some named), ⟨Int64.maxValue⟩) := by
  intro suite log leaf time promise sct named bytes c
  have read : Sct.decodeWhole bytes = .ok sct := by decide +kernel
  have known : c.registry.find? sct.logId = some log := by decide +kernel
  have signed : log.verifySct c.suite leaf.entry sct = .ok (.ok ()) := by decide +kernel
  have judged : ∀ now code, 0 ≤ now.micros.toInt →
      c.config.codeByAge now.micros.toInt sct.timestamp.micros.toInt
        log.mergeDelay.micros.toInt = code →
      (c.checkOne true bytes leaf now).outcome = .ok ((code, some named), now) := by
    intro now code since1970 rule
    rw [← rule]
    exact (c.checkOne_judges_age true rfl read known signed now since1970).1
  have stale := judged ⟨9223372036854775806⟩ .inclusionFailedStale (by decide) (by decide +kernel)
  obtain ⟨-, -, stays⟩ :=
    c.checkOne_judges_age true rfl read known signed ⟨9223372036854775806⟩ (by decide)
  exact ⟨read, signed, judged _ _ (by decide) (by decide +kernel),
    judged _ _ (by decide) (by decide +kernel), stale, stays _ _ stale _ (by decide)⟩

end Checker

end Transparency
