import Transparency.Certificate.Codec
import Transparency.Key.Reader
import Transparency.Proofs.Check.Requests
import Transparency.Proofs.Time

/-!
# When a provider has to give up

A request says when its provider has to give up: as long after the reading of the clock as is
configured. That time is not past if an instant can hold it. If none can, it wraps to before 1970,
so whoever asks for the longest time leaves no time at all once the clock has left 1970.
-/
namespace Transparency.Checker

variable {σ : Type} {c : Checker σ} {watched : Bool} {bytes : Bytes} {leaf : Leaf} {s : σ}

theorem deadline_of_mem_requests {request : ProofRequest × Bool}
    (asked : request ∈ (c.checkOne watched bytes leaf s).requests) :
    request.1.deadline =
      (c.surroundings.asking watched (c.surroundings.now s).2).1 + c.config.proofTimeout := by
  rw [(c.runs_checkOne watched bytes leaf s).requests] at asked
  obtain ⟨exchange, exchanged, rfl⟩ := List.mem_map.1 asked
  obtain ⟨sct, log, -, warrants⟩ := exists_warrants exchanged
  exact warrants.deadline

/-- A provider is left time exactly if an instant can hold the time at which it has to give up. The
clock is read for that after the timestamp was judged by it. -/
theorem now_le_deadline_iff (c : Checker σ) (watched : Bool) (bytes : Bytes) (leaf : Leaf)
    (s : σ) :
    let now := (c.surroundings.asking watched (c.surroundings.now s).2).1
    0 ≤ now.micros.toInt → 0 ≤ c.config.proofTimeout.micros.toInt →
      ∀ request ∈ (c.checkOne watched bytes leaf s).requests,
        (now ≤ request.1.deadline ↔
          now.micros.toInt + c.config.proofTimeout.micros.toInt ≤ Int64.maxValue.toInt) := by
  intro now since1970 forward request asked
  rw [deadline_of_mem_requests asked]
  exact Instant.le_add_iff since1970 forward

/-! ## The longest time to wait -/

/-- A log whose signatures repeat what they sign. -/
def echo : Log where
  id := .zero
  key := .rsa 0 0
  hash := .sha256
  scheme := .rsa
  description := "echo"
  url := ""
  mergeDelay := .ofMinutes 1
  hash_hashes := rfl

/-- A checker that knows only that log. Its clock is the state, and its provider has no proofs. -/
def waiting (timeout : Span) : Checker Instant where
  suite :=
    { Suite.standard with
      digest := fun bytes => (Digest.ofBytes? ((bytes ++ List.replicate 32 0).take 32)).getD .zero
      verifies := fun _ _ message signature => message = signature }
  codec := .standard
  registry := ⟨[echo], List.pairwise_singleton _ _⟩
  config := { proofTimeout := timeout }
  surroundings :=
    { now := fun now => (now, now), cancelled := fun now => (false, now)
      provider := some fun _ _ now => (.unavailable, now) }

/-- The leaf of a certificate of one byte. -/
def echoLeaf : Leaf where
  entry := { certificate := [42] }

/-- What the log signs for that leaf, seven milliseconds after 1970 began. -/
def echoed : Bytes := [0, 0, 0, 0, 0, 0, 0, 0, 0, 7, 0, 0, 0, 0, 1, 42, 0, 0]

/-- The timestamp in which it does. -/
def echoSct : Bytes :=
  0 :: echo.id.bytes ++ [0, 0, 0, 0, 0, 0, 0, 7, 0, 0, 4, 1, 0, 18] ++ echoed

theorem requests_waiting (timeout : Span) (now : Instant) :
    ((waiting timeout).checkOne true echoSct echoLeaf now).requests =
      [({ logId := echo.id.bytes
          leafHash := ((waiting timeout).suite.digest (0 :: echoed)).bytes
          sctTimestamp := .ofMillis 7
          deadline := now + timeout }, true)] := by
  rw [((waiting timeout).runs_checkOne true echoSct echoLeaf now).requests]
  rfl

theorem exists_mem_requests_waiting (timeout : Span) (now : Instant) :
    ∃ request, request ∈ ((waiting timeout).checkOne true echoSct echoLeaf now).requests := by
  rw [requests_waiting]
  exact ⟨_, List.mem_singleton_self _⟩

/-- A microsecond after 1970 began, the longest time to wait but one ends with the last instant. -/
theorem now_le_deadline_iff_last :
    let c := waiting ⟨9223372036854775806⟩
    let now := (c.surroundings.asking true (c.surroundings.now ⟨1⟩).2).1
    0 ≤ now.micros.toInt ∧ 0 ≤ c.config.proofTimeout.micros.toInt ∧
      ∃ request ∈ (c.checkOne true echoSct echoLeaf ⟨1⟩).requests, now ≤ request.1.deadline := by
  intro c now
  have since1970 : 0 ≤ now.micros.toInt := by decide
  have forward : 0 ≤ c.config.proofTimeout.micros.toInt := by decide
  obtain ⟨request, asked⟩ := exists_mem_requests_waiting ⟨9223372036854775806⟩ ⟨1⟩
  have left := c.now_le_deadline_iff true echoSct echoLeaf ⟨1⟩ since1970 forward request asked
  exact ⟨since1970, forward, request, asked, left.2 (by decide)⟩

/-- At the same moment the longest time to wait ends before 1970, and so before it begins. -/
theorem deadline_lt_now_of_longest :
    let c := waiting .longest
    let now := (c.surroundings.asking true (c.surroundings.now ⟨1⟩).2).1
    0 ≤ now.micros.toInt ∧ 0 ≤ c.config.proofTimeout.micros.toInt ∧
      ∃ request ∈ (c.checkOne true echoSct echoLeaf ⟨1⟩).requests,
        request.1.deadline < Instant.epoch ∧ request.1.deadline < now := by
  intro c now
  obtain ⟨request, asked⟩ := exists_mem_requests_waiting .longest ⟨1⟩
  refine ⟨by decide, by decide, request, asked, ?_⟩
  rw [deadline_of_mem_requests asked]
  decide

end Transparency.Checker
