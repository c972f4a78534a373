import Transparency.Certificate.Codec
import Transparency.Key.Reader
import Transparency.Proofs.Check.Outcome
import Transparency.Proofs.Merkle.Binding
import Transparency.Proofs.Sct.Codec

/-!
# Old timestamps

A timestamp that is older than the merge delay of its log is good only by a proof of inclusion.
Whoever provides that proof, it carries a head that the log has signed since, and every tree of the
size and the root of that head holds the entry of the timestamp at the place the proof tells, unless
the digest has a collision among the strings that were hashed.
-/
namespace Transparency

/-- What the head of a tree and an audit path show of an encoded leaf and its time. -/
structure Log.Commits (suite : Suite) (log : Log) (time : Instant) (encoded : Bytes)
    (head : TreeHead) (proof : Merkle.Proof) : Prop where
  issuer : head.logId = log.id.bytes
  signed : ∃ message, head.signedData = .ok ⟨message, true⟩ ∧
    suite.verifies log.hash log.key message head.signature.data = true
  recent : time.stamp ≤ head.timestamp.stamp
  holds : ∀ leaves : List Bytes, leaves.length = head.treeSize.toNat →
    Merkle.root suite.digest leaves = head.root →
      leaves[proof.leafIndex.toNat]? = some encoded ∨
        Merkle.Collide suite.digest (Merkle.treeInputs suite.digest leaves)
          (Merkle.leafInput encoded ::
            proof.inputs suite.digest (Merkle.leafHash suite.digest encoded).bytes)

theorem Log.commits_of_checkInclusion {suite : Suite} {log : Log} {time : Instant}
    {encoded : Bytes} {head : TreeHead} {proof : Merkle.Proof} (since1970 : 0 ≤ time.micros.toInt)
    (included : log.checkInclusion suite time (Merkle.leafHash suite.digest encoded) head proof =
      .ok (.ok ())) : log.Commits suite time encoded head proof := by
  obtain ⟨issuer, judged, recent, path⟩ := checkInclusion_eq_ok_iff.1 included
  obtain ⟨-, signed, -⟩ := verifyHead_eq_ok_iff.1 judged
  obtain ⟨size, -, verified⟩ := checkPath_eq_ok_iff.1 path
  refine ⟨issuer, ⟨_, head.signedData_eq_ok, signed⟩, Instant.stamp_le_stamp since1970 recent, ?_⟩
  intro leaves length root
  exact Merkle.root_binds_leaf (length.trans (by rw [size])) (by rwa [root])

namespace Checker

variable {σ : Type} {c : Checker σ} {watched : Bool} {log : Log} {sct : Sct} {leaf : Leaf} {s t : σ}

theorem included_eq_true {leafHash? : Option Digest}
    (included : c.included watched log sct leafHash? s = (true, t)) :
    ∃ leafHash provider head proof, leafHash? = some leafHash ∧
      c.surroundings.provider = some provider ∧
        provider (c.request log sct leafHash (c.surroundings.asking watched s).1) watched
            (c.surroundings.asking watched s).2 = (.available head proof, t) ∧
          log.checkInclusion c.suite sct.timestamp leafHash head proof = .ok (.ok ()) := by
  unfold Checker.included at included
  cases leafHash? with
  | none => cases included
  | some leafHash =>
    cases provided : c.surroundings.provider with
    | none => simp [provided] at included
    | some provider =>
      simp only [provided] at included
      split at included
      · cases included
      · obtain ⟨convinced, rfl⟩ := Prod.mk.inj included
        obtain ⟨head, proof, reply, judged⟩ := (c.convinces_iff log sct).1 convinced
        exact ⟨leafHash, provider, head, proof, rfl, rfl, Prod.ext reply rfl, judged⟩

theorem judgement_eq_ok (judged : c.judgement watched log sct leaf s = (.ok, t)) :
    c.included watched log sct ((leaf.bind sct).hash c.suite.digest) (c.surroundings.now s).2 =
        (true, t) ∨
      isFresh log (c.surroundings.now s).1 sct = true := by
  unfold judgement at judged
  grind

/-- Whether a provider has answered for a timestamp between two states, with a head and a place that
commit to the entry it was asked about. -/
def Answered (c : Checker σ) (watched : Bool) (log : Log) (sct : Sct) (leaf : Leaf) (s t : σ) :
    Prop :=
  let asking := c.surroundings.asking watched s
  ∃ provider encoded head proof, c.surroundings.provider = some provider ∧
    (leaf.bind sct).encode = .ok ⟨encoded, true⟩ ∧
      provider (c.request log sct (Merkle.leafHash c.suite.digest encoded) asking.1) watched
          asking.2 = (.available head proof, t) ∧
        log.Commits c.suite sct.timestamp encoded head proof

/-- A timestamp that is good although its log should have added the entry long ago has been answered
for. -/
theorem answered_of_stale (c : Checker σ) {bytes : Bytes} {decoded : Option Sct}
    (accepted : (c.checkOne watched bytes leaf s).outcome = .ok ((.ok, decoded), t)) :
    ∃ sct log, Sct.decodeWhole bytes = .ok sct ∧ c.registry.find? sct.logId = some log ∧
      decoded = some { sct with logDescription := log.description } ∧
        (log.mergeDelay ≤ (c.surroundings.now s).1 - sct.timestamp →
          c.Answered watched log sct leaf (c.surroundings.now s).2 t) := by
  have verdict : c.verdict watched bytes leaf s = ((.ok, decoded), t) :=
    Except.ok.inj ((c.outcome_checkOne watched bytes leaf s).symm.trans accepted)
  obtain ⟨sct, log, read, known, named, judged⟩ := verdict_eq_ok verdict
  refine ⟨sct, log, read, known, named, fun stale => ?_⟩
  have old : isFresh log (c.surroundings.now s).1 sct = false :=
    decide_eq_false (Int64.not_lt.2 stale)
  obtain included | fresh := judgement_eq_ok judged
  · obtain ⟨leafHash, provider, head, proof, hash, provided, answered, judged⟩ :=
      included_eq_true included
    obtain ⟨encoded, complete, rfl⟩ := Leaf.hash_eq_some hash
    exact ⟨provider, encoded, head, proof, provided, complete, answered,
      Log.commits_of_checkInclusion (Sct.timestamp_nonneg read) judged⟩
  · exact absurd (old.symm.trans fresh) Bool.false_ne_true

/-- An entry that is ten minutes older than its log allows, in a tree of its own whose head was
signed a millisecond later. A signature is the message itself, and each reading of the clock takes
a millisecond. -/
theorem answered_of_stale_alone :
    let suite : Suite :=
      { Suite.standard with
        digest := fun bytes =>
          (Digest.ofBytes? ((bytes ++ List.replicate 32 0).take 32)).getD .zero
        verifies := fun _ _ message signature => message = signature }
    let log : Log :=
      { id := .zero, key := .rsa 0 0, hash := .sha256, scheme := .rsa, description := "alone"
        url := "", mergeDelay := .ofMinutes 1, hash_hashes := rfl }
    let leaf : Leaf := { entry := { certificate := [42] } }
    let promise : Bytes := [0, 0, 0, 0, 0, 0, 0, 0, 0, 7, 0, 0, 0, 0, 1, 42, 0, 0]
    let sct : Sct :=
      { logId := log.id.bytes, timestamp := .ofMillis 7, signature := ⟨.sha256, .rsa, promise⟩ }
    let bytes : Bytes :=
      0 :: sct.logId ++ [0, 0, 0, 0, 0, 0, 0, 7, 0, 0, 4, 1, 0, 18] ++ promise
    let root : Digest := suite.digest (0 :: promise)
    let head : TreeHead :=
      { timestamp := .ofMillis 8, treeSize := 1, root, logId := log.id.bytes
        signature := ⟨.sha256, .rsa,
          [0, 1, 0, 0, 0, 0, 0, 0, 0, 8, 0, 0, 0, 0, 0, 0, 0, 1] ++ root.bytes⟩ }
    let c : Checker Nat :=
      { suite, codec := .standard, registry := ⟨[log], List.pairwise_singleton _ _⟩, config := {}
        surroundings :=
          { now := fun read => (.ofMillis (660007 + .ofNat read), read + 1)
            cancelled := fun read => (false, read)
            provider := some fun _ _ read => (.available head ⟨0, 1, []⟩, read) } }
    (c.checkOne false bytes leaf 0).outcome =
        .ok ((.ok, some { sct with logDescription := "alone" }), 2) ∧
      log.mergeDelay ≤ (c.surroundings.now 0).1 - sct.timestamp ∧
        c.Answered false log sct leaf 1 2 := by
  intro suite log leaf promise sct bytes root head c
  have accepted : (c.checkOne false bytes leaf 0).outcome =
      .ok ((.ok, some { sct with logDescription := "alone" }), 2) := by
    rw [c.outcome_checkOne]
    exact congrArg Except.ok (by decide +kernel)
  have stale : log.mergeDelay ≤ (c.surroundings.now 0).1 - sct.timestamp := by decide
  obtain ⟨sct', log', read, known, -, answered⟩ := c.answered_of_stale accepted
  obtain rfl : sct = sct' := by
    have read' : Sct.decodeWhole bytes = .ok sct := rfl
    exact Except.ok.inj (read'.symm.trans read)
  obtain rfl : log = log' := by
    have known' : c.registry.find? sct.logId = some log := by decide +kernel
    exact Option.some.inj (known'.symm.trans known)
  exact ⟨accepted, stale, answered stale⟩

end Checker

end Transparency
