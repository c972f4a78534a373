import Transparency.Key.Reader
import Transparency.Proofs.Check.Outcome
import Transparency.Proofs.Log.SignedData

/-!
# Promises and leaves

What a log signs in a timestamp is, byte for byte, the leaf that the timestamp promises. So a proof of
inclusion is about the bytes whose signature was verified, and once that signature is verified the
leaf has a hash.
-/
namespace Transparency

variable {leaf : Leaf} {sct : Sct} {message : Bytes} {digest : Bytes → Digest}

/-- The two writers agree: one writes the fields of the entry among its own, the other puts in the
entry as it was written before. -/
theorem Leaf.encode_bind_iff :
    (leaf.bind sct).encode = .ok ⟨message, true⟩ ↔ sct.Signs leaf.entry message :=
  Sct.signs_iff.symm

theorem Leaf.hash_eq_some_iff {leafHash : Digest} :
    leaf.hash digest = some leafHash ↔
      ∃ encoded, leaf.encode = .ok ⟨encoded, true⟩ ∧ leafHash = Merkle.leafHash digest encoded := by
  constructor
  · exact Leaf.hash_eq_some
  · rintro ⟨encoded, complete, rfl⟩
    rw [leaf.encode_eq_ok, Except.ok.injEq] at complete
    simp only [Leaf.hash, complete, if_true, Merkle.leafHash]

theorem Sct.Signs.hash?_bind (signs : sct.Signs leaf.entry message) :
    (leaf.bind sct).hash? digest = .ok (some (digest (0 :: message))) := by
  have complete := Leaf.encode_bind_iff.2 signs
  rw [Leaf.hash?_eq_ok, Leaf.hash_eq_some_iff.2 ⟨message, complete, rfl⟩, Merkle.leafHash]

/-- A leaf that is bound to a timestamp is written if and only if what a log signs in the timestamp
is, and in the same bytes. Its hash is the hash of those bytes, whatever time and extensions it had
before, and it has one whenever a log has signed the entry in the timestamp. -/
theorem Leaf.bind_encodes_signed (leaf : Leaf) (sct : Sct) :
    (∃ written, (leaf.bind sct).encode = .ok written) ∧
      (∀ message, (leaf.bind sct).encode = .ok ⟨message, true⟩ ↔ sct.Signs leaf.entry message) ∧
        (∀ digest, ∃ hash?, (leaf.bind sct).hash? digest = .ok hash? ∧ ∀ leafHash,
          hash? = some leafHash ↔
            ∃ message, sct.Signs leaf.entry message ∧ leafHash = digest (0 :: message)) ∧
          (∀ other : Leaf, other.entry = leaf.entry → ∀ digest,
            (other.bind sct).hash? digest = (leaf.bind sct).hash? digest) ∧
            ∀ suite log, Log.verifySct suite log leaf.entry sct = .ok (.ok ()) →
              ∃ message, sct.Signs leaf.entry message ∧
                suite.verifies log.hash log.key message sct.signature.data = true ∧
                  (leaf.bind sct).hash? suite.digest =
                    .ok (some (suite.digest (0 :: message))) := by
  refine ⟨⟨_, (leaf.bind sct).encode_eq_ok⟩, fun message => encode_bind_iff, fun digest => ?hash,
    fun other same digest => ?unbound, fun suite log accepted => ?signed⟩
  case hash =>
    refine ⟨_, (leaf.bind sct).hash?_eq_ok digest, fun leafHash => ?_⟩
    simp only [hash_eq_some_iff, encode_bind_iff, Merkle.leafHash]
  case unbound =>
    rw [Leaf.bind, Leaf.bind, same]
  case signed =>
    obtain ⟨-, -, message, signs, verified⟩ := Log.verifySct_eq_ok_iff.1 accepted
    exact ⟨message, signs, verified, signs.hash?_bind⟩

/-- A precertificate with extensions, promised two milliseconds before the epoch. A signature is the
message itself, and the leaf has a time and extensions of its own before it is bound. -/
theorem Leaf.bind_encodes_signed_precertificate :
    let suite : Suite :=
      { Suite.standard with
        digest := fun bytes =>
          (Digest.ofBytes? ((bytes ++ List.replicate 32 0).take 32)).getD .zero
        verifies := fun _ _ message signature => message = signature }
    let log : Log :=
      { id := .zero, key := .rsa 0 0, hash := .sha256, scheme := .rsa, description := "early"
        url := "", mergeDelay := .ofMinutes 1, hash_hashes := rfl }
    let leaf : Leaf :=
      { entry := { kind := .precertificate, certificate := [9], body := [4, 2] }
        timestamp := .ofMillis 5, extensions := [6] }
    let message : Bytes :=
      [0, 0, 255, 255, 255, 255, 255, 255, 255, 254, 0, 1] ++ Digest.zero.bytes ++
        [0, 0, 2, 4, 2, 0, 1, 7]
    let sct : Sct :=
      { logId := log.id.bytes, timestamp := .ofMillis (-2), extensions := [7]
        signature := ⟨.sha256, .rsa, message⟩ }
    log.verifySct suite leaf.entry sct = .ok (.ok ()) ∧ sct.Signs leaf.entry message ∧
      (leaf.bind sct).encode = .ok ⟨message, true⟩ ∧
        (leaf.bind sct).hash? suite.digest = .ok (some (suite.digest (0 :: message))) := by
  intro suite log leaf message sct
  have accepted : log.verifySct suite leaf.entry sct = .ok (.ok ()) := by decide +kernel
  obtain ⟨-, encodes, -, -, signed⟩ := leaf.bind_encodes_signed sct
  obtain ⟨message', signs, verified, hashed⟩ := signed suite log accepted
  obtain rfl : message' = message := of_decide_eq_true verified
  exact ⟨accepted, signs, (encodes message).2 signs, hashed⟩

end Transparency
