import Transparency.Log.Inclusion
import Transparency.Proofs.Wire.Writing

/-!
# What a log accepts

The judgements of a log always end, because its hash algorithm is a real one and all that it writes
fits. What it accepts is then a list of conditions.
-/
namespace Transparency.Log

open Wire

variable {suite : Suite} {log : Log}

/-! ## Timestamps -/

theorem exists_verifySct (suite : Suite) (log : Log) (entry : Entry) (sct : Sct) :
    ∃ verdict, log.verifySct suite entry sct = .ok verdict := by
  simp only [verifySct, entry.encode_eq_ok, Sct.signedData_eq_ok, signs_eq_ok, bind, Except.bind,
    pure, Except.pure]
  repeat' split
  all_goals exact ⟨_, rfl⟩

/-! ## Tree heads -/

theorem exists_verifyHead (suite : Suite) (log : Log) (head : TreeHead) :
    ∃ verdict, log.verifyHead suite head = .ok verdict := by
  simp only [verifyHead, head.signedData_eq_ok, signs_eq_ok, bind, Except.bind, pure, Except.pure]
  repeat' split
  all_goals exact ⟨_, rfl⟩

theorem verifyHead_eq_ok_iff {head : TreeHead} :
    log.verifyHead suite head = .ok (.ok ()) ↔
      head.signature.hasParameters log.hash log.scheme = true ∧
        suite.verifies log.hash log.key (encoding head.signedFields).bytes head.signature.data =
          true ∧
        (head.treeSize = 0 → head.root.bytes = emptyRoot) := by
  simp only [verifyHead, head.signedData_eq_ok, signs_eq_ok, bind, Except.bind, pure, Except.pure]
  grind

/-! ## Proofs of inclusion -/

theorem checkPath_eq_ok_iff {head : TreeHead} {proof : Merkle.Proof} {leafHash : Digest} :
    checkPath suite head proof leafHash = .ok () ↔
      proof.treeSize = head.treeSize ∧ proof.checkShape = .ok () ∧
        proof.verifies suite.digest head.root.bytes leafHash.bytes = true := by
  unfold checkPath
  grind

theorem exists_checkInclusion (suite : Suite) (log : Log) (timestamp : Instant) (leafHash : Digest)
    (head : TreeHead) (proof : Merkle.Proof) :
    ∃ verdict, log.checkInclusion suite timestamp leafHash head proof = .ok verdict := by
  obtain ⟨verdict, judged⟩ := exists_verifyHead suite log head
  simp only [checkInclusion, judged, bind, Except.bind, pure, Except.pure]
  repeat' split
  all_goals exact ⟨_, rfl⟩

theorem checkInclusion_eq_ok_iff {timestamp : Instant} {leafHash : Digest} {head : TreeHead}
    {proof : Merkle.Proof} :
    log.checkInclusion suite timestamp leafHash head proof = .ok (.ok ()) ↔
      head.logId = log.id.bytes ∧ log.verifyHead suite head = .ok (.ok ()) ∧
        ¬ head.timestamp < timestamp ∧ checkPath suite head proof leafHash = .ok () := by
  obtain ⟨verdict, judged⟩ := exists_verifyHead suite log head
  simp only [checkInclusion, judged, bind, Except.bind, pure, Except.pure]
  grind

end Transparency.Log
