import Transparency.Proofs.Certificate.Canonical
import Transparency.Proofs.Certificate.Locality

/-!
# Faithful codecs

An object of a codec stands for the body of a certificate. A faithful codec reads certificates in
their one form, finds and takes off extensions of the bodies that its objects stand for, and writes
what is left from its values. Where the last extension was taken off, it may leave out the list of
extensions or write an empty one. The codec for certificates in memory is faithful.
-/
namespace Transparency

open Ber (lengthLimit)

namespace CertificateBody

/-- The body with other extensions. -/
def extended (b : CertificateBody) (extensions : List Extension) : CertificateBody :=
  { b with extensions }

/-- The body with an empty list of extensions that is written all the same. -/
def writeEmptied (b : CertificateBody) : Bytes :=
  b.writeWith (Der.constructed (.context 3) [Der.sequence []])

/-- Whether `bytes` are the body as it may be written when an extension was taken off. -/
def Rewritten (b : CertificateBody) (bytes : Bytes) : Prop :=
  bytes = b.write ∨ b.extensions = [] ∧ bytes = b.writeEmptied

end CertificateBody

theorem Certificate.write_ne_nil (cert : Certificate) : cert.write ≠ [] := by
  have positive := Der.length_contents_lt .sequence true
    [cert.signed, cert.algorithm.write, cert.signature.write .bitString].flatten
  exact List.length_pos_iff.1 (Nat.zero_lt_of_lt positive)

namespace Codec

variable {codec : Codec} {bs : Bytes} {c : codec.Object}

theorem decode_eq_ok_iff : codec.decode bs = .ok c ↔ bs ≠ [] ∧ codec.read bs = some (c, []) := by
  unfold decode
  by_cases empty : bs = []
  · simp [empty]
  · simp only [List.isEmpty_iff, empty, if_false, ne_eq, not_false_eq_true, true_and]
    constructor
    · intro decoded
      split at decoded
      next found =>
        rw [← Except.ok.inj decoded]
        exact found
      · cases decoded
    · intro found
      rw [found]

/-- What is relied on of a codec whose objects stand for the bodies that `view` tells, and which
writes a body as `rewrite` tells once an extension was taken off. -/
structure Faithful (codec : Codec) (view : codec.Object → CertificateBody)
    (rewrite : CertificateBody → Bytes) : Prop where
  /-- A certificate in its one form is read whole, and can be copied. -/
  reads : ∀ cert : Certificate, cert.Canonical → cert.write.length < lengthLimit →
    ∃ c copy, codec.read cert.write = some (c, []) ∧ view c = cert.body ∧
      codec.copy? c = some copy
  copies : ∀ bs c rest copy, codec.read bs = some (c, rest) → codec.copy? c = some copy →
    view copy = view c
  finds : ∀ c id, codec.find? c id = (view c).extensions.findIdx? fun e => e.id = id
  values : ∀ c i, codec.value? c i = (view c).extensions[i]?.map (·.value)
  removes : ∀ c i, i < (view c).extensions.length → ∃ left, codec.remove? c i = some left ∧
    view left = (view c).extended ((view c).extensions.eraseIdx i)
  /-- What is left is written if it is in its one form, -/
  writes : ∀ c i left, codec.remove? c i = some left → (view left).Canonical →
    ∃ bytes, codec.body? left = some bytes
  /-- and if it is written then from its values alone. -/
  rewrites : ∀ c i left bytes, codec.remove? c i = some left → codec.body? left = some bytes →
    bytes = rewrite (view left)
  rewritten : ∀ b : CertificateBody, b.Canonical → b.Rewritten (rewrite b)
  keys : ∀ bs c rest, codec.read bs = some (c, rest) → codec.key? c = some (view c).key.write
  octets : ∀ bytes, (Der.primitive .octetString bytes).length < lengthLimit →
    codec.octets? (Der.primitive .octetString bytes) = some (bytes, [])

theorem faithful_standard : standard.Faithful Certificate.body CertificateBody.write where
  reads cert canonical short :=
    have whole := (canonical.reads short).eq_some
    have below := Certificate.readBelow_eq_some_iff.2 ⟨short, whole⟩
    ⟨cert, cert, below, rfl, by simp only [standard, Certificate.copy?, below, Option.map_some]⟩
  copies _ _ _ _ found copied := Certificate.body_copy? found copied
  finds _ _ := rfl
  values _ _ := rfl
  removes c i within := ⟨c.removeAt i, if_pos within, rfl⟩
  writes _ _ left _ _ := ⟨left.body.write, rfl⟩
  rewrites _ _ _ _ _ written := (Option.some.inj written).symm
  rewritten _ _ := .inl rfl
  keys _ _ _ _ := rfl
  octets _ short := (Ber.reads_string (by decide) short).eq_some

/-! ## Whole certificates -/

variable {view : codec.Object → CertificateBody} {rewrite : CertificateBody → Bytes}

theorem Faithful.exists_decode (faithful : codec.Faithful view rewrite) {cert : Certificate}
    (canonical : cert.Canonical) (short : cert.write.length < lengthLimit) :
    ∃ c copy, codec.decode cert.write = .ok c ∧ view c = cert.body ∧ codec.copy? c = some copy ∧
      view copy = cert.body := by
  obtain ⟨c, copy, found, body, copied⟩ := faithful.reads cert canonical short
  exact ⟨c, copy, decode_eq_ok_iff.2 ⟨cert.write_ne_nil, found⟩, body, copied,
    (faithful.copies _ _ _ _ found copied).trans body⟩

end Codec

end Transparency
