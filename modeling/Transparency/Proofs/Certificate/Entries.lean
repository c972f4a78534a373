import Transparency.Certificate.Evidence
import Transparency.Digest.Sha256
import Transparency.Proofs.Certificate.Faithful

/-!
# Entries of marked certificates

Out of one body a precertificate is made by marking it as such, and a final certificate by adding
the timestamps that it got. Wherever the extensions for that are put and whatever is signed around
the body, both certificates have one entry, with the body as it is written without them.
-/
namespace Transparency

open Ber (lengthLimit)

namespace CertificateBody

/-- Whether a body has an extension for `marker` between others, and none before it. -/
structure Bears (b : CertificateBody) (marker : Marker) (before : List Extension) (e : Extension)
    (after : List Extension) : Prop where
  place : b.extensions = before ++ e :: after
  id : e.id = marker.id
  first : ∀ x ∈ before, x.id ≠ marker.id

/-- Whether no extension is one of those that are left out of entries. -/
def Unmarked (b : CertificateBody) : Prop := ∀ e ∈ b.extensions, ∀ marker : Marker, e.id ≠ marker.id

/-- Whether `bytes` are a certificate for the body with one extension for `marker` more, at some
place among the others. -/
inductive Marked (b : CertificateBody) (marker : Marker) : Bytes → Prop
  | intro {before after : List Extension} {e : Extension} {algorithm : Algorithm}
      {signature : BitString} (place : b.extensions = before ++ after) (id : e.id = marker.id)
      (algorithmCanonical : algorithm.Canonical) (signatureCanonical : signature.Canonical)
      (short : (Certificate.ofBody (b.extended (before ++ e :: after)) algorithm
        signature).write.length < lengthLimit) :
      Marked b marker
        (Certificate.ofBody (b.extended (before ++ e :: after)) algorithm signature).write

variable {b : CertificateBody} {marker : Marker} {before after : List Extension} {e : Extension}

theorem Bears.findIdx? (bears : b.Bears marker before e after) :
    (b.extensions.findIdx? fun x => x.id = marker.id) = some before.length := by
  have skipped : (before.findIdx? fun x => x.id = marker.id) = none :=
    List.findIdx?_eq_none_iff.2 fun x member => by simpa using bears.first x member
  simp [bears.place, List.findIdx?_append, skipped, List.findIdx?_cons, bears.id]

theorem Bears.within (bears : b.Bears marker before e after) :
    before.length < b.extensions.length := by
  simp [bears.place]

theorem Bears.eraseIdx (bears : b.Bears marker before e after) :
    b.extensions.eraseIdx before.length = before ++ after := by
  simp [bears.place, List.eraseIdx_append_of_length_le]

theorem Canonical.extended (canonical : b.Canonical) (place : b.extensions = before ++ after)
    (formed : Oid.isWellFormed e.id.contents = true) :
    (b.extended (before ++ e :: after)).Canonical := by
  refine { canonical with extensions := fun x member => ?_ }
  obtain member | rfl | member : x ∈ before ∨ x = e ∨ x ∈ after := by
    simpa [CertificateBody.extended] using member
  · exact canonical.extensions x (place ▸ List.mem_append_left after member)
  · exact formed
  · exact canonical.extensions x (place ▸ List.mem_append_right before member)

end CertificateBody

theorem Marker.isWellFormed_id (marker : Marker) : Oid.isWellFormed marker.id.contents = true := by
  cases marker <;> decide +kernel

/-! ## Steps -/

namespace Entry

variable {codec : Codec} {digest : Bytes → Digest} {marker : Marker}
  {certificate issuer body : Bytes} {hash : Digest} {entry : Entry}

theorem bind_eq_ok_iff {ε α β : Type} {x : Except ε α} {f : α → Except ε β} {b : β} :
    (x >>= f) = .ok b ↔ ∃ a, x = .ok a ∧ f a = .ok b := by
  cases x <;> simp [bind, Except.bind]

theorem mapError_eq_ok_iff {ε ε' α : Type} {x : Except ε α} {f : ε → ε'} {a : α} :
    x.mapError f = .ok a ↔ x = .ok a := by
  cases x <;> simp [Except.mapError]

theorem expect_eq_ok_iff {α : Type} {fault : Fault} {x : Option α} {a : α} :
    expect fault x = .ok a ↔ x = some a := by
  cases x <;> simp [expect]

theorem unmarkedBody_eq_ok_iff :
    unmarkedBody codec marker certificate = .ok body ↔
      ∃ c i copy left, codec.decode certificate = .ok c ∧ codec.find? c marker.id = some i ∧
        codec.copy? c = some copy ∧ codec.remove? copy i = some left ∧
          codec.body? left = some body := by
  simp only [unmarkedBody, bind_eq_ok_iff, mapError_eq_ok_iff, expect_eq_ok_iff]
  tauto

theorem hashIssuerKey_eq_ok_iff :
    hashIssuerKey codec digest issuer = .ok hash ↔
      ∃ c key, codec.decode issuer = .ok c ∧ codec.key? c = some key ∧ digest key = hash := by
  simp only [hashIssuerKey, bind_eq_ok_iff, mapError_eq_ok_iff, expect_eq_ok_iff,
    pure, Except.pure, Except.ok.injEq]
  tauto

theorem ofMarked_eq_ok_iff :
    ofMarked codec digest marker certificate issuer = .ok entry ↔
      ∃ body hash, unmarkedBody codec marker certificate = .ok body ∧
        hashIssuerKey codec digest issuer = .ok hash ∧
          { kind := .precertificate, issuerKeyHash := hash, body : Entry } = entry := by
  simp only [ofMarked, bind_eq_ok_iff, pure, Except.pure, Except.ok.injEq]
  tauto

end Entry

/-! ## Faithful codecs -/

namespace Codec.Faithful

variable {codec : Codec} {view : codec.Object → CertificateBody}
  {rewrite : CertificateBody → Bytes} {c copy : codec.Object} {bs : Bytes} {marker : Marker}
  {before after : List Extension} {e : Extension}

theorem find?_of_bears (faithful : codec.Faithful view rewrite)
    (bears : (view c).Bears marker before e after) :
    codec.find? c marker.id = some before.length := by
  rw [faithful.finds, bears.findIdx?]

/-- What is taken off at the place of a mark is the extension that makes it. -/
theorem exists_remove? (faithful : codec.Faithful view rewrite)
    (bears : (view copy).Bears marker before e after) :
    ∃ left, codec.remove? copy before.length = some left ∧
      view left = (view copy).extended (before ++ after) := by
  obtain ⟨left, removed, body⟩ := faithful.removes copy before.length bears.within
  exact ⟨left, removed, bears.eraseIdx ▸ body⟩

/-- What is left of a body is written if it is in its one form. -/
theorem exists_body? (faithful : codec.Faithful view rewrite) {i : Nat} {left : codec.Object}
    (removed : codec.remove? copy i = some left) (canonical : (view left).Canonical) :
    codec.body? left = some (rewrite (view left)) := by
  obtain ⟨bytes, written⟩ := faithful.writes copy i left removed canonical
  rw [written, faithful.rewrites copy i left bytes removed written]

end Codec.Faithful

/-! ## Entries -/

namespace Entry

variable {codec : Codec} {view : codec.Object → CertificateBody}
  {rewrite : CertificateBody → Bytes} {b : CertificateBody} {marker : Marker}
  {certificate issuer precertificate final : Bytes} {i : codec.Object}

/-- The body that is left of a marked certificate is the one that was marked. -/
theorem unmarkedBody_of_marked (faithful : codec.Faithful view rewrite) (canonical : b.Canonical)
    (unmarked : b.Unmarked) (marked : b.Marked marker certificate) :
    unmarkedBody codec marker certificate = .ok (rewrite b) := by
  obtain @⟨before, after, e, outer, signed, place, id, algorithm, signature, short⟩ := marked
  have whole : (Certificate.ofBody (b.extended (before ++ e :: after)) outer signed).Canonical :=
    Certificate.canonical_ofBody (canonical.extended place (id ▸ marker.isWellFormed_id)) algorithm
      signature
  obtain ⟨c, copy, decoded, body, copied, bodyOfCopy⟩ := faithful.exists_decode whole short
  change view c = b.extended (before ++ e :: after) at body
  change view copy = b.extended (before ++ e :: after) at bodyOfCopy
  have bears : (b.extended (before ++ e :: after)).Bears marker before e after :=
    ⟨rfl, id, fun x member => unmarked x (place ▸ List.mem_append_left after member) marker⟩
  have found : codec.find? c marker.id = some before.length :=
    faithful.find?_of_bears (body.symm ▸ bears)
  obtain ⟨left, removed, bodyLeft⟩ := faithful.exists_remove? (bodyOfCopy.symm ▸ bears)
  have same : view left = b := by
    rw [bodyLeft, bodyOfCopy, ← place]
    rfl
  have written := faithful.exists_body? removed (same ▸ canonical)
  rw [same] at written
  exact unmarkedBody_eq_ok_iff.2 ⟨c, _, copy, left, decoded, found, copied, removed, written⟩

theorem hashIssuerKey_of_decode (faithful : codec.Faithful view rewrite)
    (digest : Bytes → Digest) (issued : codec.decode issuer = .ok i) :
    hashIssuerKey codec digest issuer = .ok (digest (view i).key.write) :=
  hashIssuerKey_eq_ok_iff.2
    ⟨i, _, issued, faithful.keys issuer i [] (Codec.decode_eq_ok_iff.1 issued).2, rfl⟩

/-- The entry for a marked certificate is that of the body alone. -/
theorem ofMarked_of_marked (faithful : codec.Faithful view rewrite) (digest : Bytes → Digest)
    (canonical : b.Canonical) (unmarked : b.Unmarked) (marked : b.Marked marker certificate)
    (issued : codec.decode issuer = .ok i) :
    ofMarked codec digest marker certificate issuer =
      .ok { kind := .precertificate, issuerKeyHash := digest (view i).key.write
            body := rewrite b } :=
  ofMarked_eq_ok_iff.2 ⟨_, _, unmarkedBody_of_marked faithful canonical unmarked marked,
    hashIssuerKey_of_decode faithful digest issued, rfl⟩

end Entry

end Transparency
