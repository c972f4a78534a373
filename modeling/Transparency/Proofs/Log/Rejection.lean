import Transparency.Proofs.Log.SignedData

/-!
# Why a log does not vouch

There is one message that a log signs for an entry in a timestamp, unless the entry or the extensions
are too long to be written. A log does not vouch for the entry if the timestamp is not its own, if
the algorithms are not those of its key, if there is no message, or if the signature is none over it.
-/
namespace Transparency

open Wire

variable {suite : Suite} {log : Log} {entry : Entry} {sct : Sct} {message message' : Bytes}

/-! ## Messages -/

/-- The certificate or the body, whichever the kind selects. -/
def Entry.payload (e : Entry) : Bytes :=
  match e.kind with
  | .certificate => e.certificate
  | .precertificate => e.body

theorem Entry.complete_iff {e : Entry} :
    (encoding e.fields).complete = true ↔ e.payload.length < 16777216 := by
  unfold fields selected payload
  cases e.kind <;> simp [encoding]

theorem Sct.complete_signedFields_iff {timestamp : Instant} {entry extensions : Bytes} :
    (encoding (signedFields timestamp entry extensions)).complete = true ↔
      extensions.length < 65536 := by
  simp [encoding, signedFields, Instant.field_eq]

/-- What is written if nothing is too long. -/
theorem Sct.signs_of_complete (whole : (encoding entry.fields).complete = true)
    (signed : (encoding (signedFields sct.timestamp (encoding entry.fields).bytes
      sct.extensions)).complete = true) :
    sct.Signs entry
      (encoding (signedFields sct.timestamp (encoding entry.fields).bytes sct.extensions)).bytes :=
  ⟨_, by rw [entry.encode_eq_ok, ← whole], by rw [signedData_eq_ok, ← signed]⟩

theorem Sct.exists_signs_iff :
    (∃ message, sct.Signs entry message) ↔
      entry.payload.length < 16777216 ∧ sct.extensions.length < 65536 := by
  constructor
  · rintro ⟨message, encoded, whole, signed⟩
    rw [entry.encode_eq_ok, Except.ok.injEq] at whole
    rw [signedData_eq_ok, Except.ok.injEq] at signed
    exact ⟨Entry.complete_iff.1 (congrArg Encoding.complete whole),
      complete_signedFields_iff.1 (congrArg Encoding.complete signed)⟩
  · rintro ⟨payload, extensions⟩
    exact ⟨_, signs_of_complete (Entry.complete_iff.2 payload)
      (complete_signedFields_iff.2 extensions)⟩

theorem Sct.Signs.unique (signs : sct.Signs entry message) (signs' : sct.Signs entry message') :
    message = message' := by
  obtain ⟨encoded, whole, signed⟩ := signs
  obtain ⟨encoded', whole', signed'⟩ := signs'
  grind

/-! ## Grounds -/

/-- What is the case if a log does not vouch for an entry for a reason. -/
def Log.Grounds (suite : Suite) (log : Log) (entry : Entry) (sct : Sct) : Log.Rejection → Prop
  | .otherLog => sct.logId ≠ log.id.bytes
  | .parameters given =>
    given = sct.signature ∧ sct.signature.hasParameters log.hash log.scheme = false
  | .longEntry => 16777216 ≤ entry.payload.length
  | .longExtensions => 65536 ≤ sct.extensions.length
  | .signature => ∃ message, sct.Signs entry message ∧
      suite.verifies log.hash log.key message sct.signature.data = false
  | .emptyTreeRoot => False

theorem Log.grounds_of_verifySct {rejection : Log.Rejection}
    (rejected : log.verifySct suite entry sct = .ok (.error rejection)) :
    log.Grounds suite entry sct rejection := by
  simp only [verifySct, entry.encode_eq_ok, Sct.signedData_eq_ok, signs_eq_ok, bind, Except.bind,
    pure, Except.pure, Bool.not_eq_true'] at rejected
  split at rejected
  · next other =>
    obtain rfl := Except.error.inj (Except.ok.inj rejected)
    exact other
  split at rejected
  · next parameters =>
    obtain rfl := Except.error.inj (Except.ok.inj rejected)
    exact ⟨rfl, parameters⟩
  split at rejected
  · next long =>
    obtain rfl := Except.error.inj (Except.ok.inj rejected)
    exact Nat.le_of_not_lt fun short => by simp [Entry.complete_iff.2 short] at long
  next whole =>
  split at rejected
  · next long =>
    obtain rfl := Except.error.inj (Except.ok.inj rejected)
    exact Nat.le_of_not_lt fun short => by simp [Sct.complete_signedFields_iff.2 short] at long
  next signed =>
  split at rejected
  · cases rejected
  · next forged =>
    obtain rfl := Except.error.inj (Except.ok.inj rejected)
    rw [Bool.not_eq_false] at whole signed
    exact ⟨_, Sct.signs_of_complete whole signed, Bool.eq_false_iff.2 forged⟩

end Transparency
