import Transparency.Proofs.Sct.Time
import Transparency.Proofs.Wire.Reading

/-!
# Reading and writing timestamps

Reading accepts exactly the bytes that writing gives for timestamps in their wire form, and leaves
what follows them. So no serialized timestamp is continued by another.
-/
namespace Transparency.Sct

open Wire

variable {bs rest : Bytes} {sct : Sct}

/-- A timestamp as the wire can carry it, without a place and without the name of a log. -/
structure Canonical (sct : Sct) : Prop where
  logId : sct.logId.length = 32
  timestamp : sct.timestamp.Sendable
  extensions : sct.extensions.length ≤ 65535
  hash : sct.signature.hash.code.toNat ≤ 6
  scheme : sct.signature.scheme.code.toNat ≤ 3
  data : sct.signature.data.length ≤ 65535
  origin : sct.origin = .embedded
  logDescription : sct.logDescription = ""

/-! ## Writing -/

def wire (sct : Sct) : Bytes := sct.fields.flatMap Field.bytes

theorem wire_append (sct : Sct) (rest : Bytes) :
    sct.wire ++ rest =
      Bytes.bigEndian 1 version ++ (sct.logId ++ (sct.timestamp.field.bytes ++
        (Bytes.bigEndian 2 sct.extensions.length ++ sct.extensions ++
          (sct.signature.fields.flatMap Field.bytes ++ rest)))) := by
  simp [wire, fields, Field.bytes]

theorem mem_fields {f : Field} :
    f ∈ sct.fields ↔ f = .uint 1 version ∨ f = .fixed sct.logId ∨ f = sct.timestamp.field ∨
      f = .vector 2 sct.extensions ∨ f ∈ sct.signature.fields := by
  simp [fields]

theorem writable (sct : Sct) : ∀ f ∈ sct.fields, f.writable = true := by
  intro f member
  rcases mem_fields.1 member with rfl | rfl | rfl | rfl | signature
  · simp [version]
  · simp
  · simp
  · simp
  · exact sct.signature.writable f signature

theorem encode_eq_ok (logId : sct.logId.length = 32) :
    sct.encode = .ok (encoding sct.fields).staged := by
  rw [encode, if_pos logId, write_eq_ok sct.writable]
  rfl

theorem short_fields_iff :
    (∀ f ∈ sct.fields, f.short = true) ↔
      sct.extensions.length ≤ 65535 ∧ sct.signature.data.length ≤ 65535 := by
  simp [fields, Signature.fields, Instant.field_eq, Nat.lt_succ_iff]

theorem encode_eq_ok_iff {written : Bytes} :
    sct.encode = .ok ⟨written, true⟩ ↔
      (sct.logId.length = 32 ∧ sct.extensions.length ≤ 65535 ∧
        sct.signature.data.length ≤ 65535) ∧ written = sct.wire := by
  by_cases logId : sct.logId.length = 32
  · rw [encode_eq_ok logId, Except.ok.injEq, staged_eq_complete_iff, encoding_eq_complete_iff,
      short_fields_iff, wire]
    simp [logId, eq_comm]
  · simp [encode, logId]

theorem Canonical.encode_eq (canonical : sct.Canonical) : sct.encode = .ok ⟨sct.wire, true⟩ :=
  encode_eq_ok_iff.2 ⟨⟨canonical.logId, canonical.extensions, canonical.data⟩, rfl⟩

/-! ## Reading -/

theorem readTime_eq_ok_iff {time : Instant} :
    readTime bs = .ok (time, rest) ↔ time.Sendable ∧ bs = time.field.bytes ++ rest := by
  rw [Instant.sendable_iff]
  constructor
  · intro read
    unfold readTime at read
    split at read
    · cases read
    · next millis rest' number =>
      obtain ⟨fits, rfl⟩ := uint?_eq_some_iff.1 number
      split at read
      · cases read
      · next inRange =>
        obtain ⟨rfl, rfl⟩ := Prod.mk.inj (Except.ok.inj read)
        have bound : millis ≤ latestMillis := Nat.le_of_not_lt inRange
        refine ⟨⟨millis, bound, rfl⟩, ?_⟩
        rw [Instant.field_eq, Field.bytes, Instant.stamp_ofMillis bound]
  · rintro ⟨⟨millis, bound, rfl⟩, rfl⟩
    have fits : millis < 256 ^ 8 := Nat.lt_of_le_of_lt bound (by decide)
    rw [Instant.field_eq, Field.bytes, Instant.stamp_ofMillis bound, readTime, uint?_append fits]
    exact if_neg (Nat.not_lt.2 bound)

theorem readBody_eq_ok_iff :
    readBody bs = .ok (sct, rest) ↔
      sct.Canonical ∧ Bytes.bigEndian 1 version ++ bs = sct.wire ++ rest := by
  rw [wire_append, List.append_cancel_left_eq]
  constructor
  · intro read
    unfold readBody at read
    split at read
    · cases read
    next logId bs₁ readLogId =>
    split at read
    · cases read
    next timestamp bs₂ readTimestamp =>
    split at read
    · cases read
    next extensions bs₃ readExtensions =>
    split at read
    · cases read
    next signature bs₄ readSignature =>
    obtain ⟨rfl, rfl⟩ := Prod.mk.inj (Except.ok.inj read)
    obtain ⟨rfl, length⟩ := Bytes.split?_eq_some_iff.1 readLogId
    obtain ⟨sendable, rfl⟩ := readTime_eq_ok_iff.1 readTimestamp
    obtain ⟨short, rfl⟩ := vector?_eq_some_iff.1 readExtensions
    obtain ⟨hash, scheme, data, rfl⟩ := Signature.decode_eq_ok_iff.1 readSignature
    refine ⟨?_, rfl⟩
    exact
      { logId := length, timestamp := sendable, extensions := Nat.le_of_lt_succ short
        hash := HashAlgorithm.isNamed_iff.1 hash, scheme := SignatureScheme.isNamed_iff.1 scheme
        data, origin := rfl, logDescription := rfl }
  · rintro ⟨canonical, rfl⟩
    have short : sct.extensions.length < 256 ^ 2 := Nat.lt_succ_of_le canonical.extensions
    have readTimestamp : ∀ rest, readTime (sct.timestamp.field.bytes ++ rest) =
        .ok (sct.timestamp, rest) := fun rest =>
      readTime_eq_ok_iff.2 ⟨canonical.timestamp, rfl⟩
    have readSignature : Signature.decode (sct.signature.fields.flatMap Field.bytes ++ rest) =
        .ok (sct.signature, rest) :=
      Signature.decode_eq_ok_iff.2
        ⟨HashAlgorithm.isNamed_iff.2 canonical.hash, SignatureScheme.isNamed_iff.2 canonical.scheme,
          canonical.data, rfl⟩
    have unplaced :
        Sct.mk sct.logId sct.timestamp sct.extensions sct.signature .embedded "" = sct := by
      rw [← canonical.origin, ← canonical.logDescription]
    simp only [readBody, Bytes.split?_append canonical.logId, readTimestamp, vector?_append short,
      readSignature, unplaced]

theorem decode_eq_ok_iff : decode bs = .ok (sct, rest) ↔ sct.Canonical ∧ bs = sct.wire ++ rest := by
  have fits : version < 256 ^ 1 := by decide
  constructor
  · intro read
    unfold decode at read
    split at read
    · cases read
    next n body number =>
    split at read
    next first =>
      obtain ⟨-, rfl⟩ := uint?_eq_some_iff.1 number
      rw [first]
      exact readBody_eq_ok_iff.1 read
    · cases read
  · rintro ⟨canonical, rfl⟩
    have body := readBody_eq_ok_iff.2 ⟨canonical, (sct.wire_append rest).symm⟩
    rw [wire_append, decode, uint?_append fits]
    exact (if_pos rfl).trans body

theorem decodeWhole_eq_ok_iff :
    decodeWhole bs = .ok sct ↔ sct.Canonical ∧ bs = sct.wire := by
  have exhausted : decodeWhole bs = .ok sct ↔ decode bs = .ok (sct, []) := by
    unfold decodeWhole
    grind [List.isEmpty_iff]
  rw [exhausted, decode_eq_ok_iff, List.append_nil]

theorem timestamp_nonneg (read : decodeWhole bs = .ok sct) : 0 ≤ sct.timestamp.micros.toInt := by
  obtain ⟨millis, -, micros⟩ := (decodeWhole_eq_ok_iff.1 read).1.timestamp
  omega

/-- Two timestamps that are read from the front of the same bytes are one. -/
theorem decode_unique {sct' : Sct} {rest' : Bytes} (canonical : sct.Canonical)
    (canonical' : sct'.Canonical) (same : sct.wire ++ rest = sct'.wire ++ rest') :
    sct = sct' ∧ rest = rest' := by
  have read : decode (sct.wire ++ rest) = .ok (sct, rest) :=
    decode_eq_ok_iff.2 ⟨canonical, rfl⟩
  have read' : decode (sct.wire ++ rest) = .ok (sct', rest') :=
    decode_eq_ok_iff.2 ⟨canonical', same⟩
  exact Prod.mk.inj (Except.ok.inj (read.symm.trans read'))

/-! ## Both -/

/-- Reading accepts exactly what writing gives for timestamps in their wire form. -/
theorem decode_iff_encode_canonical (bs : Bytes) (sct : Sct) :
    (∀ rest, decode bs = .ok (sct, rest) ↔
      sct.Canonical ∧ ∃ written, sct.encode = .ok ⟨written, true⟩ ∧ bs = written ++ rest) ∧
    (decodeWhole bs = .ok sct ↔ sct.Canonical ∧ sct.encode = .ok ⟨bs, true⟩) ∧
    (sct.Canonical → ∃ written, sct.encode = .ok ⟨written, true⟩ ∧
      decodeWhole written = .ok sct ∧ ∀ rest, decode (written ++ rest) = .ok (sct, rest)) ∧
    ∀ more other, decodeWhole bs = .ok sct → decodeWhole (bs ++ more) = .ok other → more = [] := by
  have written_iff : sct.Canonical → ∀ written, sct.encode = .ok ⟨written, true⟩ ↔
      written = sct.wire := by
    intro canonical written
    rw [canonical.encode_eq]
    grind
  refine ⟨fun rest => ?_, ?_, ?_, ?_⟩
  · rw [decode_eq_ok_iff]
    refine and_congr_right fun canonical => ?_
    simp [written_iff canonical]
  · rw [decodeWhole_eq_ok_iff]
    exact and_congr_right fun canonical => (written_iff canonical bs).symm
  · intro canonical
    exact ⟨sct.wire, canonical.encode_eq, decodeWhole_eq_ok_iff.2 ⟨canonical, rfl⟩,
      fun rest => decode_eq_ok_iff.2 ⟨canonical, rfl⟩⟩
  · intro more other read readMore
    obtain ⟨canonical, rfl⟩ := decodeWhole_eq_ok_iff.1 read
    obtain ⟨canonical', longer⟩ := decodeWhole_eq_ok_iff.1 readMore
    have ends : sct.wire ++ more = other.wire ++ [] := by rw [longer, List.append_nil]
    exact (decode_unique canonical canonical' ends).2

/-- The latest time that an instant can hold, with the last algorithms there are. -/
theorem decode_iff_encode_canonical_latest :
    let sct : Sct :=
      { logId := List.replicate 32 7, timestamp := .ofMillis 9223372036854775, extensions := [1, 2]
        signature := ⟨.sha512, .ecdsa, [9]⟩ }
    sct.Canonical ∧ ∃ written, sct.encode = .ok ⟨written, true⟩ ∧
      decodeWhole written = .ok sct ∧ ∀ rest, decode (written ++ rest) = .ok (sct, rest) := by
  intro sct
  have canonical : sct.Canonical :=
    { logId := rfl, timestamp := ⟨9223372036854775, by decide, by decide⟩, extensions := by decide
      hash := by decide, scheme := by decide, data := by decide, origin := rfl
      logDescription := rfl }
  exact ⟨canonical, (decode_iff_encode_canonical [] sct).2.2.1 canonical⟩

end Transparency.Sct
