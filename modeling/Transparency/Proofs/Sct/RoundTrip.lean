import Transparency.Proofs.Sct.Codec
import Transparency.Proofs.Wire.Layout

/-!
# Reading timestamps that were written

The wire has room for more times and algorithms than reading accepts. Of a timestamp that is read
back the whole milliseconds are left, and nothing of where it was found.
-/
namespace Transparency.Sct

open Wire

variable {sct read : Sct}

/-- What is left of a timestamp on its way over the wire. -/
def delivered (sct : Sct) : Sct :=
  { sct with timestamp := .ofMillis sct.timestamp.millis, origin := .embedded, logDescription := "" }

theorem fields_delivered (readable : sct.timestamp.stamp ≤ latestMillis) :
    sct.delivered.fields = sct.fields := by
  have stamp : sct.delivered.timestamp.stamp = sct.timestamp.stamp := by
    rw [delivered, ← Instant.ofMillis_stamp readable, Instant.stamp_ofMillis readable]
  simp only [fields, Instant.field_eq, stamp]
  rfl

theorem canonical_delivered (logId : sct.logId.length = 32)
    (extensions : sct.extensions.length ≤ 65535) (data : sct.signature.data.length ≤ 65535)
    (readable : sct.timestamp.stamp ≤ latestMillis)
    (hash : sct.signature.hash.code.toNat ≤ 6) (scheme : sct.signature.scheme.code.toNat ≤ 3) :
    sct.delivered.Canonical where
  logId := logId
  timestamp := Instant.sendable_iff.2 ⟨_, readable, (Instant.ofMillis_stamp readable).symm⟩
  extensions := extensions
  hash := hash
  scheme := scheme
  data := data
  origin := rfl
  logDescription := rfl

theorem fields_alike (logId : sct.logId.length = 32)
    (extensions : sct.extensions.length ≤ 65535) (data : sct.signature.data.length ≤ 65535)
    (canonical : read.Canonical) : List.Forall₂ Field.Alike sct.fields read.fields := by
  have stamp : sct.timestamp.stamp < 256 ^ 8 := UInt64.toNat_lt _
  have stamp' : read.timestamp.stamp < 256 ^ 8 := UInt64.toNat_lt _
  exact .cons (.uint (by decide) (by decide)) <| .cons (.fixed (logId.trans canonical.logId.symm)) <|
    .cons (.uint stamp stamp') <|
    .cons (.vector (Nat.lt_succ_of_le extensions) (Nat.lt_succ_of_le canonical.extensions)) <|
    .cons (.uint sct.signature.hash.code.toNat_lt read.signature.hash.code.toNat_lt) <|
    .cons (.uint sct.signature.scheme.code.toNat_lt read.signature.scheme.code.toNat_lt) <|
    .cons (.vector (Nat.lt_succ_of_le data) (Nat.lt_succ_of_le canonical.data)) .nil

/-- The stamp and the algorithms alone decide if a timestamp is read back. -/
theorem decodeWhole_wire_iff (logId : sct.logId.length = 32)
    (extensions : sct.extensions.length ≤ 65535) (data : sct.signature.data.length ≤ 65535) :
    decodeWhole sct.wire = .ok read ↔
      (sct.timestamp.stamp ≤ latestMillis ∧ sct.signature.hash.code.toNat ≤ 6 ∧
        sct.signature.scheme.code.toNat ≤ 3) ∧ read = sct.delivered := by
  rw [decodeWhole_eq_ok_iff]
  constructor
  · rintro ⟨canonical, same⟩
    -- What is read has the same bytes, and fields of the same widths, so it has the same fields.
    have fields := flatMap_bytes_inj (fields_alike logId extensions data canonical) same
    simp only [Sct.fields, Signature.fields, Instant.field_eq, List.cons_append, List.nil_append,
      List.cons.injEq, Field.uint.injEq, true_and] at fields
    obtain ⟨-, stamp, -, hash, scheme, -⟩ := fields
    obtain ⟨millis, bound, time⟩ := Instant.sendable_iff.1 canonical.timestamp
    have readable : sct.timestamp.stamp ≤ latestMillis := by
      rw [stamp, time, Instant.stamp_ofMillis bound]
      exact bound
    have hash' : sct.signature.hash.code.toNat ≤ 6 := hash ▸ canonical.hash
    have scheme' : sct.signature.scheme.code.toNat ≤ 3 := scheme ▸ canonical.scheme
    have canonical' := canonical_delivered logId extensions data readable hash' scheme'
    have ends : read.wire ++ [] = sct.delivered.wire ++ [] := by
      rw [← same, wire, wire, fields_delivered readable]
    exact ⟨⟨readable, hash', scheme'⟩, (decode_unique canonical canonical' ends).1⟩
  · rintro ⟨⟨readable, hash, scheme⟩, rfl⟩
    refine ⟨canonical_delivered logId extensions data readable hash scheme, ?_⟩
    rw [wire, wire, fields_delivered readable]

/-- Whatever is written is read back, as far as it is read at all, with its time truncated toward
zero. All times from 1970 on but the last are read, and those less than a millisecond before. -/
theorem decodeWhole_encode_iff (sct read : Sct) (written : Bytes) :
    ((∃ written, sct.encode = .ok ⟨written, true⟩) ↔
      sct.logId.length = 32 ∧ sct.extensions.length ≤ 65535 ∧
        sct.signature.data.length ≤ 65535) ∧
    (sct.encode = .ok ⟨written, true⟩ →
      (decodeWhole written = .ok read ↔
        (-1000 < sct.timestamp.micros.toInt ∧
          sct.timestamp.micros.toInt < 9223372036854775807 ∧
          sct.signature.hash.code.toNat ≤ 6 ∧ sct.signature.scheme.code.toNat ≤ 3) ∧
        read =
          { sct with
            timestamp := .ofMillis sct.timestamp.millis
            origin := .embedded
            logDescription := "" })) ∧
    (Instant.ofMillis sct.timestamp.millis).micros.toInt =
      sct.timestamp.micros.toInt.tdiv 1000 * 1000 := by
  refine ⟨by simp [encode_eq_ok_iff], fun encoded => ?_, Instant.toInt_ofMillis_millis _⟩
  obtain ⟨⟨logId, extensions, data⟩, rfl⟩ := encode_eq_ok_iff.1 encoded
  rw [decodeWhole_wire_iff logId extensions data, Instant.stamp_le_latest_iff, delivered]
  simp only [and_assoc]

/-- Less than a millisecond before 1970, with a place and a name. -/
theorem decodeWhole_encode_iff_before1970 :
    let sct : Sct :=
      { logId := List.replicate 32 7, timestamp := ⟨-999⟩, extensions := [1, 2]
        signature := ⟨.sha512, .ecdsa, [9]⟩, origin := .ocspResponse, logDescription := "log" }
    ∃ written, sct.encode = .ok ⟨written, true⟩ ∧
      decodeWhole written = .ok
        { logId := List.replicate 32 7, timestamp := .epoch, extensions := [1, 2]
          signature := ⟨.sha512, .ecdsa, [9]⟩ } := by
  intro sct
  have encoded : sct.encode = .ok ⟨sct.wire, true⟩ :=
    encode_eq_ok_iff.2 ⟨⟨by decide, by decide, by decide⟩, rfl⟩
  have read := ((decodeWhole_encode_iff sct _ sct.wire).2.1 encoded).2 ⟨by decide, rfl⟩
  have first : Instant.ofMillis sct.timestamp.millis = .epoch := by decide
  rw [first] at read
  exact ⟨sct.wire, encoded, read⟩

end Transparency.Sct
