import Transparency.Proofs.Sct.Intake
import Transparency.Proofs.Wire.Output

/-!
# Reading and writing signatures

A signature with known algorithms is taken off the front of an input exactly where adding it to an
output would put the same bytes. What follows is left, and of what was held before nothing is.
-/
namespace Transparency.Signature

open Wire

variable {bs rest written : Bytes} {s : Signature}

/-- A signature as the wire can carry it. -/
structure Canonical (s : Signature) : Prop where
  hash : s.hash.code.toNat ≤ 6
  scheme : s.scheme.code.toNat ≤ 3
  data : s.data.length ≤ 65535

def wire (s : Signature) : Bytes := s.fields.flatMap Field.bytes

/-! ## Adding -/

theorem short_fields_iff : (∀ f ∈ s.fields, f.short = true) ↔ s.data.length ≤ 65535 := by
  simp [fields, Nat.lt_succ_iff]

theorem adds_iff : Adds s.append ⟨written, true⟩ ↔ s.data.length ≤ 65535 ∧ s.wire = written := by
  have adds : Adds s.append (encoding s.fields) := adds_append s.writable
  rw [← short_fields_iff, wire, ← encoding_eq_complete_iff]
  constructor
  · exact adds.unique
  · intro whole
    rw [whole] at adds
    exact adds

/-! ## Taking -/

theorem decode_iff_canonical :
    decode bs = .ok (s, rest) ↔ s.Canonical ∧ bs = s.wire ++ rest := by
  rw [decode_eq_ok_iff, HashAlgorithm.isNamed_iff, SignatureScheme.isNamed_iff]
  constructor
  · rintro ⟨hash, scheme, data, bytes⟩
    exact ⟨⟨hash, scheme, data⟩, bytes⟩
  · rintro ⟨⟨hash, scheme, data⟩, bytes⟩
    exact ⟨hash, scheme, data, bytes⟩

/-- What is held before makes no difference to what is taken. -/
theorem receive_eq_ok_iff (prior : Signature) :
    receive ⟨bs, prior⟩ = (.ok (), ⟨rest, s⟩) ↔ decode bs = .ok (s, rest) := by
  rw [receive, mirrors_take.fill]
  cases decode bs <;> grind

/-! ## Both -/

/-- A signature is taken from just those bytes that adding it puts there, if its algorithms are
known, and each such signature can be added and taken again, in front of whatever follows. -/
theorem receive_iff_append (bs rest : Bytes) (s prior : Signature) :
    (receive ⟨bs, prior⟩ = (.ok (), ⟨rest, s⟩) ↔
      s.Canonical ∧ ∃ written, Adds s.append ⟨written, true⟩ ∧ bs = written ++ rest) ∧
    (s.Canonical → ∃ written, Adds s.append ⟨written, true⟩ ∧
      ∀ rest prior, receive ⟨written ++ rest, prior⟩ = (.ok (), ⟨rest, s⟩)) := by
  refine ⟨?_, fun canonical => ?_⟩
  · rw [receive_eq_ok_iff, decode_iff_canonical]
    refine and_congr_right fun canonical => ?_
    constructor
    · intro bytes
      exact ⟨s.wire, adds_iff.2 ⟨canonical.data, rfl⟩, bytes⟩
    · rintro ⟨written, adds, bytes⟩
      rw [(adds_iff.1 adds).2]
      exact bytes
  · refine ⟨s.wire, adds_iff.2 ⟨canonical.data, rfl⟩, fun rest prior => ?_⟩
    rw [receive_eq_ok_iff, decode_iff_canonical]
    exact ⟨canonical, rfl⟩

/-- The last algorithms there are, in front of what looks like more of the signature. -/
theorem receive_iff_append_last :
    let s : Signature := ⟨.sha512, .ecdsa, [9, 9]⟩
    s.Canonical ∧ ∃ written, Adds s.append ⟨written, true⟩ ∧ written = [6, 3, 0, 2, 9, 9] ∧
      receive ⟨written ++ [9], ⟨.sha256, .rsa, [1]⟩⟩ = (.ok (), ⟨[9], s⟩) := by
  intro s
  have canonical : s.Canonical := ⟨by decide, by decide, by decide⟩
  obtain ⟨written, adds, again⟩ := (receive_iff_append [] [] s s).2 canonical
  have bytes : written = [6, 3, 0, 2, 9, 9] := by
    rw [← (adds_iff.1 adds).2]
    decide
  exact ⟨canonical, written, adds, bytes, again [9] _⟩

end Transparency.Signature
