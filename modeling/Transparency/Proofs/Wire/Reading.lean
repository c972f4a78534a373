import Transparency.Proofs.Wire.Writing

/-!
# Reading what was written

Readers take back the fields that writing gave them, and leave what follows. A signature is read
from exactly the bytes that its fields have, if both of its algorithms are known.
-/
namespace Transparency

namespace Wire

theorem uint?_append {width n : Nat} (fits : n < 256 ^ width) (rest : Bytes) :
    uint? width (Bytes.bigEndian width n ++ rest) = some (n, rest) :=
  uint?_eq_some_iff.2 ⟨fits, rfl⟩

theorem vector?_append {width : Nat} {value : Bytes} (fits : value.length < 256 ^ width)
    (rest : Bytes) :
    vector? width (Bytes.bigEndian width value.length ++ value ++ rest) = some (value, rest) :=
  vector?_eq_some_iff.2 ⟨fits, rfl⟩

end Wire

open Wire

namespace Signature

theorem readFields?_eq_some_iff {bs rest : Bytes} {s : Signature} :
    readFields? bs = some (s, rest) ↔
      s.data.length ≤ 65535 ∧ bs = s.fields.flatMap Field.bytes ++ rest := by
  constructor
  · intro read
    obtain ⟨⟨hash, bs₁⟩, readHash, read⟩ := Option.bind_eq_some_iff.1 read
    obtain ⟨⟨scheme, bs₂⟩, readScheme, read⟩ := Option.bind_eq_some_iff.1 read
    obtain ⟨⟨data, bs₃⟩, readData, read⟩ := Option.bind_eq_some_iff.1 read
    obtain ⟨rfl, rfl⟩ := Prod.mk.inj (Option.some.inj read)
    obtain ⟨hashFits, rfl⟩ := uint?_eq_some_iff.1 readHash
    obtain ⟨schemeFits, rfl⟩ := uint?_eq_some_iff.1 readScheme
    obtain ⟨dataFits, rfl⟩ := vector?_eq_some_iff.1 readData
    refine ⟨Nat.le_of_lt_succ dataFits, ?_⟩
    simp [fields, Field.bytes, UInt8.toNat_ofNat_of_lt' hashFits,
      UInt8.toNat_ofNat_of_lt' schemeFits]
  · rintro ⟨short, rfl⟩
    have hashFits : s.hash.code.toNat < 256 ^ 1 := s.hash.code.toNat_lt
    have schemeFits : s.scheme.code.toNat < 256 ^ 1 := s.scheme.code.toNat_lt
    have dataFits : s.data.length < 256 ^ 2 := Nat.lt_succ_of_le short
    have layout : s.fields.flatMap Field.bytes ++ rest =
        Bytes.bigEndian 1 s.hash.code.toNat ++ (Bytes.bigEndian 1 s.scheme.code.toNat ++
          (Bytes.bigEndian 2 s.data.length ++ s.data ++ rest)) := by
      simp [fields, Field.bytes]
    simp [readFields?, layout, uint?_append hashFits, uint?_append schemeFits,
      vector?_append dataFits, -List.append_assoc]

theorem decode_eq_ok_iff {bs rest : Bytes} {s : Signature} :
    decode bs = .ok (s, rest) ↔
      s.hash.isNamed = true ∧ s.scheme.isNamed = true ∧ s.data.length ≤ 65535 ∧
        bs = s.fields.flatMap Field.bytes ++ rest := by
  rw [← readFields?_eq_some_iff, decode]
  cases readFields? bs with
  | none => simp
  | some read =>
    obtain ⟨s', rest'⟩ := read
    grind

end Signature

theorem HashAlgorithm.isNamed_iff {h : HashAlgorithm} : h.isNamed = true ↔ h.code.toNat ≤ 6 := by
  simp [isNamed, sha512, UInt8.le_iff_toNat_le]

theorem SignatureScheme.isNamed_iff {s : SignatureScheme} :
    s.isNamed = true ↔ s.code.toNat ≤ 3 := by
  simp [isNamed, ecdsa, UInt8.le_iff_toNat_le]

end Transparency
