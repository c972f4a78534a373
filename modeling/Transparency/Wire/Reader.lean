import Transparency.Bytes

/-!
# Reading structures

A reader takes a field off the front of its input.
-/
namespace Transparency.Wire

def uint? (width : Nat) (bs : Bytes) : Option (Nat × Bytes) :=
  (Bytes.split? width bs).map fun (head, rest) => (Bytes.toNat head, rest)

/-- Reading accepts exactly the numbers that fit, in the bytes that writing gives them. -/
theorem uint?_eq_some_iff {width n : Nat} {bs rest : Bytes} :
    uint? width bs = some (n, rest) ↔ n < 256 ^ width ∧ bs = Bytes.bigEndian width n ++ rest := by
  constructor
  · intro h
    obtain ⟨⟨head, tail⟩, split, eq⟩ := Option.map_eq_some_iff.1 h
    obtain ⟨rfl, rfl⟩ := Bytes.split?_eq_some_iff.1 split
    obtain ⟨rfl, rfl⟩ := Prod.mk.inj eq
    exact ⟨Bytes.toNat_lt head, by rw [Bytes.bigEndian_toNat]⟩
  · rintro ⟨fits, rfl⟩
    rw [uint?, Bytes.split?_append (Bytes.length_bigEndian width n)]
    simp [Bytes.toNat_bigEndian fits]

/-- Bytes after their length, which takes `width` bytes. -/
def vector? (width : Nat) (bs : Bytes) : Option (Bytes × Bytes) := do
  let (n, rest) ← uint? width bs
  Bytes.split? n rest

theorem vector?_eq_some_iff {width : Nat} {bs value rest : Bytes} :
    vector? width bs = some (value, rest) ↔
      value.length < 256 ^ width ∧
        bs = Bytes.bigEndian width value.length ++ value ++ rest := by
  constructor
  · intro h
    obtain ⟨⟨n, tail⟩, number, split⟩ := Option.bind_eq_some_iff.1 h
    obtain ⟨fits, rfl⟩ := uint?_eq_some_iff.1 number
    obtain ⟨rfl, rfl⟩ := Bytes.split?_eq_some_iff.1 split
    exact ⟨fits, by rw [List.append_assoc]⟩
  · rintro ⟨fits, rfl⟩
    have number : uint? width (Bytes.bigEndian width value.length ++ (value ++ rest)) =
        some (value.length, value ++ rest) := uint?_eq_some_iff.2 ⟨fits, rfl⟩
    rw [List.append_assoc, vector?, number]
    exact Bytes.split?_append rfl rest

end Transparency.Wire
