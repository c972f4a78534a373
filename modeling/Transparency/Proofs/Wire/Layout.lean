import Mathlib.Data.List.Forall2
import Transparency.Proofs.Wire.Reading

/-!
# Layouts

Two structures are laid out alike if their fields are, one by one: numbers of one width, bytes of one
length, or vectors whose lengths take one width. Structures that are laid out alike are told by their
bytes, whatever follows them.
-/
namespace Transparency.Wire

/-- Two fields that end in the same way. -/
inductive Field.Alike : Field → Field → Prop
  | uint {width m n : Nat} (fits : m < 256 ^ width) (fits' : n < 256 ^ width) :
      Alike (.uint width m) (.uint width n)
  | fixed {a b : Bytes} (length_eq : a.length = b.length) : Alike (.fixed a) (.fixed b)
  | vector {width : Nat} {a b : Bytes} (fits : a.length < 256 ^ width)
      (fits' : b.length < 256 ^ width) : Alike (.vector width a) (.vector width b)

variable {f g : Field} {fs gs : List Field} {r s : Bytes}

theorem Field.Alike.bytes_append_inj (alike : Alike f g) (same : f.bytes ++ r = g.bytes ++ s) :
    f = g ∧ r = s := by
  cases alike with
  | @uint width m n fits fits' =>
    have read : uint? width (Bytes.bigEndian width m ++ r) = some (n, s) := by
      rw [← uint?_append fits' s]
      exact congrArg (uint? width) same
    obtain ⟨rfl, rfl⟩ := Prod.mk.inj (Option.some.inj ((uint?_append fits r).symm.trans read))
    exact ⟨rfl, rfl⟩
  | fixed length_eq =>
    obtain ⟨rfl, rfl⟩ := List.append_inj same length_eq
    exact ⟨rfl, rfl⟩
  | @vector width a b fits fits' =>
    have read : vector? width (Bytes.bigEndian width a.length ++ a ++ r) = some (b, s) := by
      rw [← vector?_append fits' s]
      exact congrArg (vector? width) same
    obtain ⟨rfl, rfl⟩ := Prod.mk.inj (Option.some.inj ((vector?_append fits r).symm.trans read))
    exact ⟨rfl, rfl⟩

theorem flatMap_bytes_append_inj (alike : List.Forall₂ Field.Alike fs gs)
    (same : fs.flatMap Field.bytes ++ r = gs.flatMap Field.bytes ++ s) : fs = gs ∧ r = s := by
  induction alike with
  | nil => exact ⟨rfl, same⟩
  | cons first _ ih =>
    simp only [List.flatMap_cons, List.append_assoc] at same
    obtain ⟨rfl, rest⟩ := first.bytes_append_inj same
    obtain ⟨rfl, rfl⟩ := ih rest
    exact ⟨rfl, rfl⟩

theorem flatMap_bytes_inj (alike : List.Forall₂ Field.Alike fs gs)
    (same : fs.flatMap Field.bytes = gs.flatMap Field.bytes) : fs = gs :=
  (flatMap_bytes_append_inj (r := []) (s := []) alike (by rw [same])).1

end Transparency.Wire
