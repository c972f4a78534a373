import Transparency.Ber.Value
import Transparency.Proofs.Ber.Element

/-!
# Values that are read again

Values in the one form that is written are read as they are: integers in the fewest bytes, bit
strings whose unused bits are clear, strings in one piece.
-/
namespace Transparency

open Ber (Tag Reads ReadsItem IsElement lengthLimit)

variable {tag : Tag} {contents : Bytes}

theorem Ber.reads_integer (formed : Ber.isInteger contents = true)
    (short : (Der.primitive .integer contents).length < lengthLimit) :
    Reads Ber.integer (Der.primitive .integer contents) contents := by
  intro rest
  simp [Ber.integer, Ber.reads_primitive (by decide) short rest, formed]

theorem Ber.isElement_boolean (b : UInt8) : IsElement .boolean (Der.primitive .boolean [b]) where
  readable := by decide
  short := by
    have length : (Der.primitive .boolean [b]).length = 3 := rfl
    rw [length]
    decide
  exists_eq := ⟨false, [b], rfl⟩

theorem Ber.reads_boolean (b : UInt8) : Reads Ber.boolean (Der.primitive .boolean [b]) b := by
  intro rest
  have read := Ber.reads_primitive (by decide) (Ber.isElement_boolean b).short rest
  simp [Ber.boolean, read]

theorem Oid.reads {oid : Oid} (formed : Oid.isWellFormed oid.contents = true)
    (short : oid.write.length < lengthLimit) : Reads Oid.read oid.write oid := by
  intro rest
  simp [Oid.read, Oid.write, Ber.reads_primitive (by decide) short rest, Oid.ofContents?, formed]

/-! ## Bit strings -/

namespace BitString

/-- A bit string whose unused bits are clear. -/
structure Canonical (s : BitString) : Prop where
  unused : s.unused ≤ 7
  clear : clear s.unused s.bytes = s.bytes
  empty : s.bytes = [] → s.unused = 0

theorem clear_zero (bs : Bytes) : clear 0 bs = bs := by
  fun_induction clear 0 bs with
  | case1 => rfl
  | case2 b => exact congrArg (fun last => [last]) UInt8.and_neg_one
  | case3 b bs _ ih => rw [ih]

theorem canonical_whole (bytes : Bytes) : Canonical ⟨0, bytes⟩ :=
  ⟨UInt8.zero_le, clear_zero bytes, fun _ => rfl⟩

variable {s : BitString}

theorem Canonical.ofContents? (canonical : s.Canonical) : ofContents? s.contents = some s := by
  obtain ⟨unused, bytes⟩ := s
  unfold contents
  cases bytes with
  | nil =>
    obtain rfl : unused = 0 := canonical.empty rfl
    rfl
  | cons b bs => simp [BitString.ofContents?, canonical.unused, canonical.clear]

theorem Canonical.reads (canonical : s.Canonical) (tag : Tag) (readable : tag.number < Tag.limit)
    (short : (s.write tag).length < lengthLimit) : Reads (read tag) (s.write tag) s := by
  intro rest
  simp [BitString.read, write, Ber.reads_string readable short rest, canonical.ofContents?]

end BitString

/-! ## Values of any type -/

namespace AnyValue

/-- A value in its one form. Nothing is asked of what is in a sequence, in a set or in an element of
another class. -/
inductive Canonical : AnyValue → Prop
  | primitive {tag : Tag} {contents : Bytes} (universal : tag.cls = .universal)
      (readable : tag.number < Tag.limit) (plain : tag ≠ .sequence ∧ tag ≠ .set)
      (proper : tag ≠ .universal 0 ∨ contents ≠ [])
      (formed : contents? tag contents = some contents) : Canonical (.primitive tag contents)
  | structured {tag : Tag} (type : tag = .sequence ∨ tag = .set) (contents : Bytes) :
      Canonical (.element (Der.element tag true contents))
  | other {tag : Tag} (cls : tag.cls ≠ .universal) (readable : tag.number < Tag.limit)
      (constructed : Bool) (contents : Bytes) :
      Canonical (.element (Der.element tag constructed contents))

theorem readsItem_element {constructed : Bool} (readable : tag.number < Tag.limit)
    (short : (Der.element tag constructed contents).length < lengthLimit)
    (kept : tag.cls ≠ .universal ∨ (tag = .sequence ∨ tag = .set) ∧ constructed = true) :
    ReadsItem read (Der.element tag constructed contents)
      (.element (Der.element tag constructed contents)) := by
  have proper : tag ≠ .universal 0 := by
    rintro rfl
    simp [Tag.universal, Tag.sequence, Tag.set] at kept
  have goes_on := Ber.atEnd_element readable short (.inl proper)
  refine ⟨fun rest => ?_, goes_on⟩
  have header := Ber.readHeader?_element readable short rest
  have taken := Ber.reads_raw ⟨readable, short, constructed, contents, rfl⟩ rest
  obtain cls | ⟨type, rfl⟩ := kept
  · simp [read, goes_on, header, cls, taken]
  · have universal : tag.cls = .universal := by
      rcases type with rfl | rfl <;> rfl
    simp [read, goes_on, header, universal, type, taken]

theorem Canonical.readsItem {value : AnyValue} (canonical : value.Canonical)
    (short : value.write.length < lengthLimit) : ReadsItem read value.write value := by
  cases canonical with
  | @primitive tag contents universal readable plain proper formed =>
    have goes_on := Ber.atEnd_element readable short proper
    refine ⟨fun rest => ?_, goes_on⟩
    have header := Ber.readHeader?_element readable short rest
    simp [read, write, Der.primitive, goes_on, header, universal, plain,
      Ber.stringContents_append, formed]
  | @structured tag type contents =>
    have readable : tag.number < Tag.limit := by
      rcases type with rfl | rfl <;> decide
    exact readsItem_element readable short (.inr ⟨type, rfl⟩)
  | other cls readable constructed contents =>
    exact readsItem_element readable short (.inl cls)

theorem readOptional_getD {value : Option AnyValue} (canonical : ∀ v ∈ value, v.Canonical)
    (short : ((value.map write).getD []).length < lengthLimit) :
    readOptional ((value.map write).getD []) = some (value, []) := by
  cases value with
  | none => rfl
  | some v =>
    have item := (canonical v rfl).readsItem short
    have goes_on : Ber.atEnd v.write = false := by simpa using item.goes_on []
    simp [readOptional, goes_on, item.reads.eq_some]

end AnyValue

end Transparency
