import Transparency.Leaf
import Transparency.TreeHead

/-!
# What writing leaves

Numbers that fit and sensible length prefixes are all that writing assumes, and every structure of
the library meets that. So writing always ends, with the fields up to the first that is too long.
-/
namespace Transparency

namespace Wire

/-- Whether a field can be written without breaking an assumption. -/
def Field.writable : Field → Bool
  | .uint width value => fits width value
  | .fixed _ => true
  | .vector width _ => 0 < width && width ≤ 8

/-- Whether a field is not too long for its length prefix. -/
def Field.short : Field → Bool
  | .vector width bytes => fits width bytes.length
  | _ => true

def Field.bytes : Field → Bytes
  | .uint width value => Bytes.bigEndian width value
  | .fixed bytes => bytes
  | .vector width bytes => Bytes.bigEndian width bytes.length ++ bytes

/-- The fields up to the first that is too long. -/
def encoding (fields : List Field) : Encoding where
  bytes := (fields.takeWhile Field.short).flatMap Field.bytes
  complete := fields.all Field.short

theorem write_eq_ok {fields : List Field} (writable : ∀ f ∈ fields, f.writable = true) :
    write fields = .ok (encoding fields) := by
  induction fields with
  | nil => rfl
  | cons field fields ih =>
    obtain ⟨head, tail⟩ := List.forall_mem_cons.1 writable
    have later := ih tail
    cases field with
    | uint width value =>
      have assumed : Halt.unless (fits width value) "the value fits its field" = .ok () :=
        if_pos head
      rw [write, assumed, later]
      rfl
    | fixed bytes => rw [write, later]; rfl
    | vector width bytes =>
      have assumed : Halt.unless (0 < width && width ≤ 8)
          "the length prefix has one to eight bytes" = .ok () := if_pos head
      rw [write, assumed, later]
      by_cases short : fits width bytes.length = true
      · simp [encoding, Field.short, Field.bytes, Encoding.after, short, bind, Except.bind, pure,
          Except.pure]
      · simp [encoding, Field.short, short, bind, Except.bind, pure, Except.pure]

theorem takeWhile_short {fields : List Field} (short : ∀ f ∈ fields, f.short = true) :
    fields.takeWhile Field.short = fields := by
  induction fields with
  | nil => rfl
  | cons field fields ih =>
    obtain ⟨head, tail⟩ := List.forall_mem_cons.1 short
    rw [List.takeWhile_cons_of_pos head, ih tail]

theorem encoding_of_short {fields : List Field} (short : ∀ f ∈ fields, f.short = true) :
    encoding fields = ⟨fields.flatMap Field.bytes, true⟩ := by
  have complete : fields.all Field.short = true := List.all_eq_true.2 short
  rw [encoding, takeWhile_short short, complete]

theorem encoding_eq_complete_iff {bytes : Bytes} :
    encoding fs = ⟨bytes, true⟩ ↔
      (∀ f ∈ fs, f.short = true) ∧ fs.flatMap Field.bytes = bytes := by
  constructor
  · intro complete
    have short : ∀ f ∈ fs, f.short = true := List.all_eq_true.1 (congrArg Encoding.complete complete)
    rw [encoding_of_short short] at complete
    exact ⟨short, congrArg Encoding.bytes complete⟩
  · rintro ⟨short, rfl⟩
    exact encoding_of_short short

theorem staged_eq_complete_iff {e : Encoding} {bytes : Bytes} :
    e.staged = ⟨bytes, true⟩ ↔ e = ⟨bytes, true⟩ := by
  obtain ⟨bytes', complete⟩ := e
  cases complete <;> simp [Encoding.staged]

@[simp] theorem writable_uint {width value : Nat} :
    (Field.uint width value).writable = true ↔ value < 256 ^ width := by
  simp [Field.writable, fits]

@[simp] theorem writable_fixed (bytes : Bytes) : (Field.fixed bytes).writable = true := rfl

@[simp] theorem writable_vector {width : Nat} {bytes : Bytes} :
    (Field.vector width bytes).writable = true ↔ 0 < width ∧ width ≤ 8 := by
  simp [Field.writable]

@[simp] theorem short_uint (width value : Nat) : (Field.uint width value).short = true := rfl

@[simp] theorem short_fixed (bytes : Bytes) : (Field.fixed bytes).short = true := rfl

@[simp] theorem short_vector {width : Nat} {bytes : Bytes} :
    (Field.vector width bytes).short = true ↔ bytes.length < 256 ^ width := by
  simp [Field.short, fits]

end Wire

open Wire

/-- The milliseconds of an instant as they stand on the wire. -/
def Instant.stamp (t : Instant) : Nat := (t.since .epoch).millis.toUInt64.toNat

theorem Instant.field_eq (t : Instant) : t.field = .uint 8 t.stamp := rfl

@[simp] theorem Instant.writable_field (t : Instant) : t.field.writable = true := by
  simpa [Instant.field_eq, Instant.stamp] using UInt64.toNat_lt _

theorem Entry.writable (e : Entry) : ∀ f ∈ e.fields, f.writable = true := by
  cases kind : e.kind <;> simp [Entry.fields, Entry.selected, kind, EntryKind.code]

theorem Entry.encode_eq_ok (e : Entry) : e.encode = .ok (encoding e.fields) :=
  write_eq_ok e.writable

theorem Signature.writable (s : Signature) : ∀ f ∈ s.fields, f.writable = true := by
  simpa [Signature.fields] using ⟨s.hash.code.toNat_lt, s.scheme.code.toNat_lt⟩

theorem Leaf.writable (leaf : Leaf) : ∀ f ∈ leaf.fields, f.writable = true := by
  intro f hf
  simp only [Leaf.fields, List.mem_append, List.mem_cons, List.not_mem_nil, or_false] at hf
  rcases hf with ((rfl | rfl | rfl) | entry) | rfl
  · simp [version]
  · simp
  · exact leaf.timestamp.writable_field
  · exact leaf.entry.writable f entry
  · simp

theorem Leaf.encode_eq_ok (leaf : Leaf) : leaf.encode = .ok (encoding leaf.fields) :=
  write_eq_ok leaf.writable

theorem Sct.writable_signedFields (timestamp : Instant) (entry extensions : Bytes) :
    ∀ f ∈ Sct.signedFields timestamp entry extensions, f.writable = true := by
  intro f hf
  simp only [Sct.signedFields, List.mem_cons, List.not_mem_nil, or_false] at hf
  rcases hf with rfl | rfl | rfl | rfl | rfl <;> simp [version]

theorem Sct.signedData_eq_ok (timestamp : Instant) (entry extensions : Bytes) :
    Sct.signedData timestamp entry extensions =
      .ok (encoding (Sct.signedFields timestamp entry extensions)) :=
  write_eq_ok (writable_signedFields timestamp entry extensions)

theorem TreeHead.writable_signedFields (head : TreeHead) :
    ∀ f ∈ head.signedFields, f.writable = true := by
  intro f hf
  simp only [TreeHead.signedFields, List.mem_cons, List.not_mem_nil, or_false] at hf
  rcases hf with rfl | rfl | rfl | rfl | rfl
  · simp [version]
  · simp
  · exact head.timestamp.writable_field
  · simpa using UInt64.toNat_lt _
  · simp

theorem TreeHead.signedData_eq_ok (head : TreeHead) :
    head.signedData = .ok (encoding head.signedFields) :=
  write_eq_ok head.writable_signedFields

end Transparency
