import Transparency.Proofs.Log.Rejection
import Transparency.Proofs.Sct.Codec
import Transparency.Proofs.Sct.List

/-!
# What is added to an output

Adding a structure puts the same bytes after whatever was in the output, and they are those that
writing the structure leaves. Some of them are missing only if a vector is longer than its length
prefix can tell; single timestamps and lists of timestamps are then not added at all.
-/
namespace Transparency

namespace Wire

variable {α β : Type} {prior out : Bytes} {a : α} {part : Adding Bool} {e : Encoding} {f : Field}
  {fields : List Field}

/-- Whether a part of writing puts an encoding after every output and tells if it is complete. -/
def Adds (part : Adding Bool) (e : Encoding) : Prop :=
  ∀ prior, part prior = .ok (e.complete, e.onto prior)

/-- Whether a part of writing leaves every output as it was if it fails. -/
def AllOrNothing (part : Adding Bool) : Prop :=
  ∀ prior out, part prior = .ok (false, out) → out = prior

/-- Whether a part of writing adds to every output what `written` leaves of a structure, and all of
it unless something is `long`. -/
def AddsUnless (long : Prop) (part : Adding Bool) (written : Except Halt Encoding) : Prop :=
  ∃ e, written = .ok e ∧ Adds part e ∧ (e.complete = false ↔ long)

/-- What an empty output holds after a part of writing tells what the part adds. -/
theorem Adds.unique {e' : Encoding} (adds : Adds part e) (adds' : Adds part e') : e = e' := by
  obtain ⟨complete, bytes⟩ := Prod.mk.inj (Except.ok.inj ((adds []).symm.trans (adds' [])))
  exact congrArg₂ Encoding.mk bytes complete

/-! ## Fields -/

theorem Adding.bind_of_ok {first : Adding α} (ends : first prior = .ok (a, out))
    (next : α → Adding β) : (first >>= next) prior = next a out := by
  change (first prior >>= fun left => next left.1 left.2) = _
  rw [ends]
  rfl

/-- A field is added whole or not at all. -/
theorem Field.append_eq (writable : f.writable = true) (prior : Bytes) :
    f.append prior = .ok (if f.short then (true, prior ++ f.bytes) else (false, prior)) := by
  cases f with
  | uint width value =>
    have assumed : Halt.unless (fits width value) "the value fits its field" = .ok () :=
      if_pos writable
    rw [Field.append, assumed]
    rfl
  | fixed bytes => rfl
  | vector width bytes =>
    have assumed : Halt.unless (0 < width && width ≤ 8)
        "the length prefix has one to eight bytes" = .ok () := if_pos writable
    rw [Field.append, assumed]
    by_cases short : fits width bytes.length = true
    · have whole : (Field.vector width bytes).short = true := short
      rw [if_pos short, if_pos whole, Field.bytes, ← List.append_assoc]
      rfl
    · have long : ¬ (Field.vector width bytes).short = true := short
      rw [if_neg short, if_neg long]
      rfl

theorem encoding_cons_of_short (short : f.short = true) (fields : List Field) :
    encoding (f :: fields) = (encoding fields).after f.bytes := by
  simp [encoding, short, Encoding.after]

theorem encoding_cons_of_long (long : f.short = false) (fields : List Field) :
    encoding (f :: fields) = ⟨[], false⟩ := by
  simp [encoding, long]

theorem adds_append (writable : ∀ f ∈ fields, f.writable = true) :
    Adds (append fields) (encoding fields) := by
  induction fields with
  | nil =>
    intro prior
    rw [encoding, Encoding.onto, List.takeWhile_nil, List.flatMap_nil, List.append_nil]
    rfl
  | cons f fields ih =>
    obtain ⟨head, tail⟩ := List.forall_mem_cons.1 writable
    intro prior
    have first := f.append_eq head prior
    cases short : f.short with
    | true =>
      have later := ih tail (prior ++ f.bytes)
      rw [short] at first
      rw [Encoding.onto, List.append_assoc] at later
      rw [append, Adding.bind_of_ok first, encoding_cons_of_short short]
      exact later
    | false =>
      rw [short] at first
      rw [append, Adding.bind_of_ok first, encoding_cons_of_long short, Encoding.onto,
        List.append_nil]
      rfl

theorem complete_eq_false_iff :
    (encoding fields).complete = false ↔ ∃ f ∈ fields, f.short = false := by
  simp [encoding]

@[simp] theorem long_vector {width : Nat} {bytes : Bytes} :
    (Field.vector width bytes).short = false ↔ 256 ^ width ≤ bytes.length := by
  simp [Field.short, fits]

/-! ## Staging -/

theorem Adds.staged (adds : Adds part e) : Adds (appendStaged part) e.staged := by
  obtain ⟨bytes, complete⟩ := e
  intro prior
  have apart : part.run [] = .ok (complete, bytes) := adds []
  rw [appendStaged, apart]
  cases complete with
  | true => rfl
  | false =>
    rw [Encoding.staged, Encoding.onto, if_neg Bool.false_ne_true, List.append_nil]
    rfl

theorem Adds.allOrNothing (adds : Adds part e) (staged : e.staged = e) : AllOrNothing part := by
  intro prior out failed
  obtain ⟨complete, rfl⟩ := Prod.mk.inj (Except.ok.inj ((adds prior).symm.trans failed))
  rw [← staged, Encoding.staged, complete, Encoding.onto]
  exact List.append_nil prior

@[simp] theorem complete_staged (e : Encoding) : e.staged.complete = e.complete := by
  cases complete : e.complete <;> simp [Encoding.staged, complete]

@[simp] theorem staged_staged (e : Encoding) : e.staged.staged = e.staged := by
  cases complete : e.complete <;> simp [Encoding.staged, complete]

/-- A single field needs no staging. -/
theorem staged_encoding_singleton (f : Field) : (encoding [f]).staged = encoding [f] := by
  cases short : f.short with
  | true => rw [encoding_cons_of_short short]; rfl
  | false => rw [encoding_cons_of_long short]; rfl

end Wire

open Wire

/-! ## Structures that are written through -/

theorem Signature.long_iff (s : Signature) :
    (∃ f ∈ s.fields, f.short = false) ↔ 65535 < s.data.length := by
  simp [Signature.fields, Nat.lt_iff_add_one_le]

theorem Entry.long_iff (e : Entry) :
    (∃ f ∈ e.fields, f.short = false) ↔ 16777215 < e.payload.length := by
  unfold fields selected payload
  cases e.kind <;> simp [Nat.lt_iff_add_one_le]

theorem Leaf.long_iff (leaf : Leaf) :
    (∃ f ∈ leaf.fields, f.short = false) ↔
      16777215 < leaf.entry.payload.length ∨ 65535 < leaf.extensions.length := by
  rw [← leaf.entry.long_iff]
  simp [Leaf.fields, or_and_right, exists_or, Instant.field_eq, Nat.lt_iff_add_one_le]

theorem Sct.long_signedFields_iff {timestamp : Instant} {entry extensions : Bytes} :
    (∃ f ∈ signedFields timestamp entry extensions, f.short = false) ↔
      65535 < extensions.length := by
  simp [signedFields, Instant.field_eq, Nat.lt_iff_add_one_le]

theorem Signature.append_adds (s : Signature) :
    AddsUnless (65535 < s.data.length) s.append s.encode :=
  ⟨_, write_eq_ok s.writable, adds_append s.writable, complete_eq_false_iff.trans s.long_iff⟩

theorem Entry.append_adds (e : Entry) :
    AddsUnless (16777215 < e.payload.length) e.append e.encode :=
  ⟨_, e.encode_eq_ok, adds_append e.writable, complete_eq_false_iff.trans e.long_iff⟩

theorem Leaf.append_adds (leaf : Leaf) :
    AddsUnless (16777215 < leaf.entry.payload.length ∨ 65535 < leaf.extensions.length)
      leaf.append leaf.encode :=
  ⟨_, leaf.encode_eq_ok, adds_append leaf.writable, complete_eq_false_iff.trans leaf.long_iff⟩

theorem Sct.appendSigned_adds (timestamp : Instant) (entry extensions : Bytes) :
    AddsUnless (65535 < extensions.length) (appendSigned timestamp entry extensions)
      (signedData timestamp entry extensions) :=
  ⟨_, signedData_eq_ok timestamp entry extensions,
    adds_append (writable_signedFields timestamp entry extensions),
    complete_eq_false_iff.trans long_signedFields_iff⟩

theorem TreeHead.appendSigned_adds (head : TreeHead) :
    AddsUnless False head.appendSigned head.signedData := by
  refine ⟨_, head.signedData_eq_ok, adds_append head.writable_signedFields, ?_⟩
  rw [complete_eq_false_iff]
  simp [signedFields, Instant.field_eq]

/-! ## Hashes -/

/-- A leaf that cannot be written has no hash, and then nothing is put. -/
theorem Leaf.putHash_puts (digest : Bytes → Digest) (leaf : Leaf) :
    ∃ h, leaf.hash? digest = .ok h ∧
      (h = none ↔ 16777215 < leaf.entry.payload.length ∨ 65535 < leaf.extensions.length) ∧
      ∀ prior, leaf.putHash digest prior =
        .ok (h.isSome, (h.map fun hash => hash.bytes).getD prior) := by
  obtain ⟨e, written, adds, long⟩ := leaf.append_adds
  rw [hash?, written, Except.map]
  refine ⟨_, rfl, ?_, fun prior => ?_⟩
  · rw [← long]
    cases e.complete <;> simp
  · have put : leaf.append.run [0] = .ok (e.complete, 0 :: e.bytes) := adds [0]
    rw [putHash, put]
    cases e.complete <;> rfl

/-! ## Structures that are staged -/

namespace Sct

theorem long_iff (sct : Sct) :
    (∃ f ∈ sct.fields, f.short = false) ↔
      65535 < sct.extensions.length ∨ 65535 < sct.signature.data.length := by
  rw [← sct.signature.long_iff]
  simp [fields, or_and_right, exists_or, Instant.field_eq, Nat.lt_iff_add_one_le]

theorem append_adds (sct : Sct) :
    AddsUnless (sct.logId.length ≠ 32 ∨ 65535 < sct.extensions.length ∨
      65535 < sct.signature.data.length) sct.append sct.encode ∧ AllOrNothing sct.append := by
  by_cases logId : sct.logId.length = 32
  · have adds : Adds sct.append (encoding sct.fields).staged := by
      rw [append, if_pos logId]
      exact (adds_append sct.writable).staged
    refine ⟨⟨_, encode_eq_ok logId, adds, ?_⟩, adds.allOrNothing (staged_staged _)⟩
    rw [complete_staged, complete_eq_false_iff, long_iff]
    exact ⟨.inr, Or.rec (absurd logId) id⟩
  · have adds : Adds sct.append ⟨[], false⟩ := by
      intro prior
      rw [append, if_neg logId, Encoding.onto, List.append_nil]
      rfl
    have encode : sct.encode = .ok ⟨[], false⟩ := if_neg logId
    exact ⟨⟨_, encode, adds, iff_of_true rfl (.inl logId)⟩, adds.allOrNothing rfl⟩

end Sct

namespace SctList

variable {items : List Bytes}

/-- What writing leaves of a list, from what it leaves of the items. -/
def written (items : List Bytes) : Encoding :=
  let list := encoding (items.map (.vector 2))
  if list.complete then encoding [.vector 2 list.bytes] else ⟨[], false⟩

theorem encode_eq_written (items : List Bytes) : encode items = .ok (written items) := by
  rw [encode, write_items, written]
  cases complete : (encoding (items.map (.vector 2))).complete with
  | true =>
    rw [if_pos rfl, ← staged_encoding_singleton]
    simp [bind, Except.bind, complete, write_list, Except.map]
  | false =>
    simp [bind, Except.bind, complete, pure, Except.pure]

theorem adds_written (items : List Bytes) : Adds (append items) (written items) := by
  intro prior
  have list : (Wire.append (items.map (.vector 2 ·))).run [] =
      .ok ((encoding (items.map (.vector 2))).complete,
        (encoding (items.map (.vector 2))).bytes) := adds_append (writable_items items) []
  rw [append, list, written]
  cases complete : (encoding (items.map (.vector 2))).complete with
  | true => exact adds_append (writable_list _) prior
  | false =>
    rw [if_neg Bool.false_ne_true, Encoding.onto, List.append_nil]
    rfl

theorem staged_written (items : List Bytes) : (written items).staged = written items := by
  unfold written
  dsimp only
  split
  · exact staged_encoding_singleton _
  · rfl

theorem complete_written_eq_false_iff :
    (written items).complete = false ↔ 65535 < (body items).length := by
  by_cases short : (body items).length ≤ 65535
  · have whole := Except.ok.inj ((encode_eq_written items).symm.trans (encode_of_short short))
    simp [whole, short]
  · have long := Nat.lt_of_not_le short
    have nothing := Except.ok.inj ((encode_eq_written items).symm.trans (encode_of_long long))
    simp [nothing, long]

theorem append_adds (items : List Bytes) :
    AddsUnless ((∃ item ∈ items, 65535 < item.length) ∨
      65535 < (items.map fun item => 2 + item.length).sum) (append items) (encode items) ∧
    AllOrNothing (append items) := by
  have long : (∃ item ∈ items, 65535 < item.length) → 65535 < (body items).length := by
    rintro ⟨item, member, long⟩
    exact Nat.lt_of_not_le fun short => Nat.not_lt.2 long (length_lt_of_mem member short)
  refine ⟨⟨_, encode_eq_written items, adds_written items, ?_⟩,
    (adds_written items).allOrNothing (staged_written items)⟩
  rw [complete_written_eq_false_iff, ← length_body]
  exact ⟨.inr, Or.rec long id⟩

end SctList

/-- Every structure is added to an output whatever the output is. Some of it is missing exactly if
something is too long, and then there is nothing of a timestamp, a list or a hash. -/
theorem append_adds_unless_long (digest : Bytes → Digest) (signature : Signature) (entry : Entry)
    (leaf : Leaf) (timestamp : Instant) (serialized extensions : Bytes) (sct : Sct)
    (items : List Bytes) :
    AddsUnless (65535 < signature.data.length) signature.append signature.encode ∧
    AddsUnless (16777215 < entry.payload.length) entry.append entry.encode ∧
    AddsUnless (16777215 < leaf.entry.payload.length ∨ 65535 < leaf.extensions.length)
      leaf.append leaf.encode ∧
    AddsUnless (65535 < extensions.length) (Sct.appendSigned timestamp serialized extensions)
      (Sct.signedData timestamp serialized extensions) ∧
    (AddsUnless (sct.logId.length ≠ 32 ∨ 65535 < sct.extensions.length ∨
      65535 < sct.signature.data.length) sct.append sct.encode ∧ AllOrNothing sct.append) ∧
    (AddsUnless ((∃ item ∈ items, 65535 < item.length) ∨
      65535 < (items.map fun item => 2 + item.length).sum) (SctList.append items)
      (SctList.encode items) ∧ AllOrNothing (SctList.append items)) ∧
    ∃ h, leaf.hash? digest = .ok h ∧
      (h = none ↔ 16777215 < leaf.entry.payload.length ∨ 65535 < leaf.extensions.length) ∧
      ∀ prior, leaf.putHash digest prior =
        .ok (h.isSome, (h.map fun hash => hash.bytes).getD prior) :=
  ⟨signature.append_adds, entry.append_adds, leaf.append_adds,
    Sct.appendSigned_adds timestamp serialized extensions, sct.append_adds,
    SctList.append_adds items, leaf.putHash_puts digest⟩

end Transparency
