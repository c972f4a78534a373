import Transparency.Log
import Transparency.Proofs.Wire.Layout

/-!
# What a log signs

The bytes that a log signs for an entry are those of the leaf that it promises. They tell what was
signed: the fields that the kind of the entry selects, the milliseconds and the extensions. The
bytes of a tree head are told in the same way, and are never those of an entry.
-/
namespace Transparency

open Wire

/-- Two entries of one kind that do not differ in what their kind selects. -/
structure Entry.Agrees (a b : Entry) : Prop where
  kind : a.kind = b.kind
  certificate : a.kind = .certificate → a.certificate = b.certificate
  precertificate : a.kind = .precertificate → a.issuerKeyHash = b.issuerKeyHash ∧ a.body = b.body

/-- Whether `message` is what a log signs to promise `entry` in `sct`. -/
def Sct.Signs (sct : Sct) (entry : Entry) (message : Bytes) : Prop :=
  ∃ encoded, entry.encode = .ok ⟨encoded, true⟩ ∧
    Sct.signedData sct.timestamp encoded sct.extensions = .ok ⟨message, true⟩

/-- A log vouches for an entry just by a signature over the message for it. -/
theorem Log.verifySct_eq_ok_iff {suite : Suite} {log : Log} {entry : Entry} {sct : Sct} :
    log.verifySct suite entry sct = .ok (.ok ()) ↔
      sct.logId = log.id.bytes ∧ sct.signature.hasParameters log.hash log.scheme = true ∧
        ∃ message, sct.Signs entry message ∧
          suite.verifies log.hash log.key message sct.signature.data = true := by
  simp only [verifySct, Sct.Signs, entry.encode_eq_ok, Sct.signedData_eq_ok, signs_eq_ok, bind,
    Except.bind, pure, Except.pure, Except.ok.injEq]
  rcases encoding entry.fields with ⟨encoded, _ | _⟩
  · grind
  · rcases signed : encoding (Sct.signedFields sct.timestamp encoded sct.extensions) with
      ⟨message, _ | _⟩
    · grind
    · grind

/-! ## Fields -/

theorem Instant.stamp_lt (t : Instant) : t.stamp < UInt64.size := UInt64.toNat_lt _

theorem Instant.millis_eq_of_stamp_eq {t u : Instant} (same : t.stamp = u.stamp) :
    (t.since .epoch).millis = (u.since .epoch).millis := by
  have wrapped : (t.since .epoch).millis.toUInt64 = (u.since .epoch).millis.toUInt64 :=
    UInt64.toNat_inj.1 same
  exact congrArg Int64.ofUInt64 wrapped

theorem EntryKind.code_lt (kind : EntryKind) : kind.code < 65536 := by
  cases kind <;> decide

theorem EntryKind.code_inj {a b : EntryKind} (same : a.code = b.code) : a = b := by
  cases a <;> cases b <;> first | rfl | cases same

namespace Entry

variable {a b : Entry}

theorem alike_selected (kind : a.kind = b.kind) (short : ∀ f ∈ a.selected, f.short = true)
    (short' : ∀ f ∈ b.selected, f.short = true) :
    List.Forall₂ Field.Alike a.selected b.selected := by
  unfold selected at *
  rw [← kind] at short' ⊢
  cases of : a.kind with
  | certificate =>
    simp only [of, List.mem_singleton, forall_eq, short_vector] at short short'
    exact .cons (.vector short short') .nil
  | precertificate =>
    simp only [of, List.mem_cons, List.not_mem_nil, or_false, forall_eq_or_imp, forall_eq,
      short_fixed, short_vector, true_and] at short short'
    have length_eq : a.issuerKeyHash.bytes.length = b.issuerKeyHash.bytes.length := by
      rw [a.issuerKeyHash.length_eq, b.issuerKeyHash.length_eq]
    exact .cons (.fixed length_eq) (.cons (.vector short short') .nil)

theorem agrees_of_selected_eq (kind : a.kind = b.kind) (same : a.selected = b.selected) :
    Agrees a b := by
  unfold selected at same
  refine ⟨kind, fun of => ?_, fun of => ?_⟩
  · rw [← kind, of] at same
    simpa using same
  · rw [← kind, of] at same
    have selected : a.issuerKeyHash.bytes = b.issuerKeyHash.bytes ∧ a.body = b.body := by
      simpa using same
    exact ⟨Digest.ext_bytes selected.1, selected.2⟩

end Entry

/-! ## Leaves -/

namespace Leaf

variable {a b : Leaf}

/-- Two leaves with the same milliseconds and extensions, and with entries that agree. -/
structure Agrees (a b : Leaf) : Prop where
  millis : (a.timestamp.since .epoch).millis = (b.timestamp.since .epoch).millis
  entry : a.entry.Agrees b.entry
  extensions : a.extensions = b.extensions

/-- The fields up to the kind of the entry, which are laid out alike in all leaves. -/
def head (leaf : Leaf) : List Field :=
  [.uint 1 version, .uint 1 0, .uint 8 leaf.timestamp.stamp, .uint 2 leaf.entry.kind.code]

/-- The fields that follow, whose layout is fixed by the kind. -/
def tail (leaf : Leaf) : List Field :=
  leaf.entry.selected ++ [.vector 2 leaf.extensions]

theorem fields_eq (leaf : Leaf) : leaf.fields = leaf.head ++ leaf.tail := rfl

theorem alike_head (a b : Leaf) : List.Forall₂ Field.Alike a.head b.head :=
  have version : version < 256 ^ 1 := by decide
  have zero : 0 < 256 ^ 1 := by decide
  .cons (.uint version version) <| .cons (.uint zero zero) <|
    .cons (.uint a.timestamp.stamp_lt b.timestamp.stamp_lt) <|
      .cons (.uint a.entry.kind.code_lt b.entry.kind.code_lt) .nil

theorem alike_tail (kind : a.entry.kind = b.entry.kind) (short : ∀ f ∈ a.tail, f.short = true)
    (short' : ∀ f ∈ b.tail, f.short = true) : List.Forall₂ Field.Alike a.tail b.tail := by
  obtain ⟨selected, extensions⟩ := List.forall_mem_append.1 short
  obtain ⟨selected', extensions'⟩ := List.forall_mem_append.1 short'
  rw [List.forall_mem_singleton, short_vector] at extensions extensions'
  exact List.rel_append (Entry.alike_selected kind selected selected')
    (.cons (.vector extensions extensions') .nil)

/-- Leaves that are written completely, and in the same bytes, agree. -/
theorem agrees_of_encode_eq {bytes : Bytes} (encoded : a.encode = .ok ⟨bytes, true⟩)
    (encoded' : b.encode = .ok ⟨bytes, true⟩) : Agrees a b := by
  rw [encode_eq_ok, Except.ok.injEq, encoding_eq_complete_iff, fields_eq,
    List.forall_mem_append, List.flatMap_append] at encoded encoded'
  obtain ⟨⟨-, short⟩, written⟩ := encoded
  obtain ⟨⟨-, short'⟩, written'⟩ := encoded'
  -- The kind stands in the head, and says how the tails are to be compared.
  obtain ⟨heads, rest⟩ := flatMap_bytes_append_inj (alike_head a b) (written.trans written'.symm)
  have told : a.timestamp.stamp = b.timestamp.stamp ∧ a.entry.kind.code = b.entry.kind.code := by
    simpa [head] using heads
  have kind : a.entry.kind = b.entry.kind := EntryKind.code_inj told.2
  have tails : a.tail = b.tail := flatMap_bytes_inj (alike_tail kind short short') rest
  obtain ⟨selected, extensions⟩ := List.append_inj' tails rfl
  exact
    { millis := Instant.millis_eq_of_stamp_eq told.1
      entry := Entry.agrees_of_selected_eq kind selected
      extensions := by simpa using extensions }

end Leaf

/-- The promise of an entry and the leaf for it are the same bytes. -/
theorem Sct.signs_iff {sct : Sct} {entry : Entry} {message : Bytes} :
    sct.Signs entry message ↔
      (Leaf.mk entry sct.timestamp sct.extensions).encode = .ok ⟨message, true⟩ := by
  have written : (Leaf.mk entry sct.timestamp sct.extensions).fields.flatMap Field.bytes =
      (Sct.signedFields sct.timestamp (entry.fields.flatMap Field.bytes)
        sct.extensions).flatMap Field.bytes := by
    simp [Leaf.fields, Sct.signedFields, Field.bytes]
  have short : (∀ f ∈ (Leaf.mk entry sct.timestamp sct.extensions).fields, f.short = true) ↔
      (∀ f ∈ entry.fields, f.short = true) ∧
        ∀ f ∈ Sct.signedFields sct.timestamp (entry.fields.flatMap Field.bytes) sct.extensions,
          f.short = true := by
    simp [Leaf.fields, Sct.signedFields, Instant.field_eq, or_imp, forall_and]
  simp only [Signs, entry.encode_eq_ok, Sct.signedData_eq_ok, Leaf.encode_eq_ok, Except.ok.injEq,
    encoding_eq_complete_iff, short, written]
  constructor
  · rintro ⟨_, ⟨entryShort, rfl⟩, restShort, bytes⟩
    exact ⟨⟨entryShort, restShort⟩, bytes⟩
  · rintro ⟨⟨entryShort, restShort⟩, bytes⟩
    exact ⟨_, ⟨entryShort, rfl⟩, restShort, bytes⟩

/-! ## Tree heads -/

namespace TreeHead

variable {a b : TreeHead}

/-- Two tree heads with the same milliseconds, size and root. -/
structure Agrees (a b : TreeHead) : Prop where
  millis : (a.timestamp.since .epoch).millis = (b.timestamp.since .epoch).millis
  treeSize : a.treeSize = b.treeSize
  root : a.root = b.root

/-- What a log signs for a tree head: all fields have fixed lengths. -/
def message (head : TreeHead) : Bytes := head.signedFields.flatMap Field.bytes

theorem signedData_eq_message (head : TreeHead) : head.signedData = .ok ⟨head.message, true⟩ := by
  have short : ∀ f ∈ head.signedFields, f.short = true := by
    intro f member
    simp only [signedFields, List.mem_cons, List.not_mem_nil, or_false] at member
    rcases member with rfl | rfl | rfl | rfl | rfl <;> rfl
  rw [signedData_eq_ok, encoding_of_short short, message]

theorem alike_signedFields (a b : TreeHead) :
    List.Forall₂ Field.Alike a.signedFields b.signedFields :=
  have version : version < 256 ^ 1 := by decide
  have one : 1 < 256 ^ 1 := by decide
  have length_eq : a.root.bytes.length = b.root.bytes.length :=
    a.root.length_eq.trans b.root.length_eq.symm
  .cons (.uint version version) <| .cons (.uint one one) <|
    .cons (.uint a.timestamp.stamp_lt b.timestamp.stamp_lt) <|
      .cons (.uint a.treeSize.toNat_lt b.treeSize.toNat_lt) <| .cons (.fixed length_eq) .nil

theorem agrees_of_message_eq (same : a.message = b.message) : Agrees a b := by
  have fields : a.signedFields = b.signedFields := flatMap_bytes_inj (alike_signedFields a b) same
  have told : a.timestamp.stamp = b.timestamp.stamp ∧ a.treeSize.toNat = b.treeSize.toNat ∧
      a.root.bytes = b.root.bytes := by
    simpa [signedFields, Instant.field_eq] using fields
  exact
    { millis := Instant.millis_eq_of_stamp_eq told.1
      treeSize := UInt64.toNat_inj.1 told.2.1
      root := Digest.ext_bytes told.2.2 }

end TreeHead

/-! ## Both -/

/-- Promises have a zero as the second byte, complete or not. -/
theorem Sct.signedData_second {timestamp : Instant} {entry extensions : Bytes} {signed : Encoding}
    (written : Sct.signedData timestamp entry extensions = .ok signed) :
    signed.bytes[1]? = some 0 := by
  rw [signedData_eq_ok] at written
  obtain rfl := Except.ok.inj written
  rfl

theorem TreeHead.message_second (head : TreeHead) : head.message[1]? = some 1 := rfl

/-- What a log signs is unambiguous: promises tell their entries, times and extensions, tree heads
tell their times, sizes and roots, and no promise is a tree head. The bytes of a leaf tell the leaf
in the same sense. -/
theorem Sct.signs_unambiguous (sct sct' : Sct) (entry entry' : Entry) (head head' : TreeHead)
    (leaf leaf' : Leaf) :
    (∀ message, sct.Signs entry message → sct'.Signs entry' message →
      entry.Agrees entry' ∧
        (sct.timestamp.since .epoch).millis = (sct'.timestamp.since .epoch).millis ∧
          sct.extensions = sct'.extensions) ∧
    (∃ message message', head.signedData = .ok ⟨message, true⟩ ∧
      head'.signedData = .ok ⟨message', true⟩ ∧ (message = message' → head.Agrees head')) ∧
    (∀ encoded signed, Sct.signedData sct.timestamp encoded sct.extensions = .ok signed →
      head.signedData ≠ .ok ⟨signed.bytes, true⟩) ∧
    (∀ bytes, leaf.encode = .ok ⟨bytes, true⟩ → leaf'.encode = .ok ⟨bytes, true⟩ →
      leaf.Agrees leaf') := by
  refine ⟨fun message signs signs' => ?promises, ?heads, fun encoded signed written same => ?apart,
    fun bytes => Leaf.agrees_of_encode_eq⟩
  case promises =>
    have agrees := Leaf.agrees_of_encode_eq (Sct.signs_iff.1 signs) (Sct.signs_iff.1 signs')
    exact ⟨agrees.entry, agrees.millis, agrees.extensions⟩
  case heads =>
    exact ⟨head.message, head'.message, head.signedData_eq_message, head'.signedData_eq_message,
      TreeHead.agrees_of_message_eq⟩
  case apart =>
    rw [head.signedData_eq_message, Except.ok.injEq, Encoding.mk.injEq] at same
    have second := Sct.signedData_second written
    rw [← same.1, head.message_second] at second
    exact absurd second (by decide)

/-- Within one millisecond of the epoch, before and after it, everything signed is signed alike. -/
theorem Sct.signs_unambiguous_rounded :
    let sct : Sct := { timestamp := ⟨-999⟩ }
    let sct' : Sct := { timestamp := ⟨999⟩, logId := [7] }
    let entry : Entry := { certificate := [42] }
    let entry' : Entry := { certificate := [42], body := [1] }
    let head : TreeHead := { timestamp := ⟨-999⟩ }
    let head' : TreeHead := { timestamp := ⟨999⟩ }
    let leaf : Leaf := { entry, timestamp := ⟨-999⟩ }
    let leaf' : Leaf := { entry := entry', timestamp := ⟨999⟩ }
    let message : Bytes := [0, 0, 0, 0, 0, 0, 0, 0, 0, 0, 0, 0, 0, 0, 1, 42, 0, 0]
    (sct.Signs entry message ∧ sct'.Signs entry' message ∧ entry.Agrees entry') ∧
      (head.signedData = head'.signedData ∧ head.Agrees head') ∧
        leaf.encode = .ok ⟨message, true⟩ ∧ leaf'.encode = .ok ⟨message, true⟩ ∧
          leaf.Agrees leaf' := by
  intro sct sct' entry entry' head head' leaf leaf' message
  have signs : sct.Signs entry message :=
    ⟨[0, 0, 0, 0, 1, 42], by decide +kernel, by decide +kernel⟩
  have signs' : sct'.Signs entry' message :=
    ⟨[0, 0, 0, 0, 1, 42], by decide +kernel, by decide +kernel⟩
  have heads : head.signedData = head'.signedData := by decide +kernel
  have encoded : leaf.encode = .ok ⟨message, true⟩ := by decide +kernel
  have encoded' : leaf'.encode = .ok ⟨message, true⟩ := by decide +kernel
  obtain ⟨promises, ⟨told, told', written, written', headsAgree⟩, -, leaves⟩ :=
    signs_unambiguous sct sct' entry entry' head head' leaf leaf'
  have same : told = told' := by
    rw [written, written', Except.ok.injEq, Encoding.mk.injEq] at heads
    exact heads.1
  exact ⟨⟨signs, signs', (promises message signs signs').1⟩, ⟨by decide +kernel, headsAgree same⟩,
    encoded, encoded', leaves message encoded encoded'⟩

end Transparency
