import Transparency.Certificate.Name
import Transparency.Proofs.Ber.Value

/-!
# Names that are read again

A name in its one form is a sequence of sets of attributes, and each attribute has a value that may
stand in a name. It is read with its bytes and with the texts of its attributes.
-/
namespace Transparency.Name

open Ber (Tag Reads ReadsItem lengthLimit)

/-! ## Values -/

/-- Whether a value may stand in a name, and with which text. -/
inductive Spells : AnyValue → Option String → Prop
  | text {tag : Tag} {contents : Bytes} {chars : List Char} (type : isText tag = true)
      (spelled : characters? tag contents = some chars) :
      Spells (.primitive tag contents) (some (String.ofList chars))
  | textless {value : AnyValue} {tag : Tag} {constructed : Bool} {contents : Bytes}
      (type : isTextless tag = true) (canonical : value.Canonical)
      (written : value.write = Der.element tag constructed contents) : Spells value none

theorem readable_of_isText {tag : Tag} (type : isText tag = true) : tag.number < Tag.limit := by
  have types : ∀ tag ∈ [Tag.utf8String, .numericString, .printableString, .t61String, .ia5String,
      .universalString, .bmpString], tag.number < Tag.limit := by decide
  exact types tag (List.contains_iff_mem.1 type)

theorem isText_of_isTextless {tag : Tag} (type : isTextless tag = true) :
    tag.number < Tag.limit ∧ isText tag = false := by
  obtain ⟨cls, number⟩ := tag
  simp only [isTextless, Bool.and_eq_true, List.contains_iff_mem, decide_eq_true_eq] at type
  obtain ⟨number, rfl⟩ := type
  revert number
  revert number
  decide

theorem Spells.reads {value : AnyValue} {text : Option String} (spells : Spells value text)
    (short : value.write.length < lengthLimit) : Reads readValue value.write text := by
  intro rest
  cases spells with
  | @text tag contents chars type spelled =>
    have header := Ber.readHeader?_element (readable_of_isText type) short rest
    simp [readValue, AnyValue.write, Der.primitive, header, type, Ber.stringContents_append,
      spelled]
  | @textless _ tag constructed contents type canonical written =>
    have item := (canonical.readsItem short).reads rest
    rw [written] at short item ⊢
    obtain ⟨readable, textless⟩ := isText_of_isTextless type
    have header := Ber.readHeader?_element readable short rest
    simp [readValue, header, textless, type, item]

/-! ## Attributes -/

/-- An attribute with the value that it is written with. -/
structure Valued extends Attribute where
  value : AnyValue

namespace Valued

def write (v : Valued) : Bytes := Der.sequence [v.kind.write, v.value.write]

structure Canonical (v : Valued) : Prop where
  kind : Oid.isWellFormed v.kind.contents = true
  value : Spells v.value v.text

theorem Canonical.readsItem {v : Valued} (canonical : v.Canonical)
    (short : v.write.length < lengthLimit) : ReadsItem readAttribute v.write v.toAttribute where
  reads := by
    have kind := Oid.reads canonical.kind (Der.length_lt_of_mem short (by simp))
    have value := canonical.value.reads (Der.length_lt_of_mem short (by simp))
    refine Ber.reads_sequence short ?_
    simp [kind v.value.write, value.eq_some]
  goes_on := Ber.atEnd_element (by decide) short (.inl (by decide))

end Valued

/-! ## Names -/

/-- The name of some sets of attributes. -/
def ofSets (sets : List (List Valued)) : Name where
  bytes := Der.sequence (sets.map fun set => Der.constructed .set (set.map (·.write)))
  attributes := (sets.map fun set => set.map (·.toAttribute)).flatten

/-- A name in its one form that is short enough to be read. -/
structure Canonical (name : Name) : Prop where
  exists_sets : ∃ sets, (∀ set ∈ sets, ∀ v ∈ set, v.Canonical) ∧ name = ofSets sets
  short : name.bytes.length ≤ longest

theorem readsItem_set {set : List Valued} (canonical : ∀ v ∈ set, v.Canonical)
    (short : (Der.constructed .set (set.map (·.write))).length < lengthLimit) :
    ReadsItem (Ber.listOf .set readAttribute) (Der.constructed .set (set.map (·.write)))
      (set.map (·.toAttribute)) where
  reads := by
    refine Ber.reads_listOf (by decide) short (ReadsItem.forall₂_map fun v member => ?_)
    exact (canonical v member).readsItem (Der.length_lt_of_mem short (List.mem_map_of_mem member))
  goes_on := Ber.atEnd_element (by decide) short (.inl (by decide))

theorem Canonical.reads {name : Name} (canonical : name.Canonical) :
    Reads read name.bytes name := by
  obtain ⟨sets, attributes, rfl⟩ := canonical.exists_sets
  have short : (ofSets sets).bytes.length < lengthLimit :=
    Nat.lt_of_le_of_lt canonical.short (by decide)
  have list : Reads (Ber.listOf .sequence (Ber.listOf .set readAttribute)) (ofSets sets).bytes
      (sets.map fun set => set.map (·.toAttribute)) := by
    refine Ber.reads_listOf (by decide) short (ReadsItem.forall₂_map fun set member => ?_)
    exact readsItem_set (attributes set member)
      (Der.length_lt_of_mem short (List.mem_map_of_mem member))
  intro rest
  -- The limit cuts only what follows the name.
  have cut : ((ofSets sets).bytes ++ rest).take longest =
      (ofSets sets).bytes ++ rest.take (longest - (ofSets sets).bytes.length) := by
    rw [List.take_append, List.take_of_length_le canonical.short]
  have taken := list.withBytes (rest.take (longest - (ofSets sets).bytes.length))
  simp only [read, cut, taken, Option.bind_eq_bind, Option.bind_some, List.drop_left]
  rfl

/-! ## Printable names -/

/-- A printable text as an attribute of a kind. -/
def Valued.printable (kind : Oid) (bytes : Bytes) : Valued where
  kind := kind
  text := some (String.ofList (Unicode.ofBytes bytes))
  value := .primitive .printableString bytes

/-- The name of printable texts, each in a set by itself. -/
def ofPrintables (texts : List (Oid × Bytes)) : Name :=
  ofSets (texts.map fun text => [.printable text.1 text.2])

theorem canonical_ofPrintables {texts : List (Oid × Bytes)}
    (formed : ∀ text ∈ texts, Oid.isWellFormed text.1.contents = true)
    (short : (ofPrintables texts).bytes.length ≤ longest) : (ofPrintables texts).Canonical := by
  refine ⟨⟨_, fun set member v one => ?_, rfl⟩, short⟩
  obtain ⟨text, listed, rfl⟩ := List.mem_map.1 member
  obtain rfl := List.mem_singleton.1 one
  exact ⟨formed text listed, .text (by decide) rfl⟩

end Transparency.Name
