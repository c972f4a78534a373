import Mathlib.Data.List.Forall2
import Transparency.Proofs.Ber.Header

/-!
# Reading elements that were written

A reader reads bytes if it takes exactly them off the front of every input. What is in an element is
read apart from what follows it, so that it is enough to read each part of an element by itself.
-/
namespace Transparency

open Ber (Tag lengthLimit)

namespace Der

variable {tag : Tag} {x : Bytes} {xs : List Bytes}

/-- Elements are shorter than an element around them. -/
theorem length_lt_of_mem {n : Nat} (short : (Der.constructed tag xs).length < n) (member : x ∈ xs) :
    x.length < n := by
  have inner : x.length ≤ xs.flatten.length := (List.sublist_flatten_of_mem member).length_le
  have outer := length_contents_lt tag true xs.flatten
  exact Nat.lt_trans (Nat.lt_of_le_of_lt inner outer) short

end Der

namespace Ber

variable {α : Type} {tag : Tag} {constructed : Bool} {bytes contents rest : Bytes} {a : α}
  {reader : Reader α}

/-- Whether a reader takes just `bytes`, whatever follows them, and gets `a`. -/
def Reads (reader : Reader α) (bytes : Bytes) (a : α) : Prop :=
  ∀ rest, reader (bytes ++ rest) = some (a, rest)

theorem Reads.eq_some (reads : Reads reader bytes a) : reader bytes = some (a, []) := by
  simpa using reads []

theorem Reads.withBytes (reads : Reads reader bytes a) :
    Reads (withBytes reader) bytes (bytes, a) := by
  intro rest
  simp [Ber.withBytes, reads rest]

/-- Whether `bytes` are one element with the given tag, short enough to be read. -/
structure IsElement (tag : Tag) (bytes : Bytes) : Prop where
  readable : tag.number < Tag.limit
  short : bytes.length < lengthLimit
  exists_eq : ∃ constructed contents, bytes = Der.element tag constructed contents

/-! ## Contents -/

theorem delimited_append (reader : Reader α) (read : reader contents = some (a, []))
    (rest : Bytes) :
    delimited (some contents.length) reader (contents ++ rest) = some (a, rest) := by
  simp [delimited, Bytes.split?_append rfl, read]

theorem reads_constructed (readable : tag.number < Tag.limit)
    (short : (Der.element tag true contents).length < lengthLimit)
    (read : reader contents = some (a, [])) :
    Reads (Ber.constructed tag reader) (Der.element tag true contents) a := by
  intro rest
  simp [Ber.constructed, readHeader?_element readable short, delimited_append reader read]

theorem reads_sequence (short : (Der.element .sequence true contents).length < lengthLimit)
    (read : reader contents = some (a, [])) :
    Reads (sequence reader) (Der.element .sequence true contents) a :=
  reads_constructed (by decide) short read

theorem reads_primitive (readable : tag.number < Tag.limit)
    (short : (Der.primitive tag contents).length < lengthLimit) :
    Reads (primitive tag) (Der.primitive tag contents) contents := by
  intro rest
  simp [primitive, Der.primitive, readHeader?_element readable short, Bytes.split?_append]

theorem stringContents_append (tag : Tag) (contents rest : Bytes) :
    stringContents ⟨tag, false, some contents.length⟩ (contents ++ rest) =
      some (contents, rest) := by
  simp [stringContents, Bytes.split?_append]

theorem reads_string (readable : tag.number < Tag.limit)
    (short : (Der.primitive tag contents).length < lengthLimit) :
    Reads (string tag) (Der.primitive tag contents) contents := by
  intro rest
  simp [string, Der.primitive, readHeader?_element readable short, stringContents_append]

theorem reads_raw (element : IsElement tag bytes) : Reads raw bytes bytes := by
  obtain ⟨readable, short, constructed, contents, rfl⟩ := element
  intro rest
  simp [raw, readHeader?_element readable short]

/-! ## Lists -/

theorem readHeader?_end (rest : Bytes) :
    readHeader? (0 :: 0 :: rest) = some (⟨.universal 0, false, some 0⟩, rest) := rfl

/-- An element ends a list only if it is an empty one with the tag zero. -/
theorem atEnd_element (readable : tag.number < Tag.limit)
    (short : (Der.element tag constructed contents).length < lengthLimit)
    (proper : tag ≠ .universal 0 ∨ contents ≠ []) (rest : Bytes) :
    atEnd (Der.element tag constructed contents ++ rest) = false := by
  have header := readHeader?_element readable short rest
  generalize Der.element tag constructed contents ++ rest = bs at header
  unfold atEnd
  split
  · cases header
  · rw [readHeader?_end] at header
    simp only [Option.some.injEq, Prod.mk.injEq, Header.mk.injEq] at header
    obtain ⟨⟨zero, -, empty⟩, -⟩ := header
    obtain differs | nonempty := proper
    · exact absurd zero.symm differs
    · exact absurd (List.length_eq_zero_iff.1 empty.symm) nonempty
  · rfl

/-- Bytes that are read as an item, and do not look like the end of a list. -/
structure ReadsItem (item : Reader α) (bytes : Bytes) (a : α) : Prop where
  reads : Reads item bytes a
  goes_on : ∀ rest, atEnd (bytes ++ rest) = false

theorem many_flatten {item : Reader α} {xs : List Bytes} {as : List α}
    (items : List.Forall₂ (ReadsItem item) xs as) {fuel : Nat} (enough : xs.length ≤ fuel) :
    many item fuel xs.flatten = some (as, []) := by
  induction items generalizing fuel with
  | nil => cases fuel <;> rfl
  | @cons x a xs as first _ ih =>
    obtain _ | fuel := fuel
    · simp at enough
    · have rest := ih (Nat.le_of_succ_le_succ enough)
      simp [many, first.goes_on, first.reads xs.flatten, rest]

theorem ReadsItem.forall₂_map {β : Type} {item : Reader α} {write : β → Bytes} {value : β → α}
    {bs : List β} (items : ∀ b ∈ bs, ReadsItem item (write b) (value b)) :
    List.Forall₂ (ReadsItem item) (bs.map write) (bs.map value) := by
  rw [List.forall₂_map_left_iff, List.forall₂_map_right_iff, List.forall₂_same]
  exact items

theorem ReadsItem.length_le {item : Reader α} {xs : List Bytes} {as : List α}
    (items : List.Forall₂ (ReadsItem item) xs as) : xs.length ≤ xs.flatten.length := by
  induction items with
  | nil => exact Nat.le_refl 0
  | @cons x a xs as first _ ih =>
    have nonempty : x ≠ [] := by
      rintro rfl
      exact absurd (first.goes_on []) (by decide)
    have positive : 0 < x.length := List.length_pos_iff.2 nonempty
    simp only [List.length_cons, List.flatten_cons, List.length_append]
    omega

theorem reads_listOf {item : Reader α} {xs : List Bytes} {as : List α}
    (readable : tag.number < Tag.limit) (short : (Der.constructed tag xs).length < lengthLimit)
    (items : List.Forall₂ (ReadsItem item) xs as) :
    Reads (listOf tag item) (Der.constructed tag xs) as := by
  intro rest
  have read := delimited_append (fun bs => many item bs.length bs)
    (many_flatten items (ReadsItem.length_le items)) rest
  simpa [listOf, Der.constructed, readHeader?_element readable short] using read

/-! ## Optional elements -/

/-- Whether no element with the given tag comes next. -/
inductive Lacks (tag : Tag) : Bytes → Prop
  | nil : Lacks tag []
  | other {tag' : Tag} {x : Bytes} (element : IsElement tag' x) (differs : tag' ≠ tag)
      (rest : Bytes) : Lacks tag (x ++ rest)

theorem optional_of_lacks (lacks : Lacks tag bytes) :
    optional tag reader bytes = some (none, bytes) := by
  cases lacks with
  | nil => rfl
  | @other tag' _ element differs rest =>
    obtain ⟨readable, short, constructed, contents, rfl⟩ := element
    have header := readHeader?_element readable short rest
    generalize Der.element tag' constructed contents ++ rest = bs at header
    cases bs with
    | nil => rfl
    | cons => simp [optional, header, differs]

theorem optional_of_reads (element : IsElement tag bytes) (reads : Reads reader bytes a)
    (rest : Bytes) : optional tag reader (bytes ++ rest) = some (some a, rest) := by
  obtain ⟨readable, short, constructed, contents, rfl⟩ := element
  have header := readHeader?_element readable short rest
  have read := reads rest
  generalize Der.element tag constructed contents ++ rest = bs at header read
  cases bs with
  | nil => cases header
  | cons => simp [optional, header, read]

/-- An optional element is read as it was written, if what follows cannot be taken for it. -/
theorem optional_getD {write : α → Bytes} {value : Option α}
    (element : ∀ a ∈ value, IsElement tag (write a) ∧ Reads reader (write a) a)
    (lacks : Lacks tag rest) :
    optional tag reader ((value.map write).getD [] ++ rest) = some (value, rest) := by
  cases value with
  | none => exact optional_of_lacks lacks
  | some a =>
    obtain ⟨element, reads⟩ := element a rfl
    exact optional_of_reads element reads rest

theorem Lacks.getD {tag' : Tag} {write : α → Bytes} {value : Option α}
    (element : ∀ a ∈ value, IsElement tag' (write a)) (differs : tag' ≠ tag)
    (lacks : Lacks tag rest) : Lacks tag ((value.map write).getD [] ++ rest) := by
  cases value with
  | none => exact lacks
  | some a => exact .other (element a rfl) differs rest

end Ber

end Transparency
