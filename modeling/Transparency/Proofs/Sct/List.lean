import Mathlib.Algebra.Ring.Nat
import Transparency.Sct.List
import Transparency.Proofs.Wire.Reading

/-!
# Reading and writing lists of timestamps

Writing gives a list that is short enough bytes of its own. Reading takes back exactly the lists
that have items and no empty ones.
-/
namespace Transparency.SctList

open Wire

variable {bs : Bytes} {items : List Bytes}

/-! ## Writing -/

/-- The bytes of the items, each after its length. -/
def body (items : List Bytes) : Bytes :=
  items.flatMap fun item => Bytes.bigEndian 2 item.length ++ item

theorem length_body (items : List Bytes) :
    (body items).length = (items.map fun item => 2 + item.length).sum := by
  simp [body, List.length_flatMap]

theorem length_lt_of_mem {item : Bytes} (member : item ∈ items)
    (short : (body items).length ≤ 65535) : item.length < 65536 := by
  obtain ⟨before, after, rfl⟩ := List.append_of_mem member
  simp only [length_body, List.map_append, List.map_cons, List.sum_append, List.sum_cons] at short
  omega

theorem flatMap_bytes (items : List Bytes) :
    (items.map (Field.vector 2)).flatMap Field.bytes = body items := by
  rw [List.flatMap_map]
  rfl

theorem writable_items (items : List Bytes) :
    ∀ f ∈ items.map (Field.vector 2), f.writable = true := by
  intro f member
  obtain ⟨item, -, rfl⟩ := List.mem_map.1 member
  simp

theorem writable_list (list : Bytes) : ∀ f ∈ [Field.vector 2 list], f.writable = true := by
  simp

theorem write_items (items : List Bytes) :
    write (items.map (.vector 2 ·)) = .ok (encoding (items.map (.vector 2))) :=
  write_eq_ok (writable_items items)

theorem write_list (list : Bytes) :
    write [.vector 2 list] = .ok (encoding [.vector 2 list]) :=
  write_eq_ok (writable_list list)

theorem encode_of_short (short : (body items).length ≤ 65535) :
    encode items = .ok ⟨Bytes.bigEndian 2 (body items).length ++ body items, true⟩ := by
  have list : encoding (items.map (.vector 2)) = ⟨body items, true⟩ := by
    rw [← flatMap_bytes]
    refine encoding_of_short fun f member => ?_
    obtain ⟨item, listed, rfl⟩ := List.mem_map.1 member
    exact decide_eq_true (length_lt_of_mem listed short)
  have whole : encoding [.vector 2 (body items)] =
      ⟨Bytes.bigEndian 2 (body items).length ++ body items, true⟩ := by
    have fits : fits 2 (body items).length = true := decide_eq_true (Nat.lt_succ_of_le short)
    simp [encoding, Field.short, Field.bytes, fits]
  rw [encode, write_items, list]
  simp [bind, Except.bind, write_list, whole, Except.map, Encoding.staged]

theorem encode_of_long (long : 65535 < (body items).length) : encode items = .ok ⟨[], false⟩ := by
  rw [encode, write_items]
  cases complete : (encoding (items.map (.vector 2))).complete with
  | false => simp [bind, Except.bind, complete, pure, Except.pure]
  | true =>
    have short : ∀ f ∈ items.map (Field.vector 2), f.short = true := List.all_eq_true.1 complete
    have overlong : fits 2 (body items).length = false :=
      decide_eq_false (Nat.not_lt.2 long)
    rw [encoding_of_short short, flatMap_bytes]
    simp [bind, Except.bind, write_list, encoding, Field.short, overlong, Except.map,
      Encoding.staged]

theorem encode_eq_ok_iff {written : Bytes} :
    encode items = .ok ⟨written, true⟩ ↔
      (body items).length ≤ 65535 ∧
        written = Bytes.bigEndian 2 (body items).length ++ body items := by
  by_cases short : (body items).length ≤ 65535
  · rw [encode_of_short short]
    grind
  · rw [encode_of_long (Nat.lt_of_not_le short)]
    grind

theorem body_cons (item : Bytes) (items : List Bytes) :
    body (item :: items) = Bytes.bigEndian 2 item.length ++ item ++ body items := rfl

theorem vector?_of_short {item : Bytes} (short : item.length < 65536) (rest : Bytes) :
    vector? 2 (Bytes.bigEndian 2 item.length ++ item ++ rest) = some (item, rest) :=
  vector?_append short rest

/-- The lengths keep the items apart. -/
theorem body_inj {items items' : List Bytes} (short : ∀ item ∈ items, item.length < 65536)
    (short' : ∀ item ∈ items', item.length < 65536) (same : body items = body items') :
    items = items' := by
  induction items generalizing items' with
  | nil =>
    cases items' with
    | nil => rfl
    | cons => cases same
  | cons item items ih =>
    cases items' with
    | nil => cases same
    | cons item' items' =>
      obtain ⟨first, others⟩ := List.forall_mem_cons.1 short
      obtain ⟨first', others'⟩ := List.forall_mem_cons.1 short'
      have read := vector?_of_short first (body items)
      have read' := vector?_of_short first' (body items')
      rw [body_cons, body_cons] at same
      rw [same, read'] at read
      obtain ⟨rfl, tails⟩ := Prod.mk.inj (Option.some.inj read)
      rw [ih others others' tails.symm]

theorem encode_inj {items' : List Bytes} (written : encode items = .ok ⟨bs, true⟩)
    (written' : encode items' = .ok ⟨bs, true⟩) : items = items' := by
  obtain ⟨short, rfl⟩ := encode_eq_ok_iff.1 written
  obtain ⟨short', same⟩ := encode_eq_ok_iff.1 written'
  obtain ⟨-, bodies⟩ := List.append_inj same (by simp)
  exact body_inj (fun item member => length_lt_of_mem member short)
    (fun item member => length_lt_of_mem member short') bodies

/-! ## Reading -/

theorem items?_eq_some {fuel : Nat} (read : items? fuel bs = some items) :
    (∀ item ∈ items, item ≠ []) ∧ bs = body items := by
  fun_induction items? fuel bs generalizing items with
  | case1 =>
    obtain rfl := Option.some.inj read
    exact ⟨by simp, rfl⟩
  | case2 => cases read
  | case3 => cases read
  | case4 => cases read
  | case5 bs _ fuel item rest first nonempty ih =>
    obtain ⟨items, readRest, rfl⟩ := Option.map_eq_some_iff.1 read
    obtain ⟨others, rfl⟩ := ih readRest
    obtain ⟨-, rfl⟩ := vector?_eq_some_iff.1 first
    refine ⟨List.forall_mem_cons.2 ⟨?_, others⟩, rfl⟩
    rintro rfl
    exact nonempty rfl

theorem items?_of_vector {fuel : Nat} {item rest : Bytes}
    (first : vector? 2 bs = some (item, rest)) (nonempty : item ≠ []) :
    items? (fuel + 1) bs = (items? fuel rest).map (item :: ·) := by
  cases bs with
  | nil => cases first
  | cons b bs =>
    rw [items?, first]
    · exact if_neg (by simpa using nonempty)
    · simp

/-- Fuel for each byte is enough, since every item takes some. -/
theorem items?_body {fuel : Nat} (nonempty : ∀ item ∈ items, item ≠ [])
    (short : ∀ item ∈ items, item.length < 65536) (enough : (body items).length ≤ fuel) :
    items? fuel (body items) = some items := by
  induction items generalizing fuel with
  | nil => cases fuel <;> rfl
  | cons item items ih =>
    obtain ⟨itemNonempty, othersNonempty⟩ := List.forall_mem_cons.1 nonempty
    obtain ⟨itemShort, othersShort⟩ := List.forall_mem_cons.1 short
    have first := vector?_of_short itemShort (body items)
    have length : (body (item :: items)).length = 2 + item.length + (body items).length := by
      simp [body_cons, Nat.add_assoc]
    cases fuel with
    | zero => omega
    | succ fuel =>
      have others : items? fuel (body items) = some items :=
        ih othersNonempty othersShort (by omega)
      rw [body_cons, items?_of_vector first itemNonempty, others]
      rfl

theorem decode_eq_ok_iff :
    decode bs = .ok items ↔
      items ≠ [] ∧ (∀ item ∈ items, item ≠ []) ∧ (body items).length ≤ 65535 ∧
        bs = Bytes.bigEndian 2 (body items).length ++ body items := by
  constructor
  · intro read
    unfold decode at read
    split at read
    · cases read
    next list rest whole =>
    split at read
    · cases read
    next items' readItems =>
    obtain ⟨short, rfl⟩ := vector?_eq_some_iff.1 whole
    obtain ⟨nonempty, rfl⟩ := items?_eq_some readItems
    split at read
    · cases read
    next exhausted =>
    split at read
    · cases read
    next some =>
    obtain rfl := Except.ok.inj read
    refine ⟨by simpa using some, nonempty, Nat.le_of_lt_succ short, ?_⟩
    have ended : rest = [] := by simpa using exhausted
    rw [ended, List.append_nil]
  · rintro ⟨some, nonempty, short, rfl⟩
    have whole := vector?_of_short (Nat.lt_succ_of_le short) []
    rw [List.append_nil] at whole
    have readItems := items?_body nonempty (fun item member => length_lt_of_mem member short)
      (Nat.le_refl _)
    simp [decode, whole, readItems, some]

/-! ## Both -/

theorem decode_eq_ok_iff_encode :
    decode bs = .ok items ↔
      items ≠ [] ∧ (∀ item ∈ items, item ≠ []) ∧ encode items = .ok ⟨bs, true⟩ := by
  rw [decode_eq_ok_iff, encode_eq_ok_iff]

/-- Reading accepts exactly what writing gives for lists that have items and no empty ones, and
writing refuses exactly the lists that are too long. -/
theorem decode_iff_encode_nonempty (bs : Bytes) (items : List Bytes) :
    (decode bs = .ok items ↔
      items ≠ [] ∧ (∀ item ∈ items, item ≠ []) ∧ encode items = .ok ⟨bs, true⟩) ∧
    ((∃ written, encode items = .ok ⟨written, true⟩) ↔
      (items.map fun item => 2 + item.length).sum ≤ 65535) ∧
    ((∃ written, encode items = .ok ⟨written, false⟩) ↔
      65535 < (items.map fun item => 2 + item.length).sum) ∧
    (encode items = .ok ⟨bs, true⟩ →
      (∀ items', encode items' = .ok ⟨bs, true⟩ → items' = items) ∧
      ((∃ fault, decode bs = .error fault) ↔ items = [] ∨ [] ∈ items)) := by
  simp only [← length_body]
  refine ⟨decode_eq_ok_iff_encode, ?_, ?_, fun written => ⟨?_, ?_⟩⟩
  · simp [encode_eq_ok_iff]
  · by_cases short : (body items).length ≤ 65535
    · simp [encode_of_short short, short]
    · have long := Nat.lt_of_not_le short
      simp [encode_of_long long, long]
  · intro items' written'
    exact encode_inj written' written
  · constructor
    · rintro ⟨fault, refused⟩
      by_cases unsound : items = [] ∨ [] ∈ items
      · exact unsound
      · have read : decode bs = .ok items := by
          rw [decode_eq_ok_iff_encode]
          grind
        cases refused.symm.trans read
    · intro unsound
      cases read : decode bs with
      | error fault => exact ⟨fault, rfl⟩
      | ok items' =>
        obtain ⟨some, nonempty, written'⟩ := decode_eq_ok_iff_encode.1 read
        obtain rfl := encode_inj written' written
        grind

/-- A list with an empty item is written, and its bytes are refused. -/
theorem decode_iff_encode_nonempty_gap :
    encode [[], [7]] = .ok ⟨[0, 5, 0, 0, 0, 1, 7], true⟩ ∧
      ∃ fault, decode [0, 5, 0, 0, 0, 1, 7] = .error fault := by
  have written : encode [[], [7]] = .ok ⟨[0, 5, 0, 0, 0, 1, 7], true⟩ := rfl
  obtain ⟨-, -, -, sound⟩ := decode_iff_encode_nonempty [0, 5, 0, 0, 0, 1, 7] [[], [7]]
  exact ⟨written, (sound written).2.2 (.inr List.mem_cons_self)⟩

end Transparency.SctList
