import Transparency.Ber.Reader
import Transparency.Der

/-!
# Reading the headers of elements

The header of an element with the shortest length there is can be read again, if its tag has a
number below `Tag.limit` and the element is shorter than `lengthLimit`.
-/
namespace Transparency

theorem Der.length_contents_lt (tag : Ber.Tag) (constructed : Bool) (contents : Bytes) :
    contents.length < (element tag constructed contents).length := by
  have identifier : (tag.identifier constructed).length ≠ 0 := by
    simp only [Ber.Tag.identifier]
    split <;> simp
  simp only [element, List.length_append]
  omega

namespace Ber

variable {tag : Tag} {constructed : Bool} {contents : Bytes}

/-! ## Tags -/

/-- Numbers of tags that can be read are below this. -/
def Tag.limit : Nat := 0x80000000

theorem leading_bits (cls : TagClass) (constructed : Bool) (low : Fin 32) :
    let first := (cls.bits ||| if constructed then 0x20 else 0) ||| UInt8.ofNat low
    (first &&& 31).toNat = low ∧ TagClass.ofByte first = cls ∧
      decide (first &&& 0x20 ≠ 0) = constructed := by
  cases cls <;> cases constructed <;> revert low <;> decide +kernel

theorem group_bits (group : Fin 128) (last : Bool) :
    let b := UInt8.ofNat group ||| if last then 0 else 0x80
    (b &&& 0x7f).toNat = group ∧ (b < 0x80 ↔ last = true) := by
  cases last <;> revert group <;> decide +kernel

theorem readGroups?_cons (before n : Nat) (last : Bool) (bs : Bytes) :
    readGroups? before ((UInt8.ofNat (n % 128) ||| if last then 0 else 0x80) :: bs) =
      if last then some (before * 128 + n % 128, bs)
      else if before * 128 + n % 128 < 0x1000000 then readGroups? (before * 128 + n % 128) bs
      else none := by
  obtain ⟨low, ends⟩ := group_bits ⟨n % 128, Nat.mod_lt n (by decide)⟩ last
  dsimp only at low ends
  simp only [readGroups?, low, ends]

/-- Groups that another group follows are read as the number that they spell so far. -/
theorem readGroups?_groups_append {n : Nat} (small : n < 0x1000000) {later : Bytes}
    (followed : later ≠ []) (rest : Bytes) :
    readGroups? 0 (Tag.groups n later ++ rest) = readGroups? n (later ++ rest) := by
  induction n using Nat.strongRecOn generalizing later with
  | ind n ih =>
    have unfinished : later.isEmpty = false := by simpa using followed
    have last (before : Nat) := readGroups?_cons before n false (later ++ rest)
    rw [Tag.groups, unfinished]
    split
    · next single =>
      rw [List.cons_append, last, Nat.mod_eq_of_lt single]
      simp [small]
    · next several =>
      rw [ih (n / 128) (by omega) (by omega) (List.cons_ne_nil _ _), List.cons_append, last,
        Nat.mul_comm, Nat.div_add_mod]
      simp [small]

theorem readGroups?_groups {n : Nat} (small : n < Tag.limit) (rest : Bytes) :
    readGroups? 0 (Tag.groups n [] ++ rest) = some (n, rest) := by
  have last (before : Nat) := readGroups?_cons before n true rest
  rw [Tag.groups, List.isEmpty_nil]
  split
  · next single =>
    rw [List.singleton_append, last, Nat.mod_eq_of_lt single]
    simp
  · next several =>
    have before : n / 128 < 0x1000000 := by
      unfold Tag.limit at small
      omega
    rw [readGroups?_groups_append before (List.cons_ne_nil _ _), List.singleton_append, last,
      Nat.mul_comm, Nat.div_add_mod]
    simp

theorem readIdentifier?_cons (cls : TagClass) (constructed : Bool) (low : Fin 32) (bs : Bytes) :
    readIdentifier?
        (((cls.bits ||| if constructed then 0x20 else 0) ||| UInt8.ofNat low) :: bs) =
      (if low.val = 31 then readGroups? 0 bs else some (low.val, bs)).map
        fun (number, rest) => ((⟨cls, number⟩, constructed), rest) := by
  obtain ⟨number, cls_eq, constructed_eq⟩ := leading_bits cls constructed low
  have escape : ∀ b : UInt8, b = 31 ↔ b.toNat = 31 := fun b => UInt8.toNat_inj.symm
  simp only [readIdentifier?, escape, number, cls_eq, constructed_eq]

theorem readIdentifier?_identifier (readable : tag.number < Tag.limit) (constructed : Bool)
    (rest : Bytes) :
    readIdentifier? (tag.identifier constructed ++ rest) = some ((tag, constructed), rest) := by
  obtain ⟨cls, number⟩ := tag
  by_cases short : number < 31
  · have first := readIdentifier?_cons cls constructed ⟨number, by omega⟩ rest
    simp only [Tag.identifier, if_pos short, List.singleton_append]
    refine first.trans ?_
    rw [if_neg (Nat.ne_of_lt short)]
    rfl
  · have first := readIdentifier?_cons cls constructed 31 (Tag.groups number [] ++ rest)
    simp only [Tag.identifier, if_neg short, List.cons_append]
    refine first.trans ?_
    rw [readGroups?_groups readable]
    rfl

/-! ## Lengths -/

theorem toNat_digits (n : Nat) (later : Bytes) :
    Bytes.toNat (Der.digits n later) = n * 256 ^ later.length + Bytes.toNat later := by
  induction n using Nat.strongRecOn generalizing later with
  | ind n ih =>
    rw [Der.digits]
    split
    · next zero => rw [zero, Nat.zero_mul, Nat.zero_add]
    · have parts := Nat.div_add_mod n 256
      rw [ih (n / 256) (by omega), List.length_cons, Bytes.toNat_cons, UInt8.toNat_ofNat',
        Nat.mod_mod, Nat.pow_succ]
      grind

theorem length_digits {n k : Nat} (small : n < 256 ^ k) (later : Bytes) :
    (Der.digits n later).length ≤ k + later.length := by
  induction n using Nat.strongRecOn generalizing k later with
  | ind n ih =>
    rw [Der.digits]
    split
    · omega
    · next positive =>
      obtain _ | k := k
      · omega
      · have fits : n / 256 < 256 ^ k := by
          rw [Nat.pow_succ] at small
          omega
        have shorter := ih (n / 256) (by omega) fits (UInt8.ofNat (n % 256) :: later)
        rw [List.length_cons] at shorter
        omega

theorem digits_ne_nil {n : Nat} (positive : n ≠ 0) (later : Bytes) : Der.digits n later ≠ [] := by
  induction n using Nat.strongRecOn generalizing later with
  | ind n ih =>
    rw [Der.digits, if_neg positive]
    by_cases last : n / 256 = 0
    · rw [last, Der.digits]
      simp
    · exact ih (n / 256) (by omega) last _

theorem count_bits (count : Fin 128) :
    let b : UInt8 := 0x80 ||| UInt8.ofNat count
    (b &&& 0x7f).toNat = count ∧ ¬ b < 0x80 ∧ (b = 0x80 ↔ count.val = 0) := by
  revert count
  decide +kernel

/-- A length is read if there is as much as it tells. -/
theorem readLength?_length {n : Nat} (short : n < lengthLimit) {rest : Bytes}
    (there : n ≤ rest.length) : readLength? (Der.length n ++ rest) = some (some n, rest) := by
  unfold Der.length
  split
  · next small =>
    have number : (UInt8.ofNat n).toNat = n := by
      rw [UInt8.toNat_ofNat', Nat.mod_eq_of_lt (by omega)]
    have below : UInt8.ofNat n < 0x80 := UInt8.lt_iff_toNat_lt.2 (by rw [number]; exact small)
    have closed : UInt8.ofNat n ≠ 0x80 := fun same => by simp [same] at below
    rw [List.singleton_append, readLength?, if_neg closed, if_pos below, number]
  · next large =>
    have positive : n ≠ 0 := by omega
    have most : (Der.digits n []).length ≤ 8 :=
      length_digits (Nat.lt_of_lt_of_le short (by decide)) []
    have least : (Der.digits n []).length ≠ 0 :=
      fun none => digits_ne_nil positive [] (List.length_eq_zero_iff.1 none)
    have value : Bytes.toNat (Der.digits n []) = n := by simp [toNat_digits]
    -- Only these three facts about the digits count from here on.
    generalize Der.digits n [] = ds at *
    obtain ⟨count, long, indefinite⟩ := count_bits ⟨ds.length, by omega⟩
    dsimp only at count long indefinite
    have enough : Bytes.hasAtLeast (ds.length + 1) (ds ++ rest) = true := by
      rw [Bytes.hasAtLeast_iff, List.length_append]
      omega
    rw [List.cons_append, readLength?, if_neg (mt indefinite.1 least), if_neg long, count,
      if_pos enough, List.take_left, value, List.drop_left]
    exact if_pos short

/-! ## Headers -/

theorem readHeader?_element (readable : tag.number < Tag.limit)
    (short : (Der.element tag constructed contents).length < lengthLimit) (rest : Bytes) :
    readHeader? (Der.element tag constructed contents ++ rest) =
      some (⟨tag, constructed, some contents.length⟩, contents ++ rest) := by
  have inner : contents.length < lengthLimit :=
    Nat.lt_trans (Der.length_contents_lt tag constructed contents) short
  have there : contents.length ≤ (contents ++ rest).length := by simp
  have enough : Bytes.hasAtLeast contents.length (contents ++ rest) = true :=
    Bytes.hasAtLeast_iff.2 there
  simp [readHeader?, readPreamble?, Der.element, readIdentifier?_identifier readable,
    readLength?_length inner there, enough]

end Ber

end Transparency
