import Transparency.Power

/-!
# Byte strings

Byte strings are lists, so that every statement about a format is an induction on its bytes.
Numbers stand in them most significant byte first.
-/
namespace Transparency

abbrev Bytes := List UInt8

namespace Bytes

/-- The first `n` bytes and the rest, if there are so many. -/
def split? (n : Nat) (bs : Bytes) : Option (Bytes × Bytes) :=
  let head := bs.take n
  if head.length = n then some (head, bs.drop n) else none

theorem split?_append {n : Nat} {head : Bytes} (h : head.length = n) (rest : Bytes) :
    split? n (head ++ rest) = some (head, rest) := by
  subst h; simp [split?]

theorem split?_eq_some_iff {n : Nat} {bs head rest : Bytes} :
    split? n bs = some (head, rest) ↔ bs = head ++ rest ∧ head.length = n := by
  constructor
  · intro h
    simp only [split?] at h
    split at h
    next len =>
      simp only [Option.some.injEq, Prod.mk.injEq] at h
      obtain ⟨rfl, rfl⟩ := h
      exact ⟨(List.take_append_drop n bs).symm, len⟩
    next => simp at h
  · rintro ⟨rfl, h⟩
    exact split?_append h rest

/-- Whether there are `n` bytes, without counting those after them. -/
def hasAtLeast : Nat → Bytes → Bool
  | 0, _ => true
  | _ + 1, [] => false
  | n + 1, _ :: bs => hasAtLeast n bs

theorem hasAtLeast_iff {n : Nat} {bs : Bytes} : hasAtLeast n bs = true ↔ n ≤ bs.length := by
  induction n generalizing bs with
  | zero => simp [hasAtLeast]
  | succ n ih => cases bs <;> simp [hasAtLeast, ih]

/-! ## Numbers -/

/-- The `width` low bytes of `n`. -/
def bigEndian : Nat → Nat → Bytes
  | 0, _ => []
  | width + 1, n => UInt8.ofNat (n / 256 ^ width) :: bigEndian width n

@[simp] theorem length_bigEndian (width n : Nat) : (bigEndian width n).length = width := by
  induction width with
  | zero => rfl
  | succ width ih => simp [bigEndian, ih]

/-- The number that `bs` spells. -/
def toNat (bs : Bytes) : Nat :=
  bs.foldl (fun n b => n * 256 + b.toNat) 0

theorem foldl_eq_toNat (bs : Bytes) (n : Nat) :
    bs.foldl (fun n b => n * 256 + b.toNat) n = n * 256 ^ bs.length + toNat bs := by
  induction bs generalizing n with
  | nil => simp [toNat]
  | cons b bs ih =>
    have tail := ih (0 * 256 + b.toNat)
    simp only [toNat, List.foldl_cons, List.length_cons] at ih tail ⊢
    rw [ih, tail, Nat.pow_succ]
    grind

@[simp] theorem toNat_nil : toNat [] = 0 := rfl

theorem toNat_cons (b : UInt8) (bs : Bytes) :
    toNat (b :: bs) = b.toNat * 256 ^ bs.length + toNat bs := by
  rw [toNat, List.foldl_cons, foldl_eq_toNat, Nat.zero_mul, Nat.zero_add]

theorem toNat_lt (bs : Bytes) : toNat bs < 256 ^ bs.length := by
  induction bs with
  | nil => simp
  | cons b bs ih =>
    have hb := b.toNat_lt
    have step : (b.toNat + 1) * 256 ^ bs.length ≤ 256 * 256 ^ bs.length :=
      Nat.mul_le_mul_right _ (by omega)
    rw [toNat_cons, List.length_cons, Nat.pow_succ]
    rw [Nat.add_mul] at step
    omega

theorem toNat_bigEndian_mod (width n : Nat) : toNat (bigEndian width n) = n % 256 ^ width := by
  induction width with
  | zero => simp [bigEndian, Nat.mod_one]
  | succ width ih =>
    rw [bigEndian, toNat_cons, ih, length_bigEndian, Nat.pow_succ, Nat.mod_mul,
      UInt8.toNat_ofNat']
    grind

/-- A number that fits is read back. -/
theorem toNat_bigEndian {width n : Nat} (h : n < 256 ^ width) : toNat (bigEndian width n) = n := by
  rw [toNat_bigEndian_mod, Nat.mod_eq_of_lt h]

theorem bigEndian_mod (width n : Nat) : bigEndian width (n % 256 ^ width) = bigEndian width n := by
  induction width generalizing n with
  | zero => rfl
  | succ width ih =>
    have low : n % 256 ^ (width + 1) % 256 ^ width = n % 256 ^ width :=
      Nat.mod_mod_of_dvd n (Nat.pow_dvd_pow 256 (Nat.le_succ width))
    have high : n % 256 ^ (width + 1) / 256 ^ width = n / 256 ^ width % 256 := by
      rw [Nat.pow_succ, Nat.mod_mul_right_div_self]
    rw [bigEndian, bigEndian, high, ← ih (n % 256 ^ (width + 1)), low, ih n]
    congr 1
    apply UInt8.toNat_inj.1
    simp

/-- Bytes are written again. -/
theorem bigEndian_toNat (bs : Bytes) : bigEndian bs.length (toNat bs) = bs := by
  induction bs with
  | nil => rfl
  | cons b bs ih =>
    have small := toNat_lt bs
    have positive : 0 < 256 ^ bs.length := Nat.pow_pos (by omega)
    rw [List.length_cons, bigEndian, toNat_cons, ← bigEndian_mod bs.length, Nat.mul_comm,
      Nat.mul_add_div positive, Nat.div_eq_of_lt small, Nat.mul_add_mod, Nat.mod_eq_of_lt small, ih]
    simp

/-- The bytes of a text in UTF-8. -/
def ofText (text : String) : Bytes :=
  text.toUTF8.data.toList

end Bytes

end Transparency
