import Transparency.Sct.Codec
import Transparency.Proofs.Wire.Writing

/-!
# Times of timestamps

From 1970 on a later instant has no smaller number of milliseconds on the wire, although the last
instant is written as the largest number there is. Whole milliseconds are written as they are.
-/
namespace Transparency

/-! ## Whole milliseconds -/

/-- Truncation goes up below zero. -/
theorem tdiv_thousand (n : Int) : n.tdiv 1000 = if 0 ≤ n then n / 1000 else (n + 999) / 1000 := by
  have sign : Int.sign 1000 = 1 := rfl
  rw [Int.tdiv_eq_ediv, sign]
  split <;> split <;> omega

theorem Instant.toInt_millis (t : Instant) : t.millis.toInt = t.micros.toInt.tdiv 1000 := by
  have bound := t.micros.toInt_lt
  have bound' := t.micros.le_toInt
  rw [millis, Int64.toInt_div, show (1000 : Int64).toInt = 1000 from rfl, tdiv_thousand]
  apply Int.bmod_eq_of_le <;> split <;> omega

theorem Instant.toInt_ofMillis_millis (t : Instant) :
    (ofMillis t.millis).micros.toInt = t.micros.toInt.tdiv 1000 * 1000 := by
  have bound := t.micros.toInt_lt
  have bound' := t.micros.le_toInt
  rw [ofMillis, Int64.toInt_mul, toInt_millis, show (1000 : Int64).toInt = 1000 from rfl,
    tdiv_thousand]
  apply Int.bmod_eq_of_le <;> split <;> omega

/-! ## Milliseconds on the wire -/

/-- Numbers below zero stand in eight bytes as the largest there are. -/
theorem toNat_toUInt64 (n : Int64) :
    (n.toUInt64.toNat : Int) =
      if 0 ≤ n.toInt then n.toInt else n.toInt + 18446744073709551616 := by
  have bound := n.toUInt64.toNat_lt
  have spread : n.toInt = if 2 * n.toUInt64.toNat < 2 ^ 64 then (n.toUInt64.toNat : Int)
      else n.toUInt64.toNat - (2 ^ 64 : Nat) := BitVec.toInt_eq_toNat_cond n.toBitVec
  split at spread <;> split <;> omega

theorem Instant.stamp_eq (t : Instant) :
    t.stamp =
      if t.micros = Int64.maxValue then 9223372036854775807 else t.millis.toUInt64.toNat := by
  have span : t.since .epoch = ⟨t.micros⟩ := by simp [since, epoch]
  rw [stamp, span, Span.millis, millis]
  by_cases last : t.micros = Int64.maxValue
  · simp only [last, Span.longest]
    rfl
  · rw [if_neg (by simpa [Span.longest] using last), if_neg last]

theorem Instant.stamp_of_nonneg {t : Instant} (since1970 : 0 ≤ t.micros.toInt) :
    t.stamp =
      if t.micros = Int64.maxValue then Int64.maxValue.toUInt64.toNat
      else t.micros.toInt.toNat / 1000 := by
  have whole := toNat_toUInt64 t.millis
  rw [toInt_millis, tdiv_thousand, if_pos since1970] at whole
  rw [stamp_eq]
  split
  · rfl
  · split at whole <;> omega

theorem Instant.stamp_le_stamp {t u : Instant} (since1970 : 0 ≤ t.micros.toInt)
    (later : ¬ u < t) : t.stamp ≤ u.stamp := by
  have order : t.micros.toInt ≤ u.micros.toInt :=
    Int64.le_iff_toInt_le.1 (Int64.not_lt.1 later)
  have bound := u.micros.toInt_lt
  have last : t.micros = Int64.maxValue → u.micros = Int64.maxValue := by
    intro last
    rw [last, show Int64.maxValue.toInt = 2 ^ 63 - 1 from rfl] at order
    exact Int64.toInt_inj.1 (Int.le_antisymm (Int.le_of_lt_add_one bound) order)
  have greatest : Int64.maxValue.toUInt64.toNat = 9223372036854775807 := rfl
  rw [stamp_of_nonneg since1970, stamp_of_nonneg (Int.le_trans since1970 order), greatest]
  split
  · next tLast => simp [last tLast]
  · split <;> omega

/-! ## Times that are read back -/

namespace Instant

variable {millis : Nat}

theorem toInt_micros_ofMillis (bound : millis ≤ Sct.latestMillis) :
    (ofMillis (.ofNat millis)).micros.toInt = 1000 * millis := by
  have small : millis ≤ 9223372036854775 := bound
  rw [ofMillis, Int64.toInt_mul, Int64.toInt_ofNat_of_lt (by omega),
    show (1000 : Int64).toInt = 1000 from rfl, Int.bmod_eq_of_le (by omega) (by omega)]
  omega

theorem eq_ofMillis_iff {t : Instant} (bound : millis ≤ Sct.latestMillis) :
    t = ofMillis (.ofNat millis) ↔ t.micros.toInt = 1000 * millis := by
  constructor
  · rintro rfl
    exact toInt_micros_ofMillis bound
  · intro micros
    have same : t.micros = (ofMillis (.ofNat millis)).micros :=
      Int64.toInt_inj.1 (micros.trans (toInt_micros_ofMillis bound).symm)
    cases t
    exact congrArg Instant.mk same

theorem stamp_ofMillis (bound : millis ≤ Sct.latestMillis) :
    (ofMillis (.ofNat millis)).stamp = millis := by
  have small : millis ≤ 9223372036854775 := bound
  have micros := toInt_micros_ofMillis bound
  have since1970 : 0 ≤ (ofMillis (.ofNat millis)).micros.toInt := by rw [micros]; omega
  have notLast : (ofMillis (.ofNat millis)).micros ≠ Int64.maxValue := by
    intro last
    rw [last, show Int64.maxValue.toInt = 9223372036854775807 from rfl] at micros
    omega
  rw [stamp_of_nonneg since1970, if_neg notLast, micros]
  omega

/-- What is read are the stamps of all times from 1970 on but the last, and of the millisecond before
1970, which truncation takes for the first. -/
theorem stamp_le_latest_iff {t : Instant} :
    t.stamp ≤ Sct.latestMillis ↔
      -1000 < t.micros.toInt ∧ t.micros.toInt < 9223372036854775807 := by
  have bound := t.micros.toInt_lt
  have bound' := t.micros.le_toInt
  have last : t.micros = Int64.maxValue ↔ t.micros.toInt = 9223372036854775807 :=
    Int64.toInt_inj.symm
  have whole := toNat_toUInt64 t.millis
  rw [toInt_millis, tdiv_thousand] at whole
  rw [stamp_eq, Sct.latestMillis]
  simp only [last]
  split
  · omega
  · split at whole <;> split at whole <;> omega

theorem ofMillis_stamp {t : Instant} (read : t.stamp ≤ Sct.latestMillis) :
    ofMillis (.ofNat t.stamp) = ofMillis t.millis := by
  obtain ⟨afterFirst, beforeLast⟩ := stamp_le_latest_iff.1 read
  have notLast : t.micros ≠ Int64.maxValue := by
    intro last
    rw [last, show Int64.maxValue.toInt = 9223372036854775807 from rfl] at beforeLast
    omega
  have whole := toNat_toUInt64 t.millis
  rw [toInt_millis, tdiv_thousand] at whole
  symm
  rw [eq_ofMillis_iff read, toInt_ofMillis_millis, tdiv_thousand, stamp_eq, if_neg notLast]
  split at whole <;> split at whole <;> omega

/-- The instants that the wire can tell: whole milliseconds from 1970 on. -/
def Sendable (t : Instant) : Prop :=
  ∃ millis : Nat, 1000 * millis < 9223372036854775808 ∧ t.micros.toInt = 1000 * millis

theorem sendable_iff {t : Instant} :
    t.Sendable ↔ ∃ millis ≤ Sct.latestMillis, t = ofMillis (.ofNat millis) := by
  have inRange : ∀ millis : Nat,
      millis ≤ Sct.latestMillis ↔ 1000 * millis < 9223372036854775808 := by
    intro millis
    rw [Sct.latestMillis]
    omega
  constructor
  · rintro ⟨millis, small, micros⟩
    have bound := (inRange millis).2 small
    exact ⟨millis, bound, (eq_ofMillis_iff bound).2 micros⟩
  · rintro ⟨millis, bound, same⟩
    exact ⟨millis, (inRange millis).1 bound, (eq_ofMillis_iff bound).1 same⟩

end Instant

end Transparency
