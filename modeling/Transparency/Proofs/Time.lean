import Transparency.Time

/-!
# Instants over the integers

From 1970 on, any two instants are closer than the longest span, so the span between them is exact.
A later instant is exact as long as there is one to hold it. Where there is none, the sum wraps to
an instant before 1970.
-/
namespace Transparency.Instant

variable {t u : Instant} {s : Span}

theorem lt_iff_toInt_lt : t < u ↔ t.micros.toInt < u.micros.toInt := Int64.lt_iff_toInt_lt

theorem le_iff_toInt_le : t ≤ u ↔ t.micros.toInt ≤ u.micros.toInt := Int64.le_iff_toInt_le

theorem toInt_since (since1970 : 0 ≤ t.micros.toInt) (since1970' : 0 ≤ u.micros.toInt) :
    (t - u).micros.toInt = t.micros.toInt - u.micros.toInt := by
  have bound := t.micros.toInt_lt
  have bound' := u.micros.toInt_lt
  change (t.micros - u.micros).toInt = _
  rw [Int64.toInt_sub]
  exact Int.bmod_eq_of_le (by omega) (by omega)

/-- Past the last instant a sum wraps, and only once. -/
theorem toInt_add (since1970 : 0 ≤ t.micros.toInt) (forward : 0 ≤ s.micros.toInt) :
    (t + s).micros.toInt =
      if t.micros.toInt + s.micros.toInt ≤ Int64.maxValue.toInt then
        t.micros.toInt + s.micros.toInt
      else t.micros.toInt + s.micros.toInt - 18446744073709551616 := by
  have bound := t.micros.toInt_lt
  have bound' := s.micros.toInt_lt
  have last : Int64.maxValue.toInt = 9223372036854775807 := rfl
  change (t.micros + s.micros).toInt = _
  rw [Int64.toInt_add, Int.bmod_def, last]
  split <;> split <;> omega

/-- An instant moved on is no earlier than it was just if there is an instant to hold it. -/
theorem le_add_iff (since1970 : 0 ≤ t.micros.toInt) (forward : 0 ≤ s.micros.toInt) :
    t ≤ t + s ↔ t.micros.toInt + s.micros.toInt ≤ Int64.maxValue.toInt := by
  have bound := s.micros.toInt_lt
  rw [le_iff_toInt_le, toInt_add since1970 forward]
  split <;> omega

end Transparency.Instant
