import Transparency.Time.Seconds

/-!
# Instants and spans

Both count microseconds in 64 bits, and their arithmetic wraps. An instant counts from the start
of 1970; instants on the wire are whole milliseconds.
-/
namespace Transparency

structure Span where
  micros : Int64
deriving DecidableEq, Inhabited

namespace Span

def zero : Span := ⟨0⟩

/-- The longest span. -/
def longest : Span := ⟨Int64.maxValue⟩

def ofMicros (n : Int64) : Span := ⟨n⟩
def ofMillis (n : Int64) : Span := ⟨n * 1000⟩
def ofSeconds (n : Int64) : Span := ⟨n * 1000000⟩
def ofMinutes (n : Int32) : Span := ⟨n.toInt64 * 60000000⟩
def ofHours (n : Int32) : Span := ⟨n.toInt64 * 3600000000⟩
def ofDays (n : Int32) : Span := ⟨n.toInt64 * 86400000000⟩

/-- Whole milliseconds toward zero; the longest span stays the longest. -/
def millis (s : Span) : Int64 :=
  if s = longest then Int64.maxValue else s.micros / 1000

def add (s t : Span) : Span := ⟨s.micros + t.micros⟩
def sub (s t : Span) : Span := ⟨s.micros - t.micros⟩
def neg (s : Span) : Span := ⟨-s.micros⟩
def scale (s : Span) (n : Int64) : Span := ⟨s.micros * n⟩

instance : Add Span := ⟨add⟩
instance : Sub Span := ⟨sub⟩
instance : Neg Span := ⟨neg⟩
instance : LT Span := ⟨fun s t => s.micros < t.micros⟩
instance : LE Span := ⟨fun s t => s.micros ≤ t.micros⟩
instance (s t : Span) : Decidable (s < t) := inferInstanceAs (Decidable (s.micros < t.micros))
instance (s t : Span) : Decidable (s ≤ t) := inferInstanceAs (Decidable (s.micros ≤ t.micros))

def isZero (s : Span) : Bool := s = zero

def text (s : Span) : String := Seconds.text s.micros.toInt ++ " s"

end Span

structure Instant where
  micros : Int64
deriving DecidableEq, Inhabited

namespace Instant

def epoch : Instant := ⟨0⟩

def add (t : Instant) (s : Span) : Instant := ⟨t.micros + s.micros⟩
def back (t : Instant) (s : Span) : Instant := ⟨t.micros - s.micros⟩

/-- The span from `u` to `t`. -/
def since (t u : Instant) : Span := ⟨t.micros - u.micros⟩

instance : HAdd Instant Span Instant := ⟨add⟩
instance : HSub Instant Span Instant := ⟨back⟩
instance : HSub Instant Instant Span := ⟨since⟩
instance : LT Instant := ⟨fun t u => t.micros < u.micros⟩
instance : LE Instant := ⟨fun t u => t.micros ≤ u.micros⟩
instance (t u : Instant) : Decidable (t < u) := inferInstanceAs (Decidable (t.micros < u.micros))
instance (t u : Instant) : Decidable (t ≤ u) := inferInstanceAs (Decidable (t.micros ≤ u.micros))

def ofMillis (n : Int64) : Instant := ⟨n * 1000⟩

/-- Whole milliseconds since the epoch, toward zero. -/
def millis (t : Instant) : Int64 := t.micros / 1000

def isEpoch (t : Instant) : Bool := t = epoch

def text (t : Instant) : String := toString t.millis.toInt ++ " ms since epoch"

end Instant

end Transparency
