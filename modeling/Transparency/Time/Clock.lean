import Std.Time.DateTime.Timestamp
import Transparency.Time

/-!
# The system clock
-/
namespace Transparency.Instant

/-- The present, in whole microseconds. -/
def present : IO Instant := do
  let now ← Std.Time.Timestamp.now
  return ⟨.ofInt (now.toNanosecondsSinceUnixEpoch.val / 1000)⟩

end Transparency.Instant
