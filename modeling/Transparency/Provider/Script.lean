import Transparency.Provider

/-!
# Scripted providers

A provider that gives prepared answers in order, together with the clock and the flag that they
change. Without an answer left it has no proof.
-/
namespace Transparency

structure ScriptedReply where
  reply : ProofReply := .unavailable
  /-- How long the answer takes. -/
  delay : Span := .zero
  cancels : Bool := false

structure Stage where
  now : Instant := .epoch
  cancelled : Bool := false
  replies : List ScriptedReply := []

namespace Stage

def advance (s : Stage) (d : Span) : Stage := { s with now := s.now + d }

/-- What a check sees: a clock that stands and a flag that stays, but for the answers. -/
def surroundings (provider : Option (Provider Stage)) : Surroundings Stage where
  now s := (s.now, s)
  cancelled s := (s.cancelled, s)
  provider := provider

def provider : Provider Stage := fun _ _ s =>
  match s.replies with
  | [] => (.unavailable, s)
  | r :: replies =>
    (r.reply, { now := s.now + r.delay, cancelled := s.cancelled || r.cancels, replies })

end Stage

end Transparency
