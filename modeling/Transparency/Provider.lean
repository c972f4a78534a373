import Transparency.Merkle.Proof
import Transparency.TreeHead

/-!
# Providers of inclusion proofs

A provider is asked whether a leaf is in the tree of a log. Nothing it answers is trusted, and it
may change its surroundings: the clock may move on and the flag for cancelling may be set. Both may
change while nothing is asked, too.
-/
namespace Transparency

structure ProofRequest where
  logId : Bytes := []
  leafHash : Bytes := []
  sctTimestamp : Instant := .epoch
  /-- When the provider has to give up. -/
  deadline : Instant := .epoch
deriving DecidableEq, Inhabited

inductive ProofReply
  | available (head : TreeHead) (proof : Merkle.Proof)
  | unavailable
  | timedOut
  | cancelled
deriving DecidableEq, Inhabited

/-- A provider whose memory is part of the surroundings `σ`. It is told whether the flag for
cancelling is watched. -/
abbrev Provider (σ : Type) := ProofRequest → Bool → σ → ProofReply × σ

/-- What a check sees of its surroundings, which go on with each reading of the clock or of the
flag. -/
structure Surroundings (σ : Type) where
  now : σ → Instant × σ
  cancelled : σ → Bool × σ
  provider : Option (Provider σ)

namespace Surroundings

variable {σ : Type}

/-- Reads the flag if it is watched. -/
def flagged (w : Surroundings σ) (watched : Bool) (s : σ) : Bool × σ :=
  if watched then w.cancelled s else (false, s)

end Surroundings

end Transparency
