import Transparency.Check.Single
import Transparency.Proofs.Check.Exchange
import Transparency.Proofs.Log.Acceptance

/-!
# How a check of one timestamp ends

The notes of a check have no part in its end, and no assumption breaks on the way. What is left of
the check is a function of the state, which says who is asked and what is made of the answer.
-/
namespace Transparency

/-- The hash of a leaf, if none of its fields is too long. -/
def Leaf.hash (digest : Bytes → Digest) (leaf : Leaf) : Option Digest :=
  let encoding := Wire.encoding leaf.fields
  if encoding.complete then some (digest (0 :: encoding.bytes)) else none

theorem Leaf.hash?_eq_ok (digest : Bytes → Digest) (leaf : Leaf) :
    leaf.hash? digest = .ok (leaf.hash digest) := by
  rw [hash?, leaf.encode_eq_ok]
  rfl

theorem Leaf.hash_eq_some {digest : Bytes → Digest} {leaf : Leaf} {leafHash : Digest}
    (hash : leaf.hash digest = some leafHash) :
    ∃ encoded, leaf.encode = .ok ⟨encoded, true⟩ ∧ leafHash = Merkle.leafHash digest encoded := by
  simp only [Leaf.hash] at hash
  split at hash
  · next complete =>
    refine ⟨(Wire.encoding leaf.fields).bytes, ?_, (Option.some.inj hash).symm⟩
    rw [leaf.encode_eq_ok, ← complete]
  · cases hash

namespace Checker

variable {σ : Type} (c : Checker σ) (watched : Bool) (log : Log) (sct : Sct)

/-! ## Inclusion -/

def request (leafHash : Digest) (now : Instant) : ProofRequest where
  logId := log.id.bytes
  leafHash := leafHash.bytes
  sctTimestamp := sct.timestamp
  deadline := now + c.config.proofTimeout

/-- The exchange with a provider, if the flag is unset in a state, and the state after it. -/
def exchange (provider : Provider σ) (leafHash : Digest) (s : σ) : Exchange × σ :=
  let (now, s) := c.surroundings.asking watched s
  let request := c.request log sct leafHash now
  let (reply, t) := provider request watched s
  (⟨request, reply⟩, t)

/-- Whether a reply proves inclusion. -/
def convinces (leafHash : Digest) : ProofReply → Bool
  | .available head proof =>
    match log.checkInclusion c.suite sct.timestamp leafHash head proof with
    | .ok (.ok ()) => true
    | _ => false
  | _ => false

theorem convinces_iff {leafHash : Digest} {reply : ProofReply} :
    c.convinces log sct leafHash reply = true ↔ ∃ head proof, reply = .available head proof ∧
      log.checkInclusion c.suite sct.timestamp leafHash head proof = .ok (.ok ()) := by
  unfold convinces
  grind

/-- Whether inclusion is proved, and the state after that was tried. -/
def included (leafHash? : Option Digest) (s : σ) : Bool × σ :=
  match leafHash?, c.surroundings.provider with
  | some leafHash, some provider =>
    let (set, t) := c.surroundings.flagged watched s
    if set then (false, t)
    else
      let (e, t) := c.exchange watched log sct provider leafHash s
      (c.convinces log sct leafHash e.reply, t)
  | _, _ => (false, s)

/-- What is exchanged about a leaf, if it has a hash. -/
def exchanged (leafHash? : Option Digest) (s : σ) : List Exchange :=
  match leafHash?, c.surroundings.provider with
  | some leafHash, some provider =>
    if (c.surroundings.flagged watched s).1 then []
    else [(c.exchange watched log sct provider leafHash s).1]
  | _, _ => []

theorem runs_judgeReply (leafHash : Digest) (reply : ProofReply) (s : σ) :
    Check.Runs c.surroundings watched (c.judgeReply log sct leafHash reply) s []
      (c.convinces log sct leafHash reply) s := by
  unfold judgeReply
  cases reply with
  | available head proof =>
    obtain ⟨verdict, judged⟩ :=
      log.exists_checkInclusion c.suite sct.timestamp leafHash head proof
    simp only [judged, convinces]
    refine (Check.runs_ofExcept verdict).bind_quiet ?_
    cases verdict with
    | error fault => exact (Check.runs_tellAll _).bind_quiet (Check.runs_pure false)
    | ok => exact Check.runs_pure true
  | unavailable => exact (Check.runs_tell _).bind_quiet (Check.runs_pure false)
  | timedOut => exact (Check.runs_tell _).bind_quiet (Check.runs_pure false)
  | cancelled => exact (Check.runs_tell _).bind_quiet (Check.runs_pure false)

theorem runs_proveInclusion (leafHash : Digest) (s : σ) :
    Check.Runs c.surroundings watched (c.proveInclusion watched log sct leafHash) s
      (c.exchanged watched log sct (some leafHash) s)
      (c.included watched log sct (some leafHash) s).1
      (c.included watched log sct (some leafHash) s).2 := by
  unfold proveInclusion exchanged included
  cases provided : c.surroundings.provider with
  | none => exact Check.runs_pure false
  | some provider =>
    cases flagged : (c.surroundings.flagged watched s).1 with
    | true =>
      refine Check.runs_flagged.bind_quiet ?_
      simp only [flagged, if_true]
      exact Check.runs_pure false
    | false =>
      simp only [flagged, Bool.false_eq_true, if_false]
      exact Check.Runs.ask provided flagged rfl
        (c.runs_judgeReply watched log sct leafHash _ _)

/-! ## Judgement -/

/-- The code for a timestamp that its log has signed, and the state after it was found. -/
def judgement (leaf : Leaf) (s : σ) : ResultCode × σ :=
  let (now, s) := c.surroundings.now s
  if c.config.rejectFuture && now < sct.timestamp then (.invalidTimestamp, s)
  else
    let (included, t) := c.included watched log sct ((leaf.bind sct).hash c.suite.digest) s
    (if included || isFresh log now sct then .ok else .inclusionFailedStale, t)

/-- What is exchanged about a timestamp that its log has signed. -/
def exchangedToJudge (leaf : Leaf) (s : σ) : List Exchange :=
  let (now, s) := c.surroundings.now s
  if c.config.rejectFuture && now < sct.timestamp then []
  else c.exchanged watched log sct ((leaf.bind sct).hash c.suite.digest) s

theorem runs_judge (leaf : Leaf) (s : σ) :
    Check.Runs c.surroundings watched (c.judge watched log leaf sct) s
      (c.exchangedToJudge watched log sct leaf s) (c.judgement watched log sct leaf s).1
      (c.judgement watched log sct leaf s).2 := by
  unfold judge exchangedToJudge judgement
  refine Check.runs_now.bind_quiet ?_
  generalize c.surroundings.now s = reading
  obtain ⟨now, s⟩ := reading
  have settle : ∀ included t, Check.Runs c.surroundings watched
      (if included || isFresh log now sct then Pure.pure ResultCode.ok
        else do
          Check.tell ("Inclusion unverifiable and SCT from " ++ log.description ++
            " is older than the maximum merge delay of " ++ log.mergeDelay.text)
          return .inclusionFailedStale) t []
      (if included || isFresh log now sct then .ok else .inclusionFailedStale) t := by
    intro included t
    split
    · exact Check.runs_pure _
    · exact (Check.runs_tell _).bind_quiet (Check.runs_pure _)
  by_cases future : (c.config.rejectFuture && now < sct.timestamp) = true
  · simp only [if_pos future]
    exact (Check.runs_tell _).bind_quiet (Check.runs_pure _)
  · simp only [if_neg future, Leaf.hash?_eq_ok]
    refine (Check.runs_ofExcept _).bind_quiet ?_
    cases (leaf.bind sct).hash c.suite.digest with
    | none => exact (Check.runs_pure false).bind_quiet (settle false s)
    | some leafHash =>
      exact (c.runs_proveInclusion watched log sct leafHash s).bind_last (settle _ _)

/-- Whether the log has signed `entry` in the timestamp. -/
def vouched (entry : Entry) : Bool :=
  match log.verifySct c.suite entry sct with
  | .ok (.ok ()) => true
  | _ => false

/-- The code for a timestamp whose log is known, and the state after it was found. -/
def knownVerdict (leaf : Leaf) (s : σ) : ResultCode × σ :=
  if c.vouched log sct leaf.entry then c.judgement watched log sct leaf s
  else (.signatureMismatch, s)

theorem runs_checkKnown (leaf : Leaf) (s : σ) :
    Check.Runs c.surroundings watched (c.checkKnown watched log leaf sct) s
      (if c.vouched log sct leaf.entry then c.exchangedToJudge watched log sct leaf s else [])
      (c.knownVerdict watched log sct leaf s).1 (c.knownVerdict watched log sct leaf s).2 := by
  obtain ⟨verdict, judged⟩ := log.exists_verifySct c.suite leaf.entry sct
  unfold checkKnown knownVerdict vouched
  rw [judged]
  refine (Check.runs_ofExcept verdict).bind_quiet ?_
  cases verdict with
  | error rejection => exact (Check.runs_tellAll _).bind_quiet (Check.runs_pure _)
  | ok => exact c.runs_judge watched log sct leaf s

/-- What comes of a serialized timestamp, and the state after that was found. -/
def verdict (bytes : Bytes) (leaf : Leaf) (s : σ) : (ResultCode × Option Sct) × σ :=
  match Sct.decodeWhole bytes with
  | .error _ => ((.malformedSct, none), s)
  | .ok sct =>
    match c.registry.find? sct.logId with
    | none => ((.unknownLog, some sct), s)
    | some log =>
      let sct := { sct with logDescription := log.description }
      let (code, t) := c.knownVerdict watched log sct leaf s
      ((code, some sct), t)

/-- What is exchanged about a serialized timestamp. -/
def exchanges (bytes : Bytes) (leaf : Leaf) (s : σ) : List Exchange :=
  match Sct.decodeWhole bytes with
  | .error _ => []
  | .ok sct =>
    match c.registry.find? sct.logId with
    | none => []
    | some log =>
      let sct := { sct with logDescription := log.description }
      if c.vouched log sct leaf.entry then c.exchangedToJudge watched log sct leaf s else []

theorem runs_checkOne (bytes : Bytes) (leaf : Leaf) (s : σ) :
    Check.Runs c.surroundings watched (c.checkOne watched bytes leaf) s
      (c.exchanges watched bytes leaf s) (c.verdict watched bytes leaf s).1
      (c.verdict watched bytes leaf s).2 := by
  unfold checkOne exchanges verdict
  cases Sct.decodeWhole bytes with
  | error fault => exact (Check.runs_tellAll _).bind_quiet (Check.runs_pure _)
  | ok sct =>
    cases known : c.registry.find? sct.logId with
    | none =>
      simp only [known]
      exact (Check.runs_tell _).bind_quiet (Check.runs_pure _)
    | some log =>
      simp only [known]
      exact (c.runs_checkKnown watched log _ leaf s).bind_last (Check.runs_pure _)

theorem outcome_checkOne (bytes : Bytes) (leaf : Leaf) (s : σ) :
    (c.checkOne watched bytes leaf s).outcome = .ok (c.verdict watched bytes leaf s) :=
  (c.runs_checkOne watched bytes leaf s).outcome

theorem verdict_eq_ok {c : Checker σ} {watched : Bool} {bytes : Bytes} {decoded : Option Sct}
    {leaf : Leaf} {s t : σ} (accepted : c.verdict watched bytes leaf s = ((.ok, decoded), t)) :
    ∃ sct log, Sct.decodeWhole bytes = .ok sct ∧ c.registry.find? sct.logId = some log ∧
      decoded = some { sct with logDescription := log.description } ∧
        c.judgement watched log { sct with logDescription := log.description } leaf s =
          (.ok, t) := by
  unfold verdict knownVerdict at accepted
  grind

end Checker

end Transparency
