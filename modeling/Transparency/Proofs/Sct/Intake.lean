import Mathlib.Control.Monad.Basic
import Transparency.Proofs.Wire.Intake
import Transparency.Sct.Codec
import Transparency.Sct.List

/-!
# Failed readings in place

Signatures, timestamps and lists of timestamps are taken from an input as they are read from it. A
failure leaves the whole input and the value that was to be replaced, however deep it happens.
-/
namespace Transparency

open Wire

variable {α : Type}

/-! ## Signatures -/

namespace Signature

/-- The stages in which an element is read. -/
def stages : Reader Fault Signature := do
  let hash ← orFault .truncated (uint? 1)
  let scheme ← orFault .truncated (uint? 1)
  let data ← orFault .truncated (vector? 2)
  let s : Signature := ⟨⟨.ofNat hash⟩, ⟨.ofNat scheme⟩, data⟩
  unless s.hash.isNamed do throw (.unknownHash s.hash)
  unless s.scheme.isNamed do throw (.unknownScheme s.scheme)
  return s

theorem decode_eq_stages : decode = stages := by
  funext bs
  rw [decode, readFields?, stages, orFault_bind]
  cases uint? 1 bs with
  | none => rfl
  | some hash =>
    simp only [orFault_bind, Option.bind_eq_bind, Option.bind_some]
    cases uint? 1 hash.2 with
    | none => rfl
    | some scheme =>
      simp only [Option.bind_some]
      cases vector? 2 scheme.2 with
      | none => rfl
      | some data =>
        dsimp only [pure, Option.bind_some]
        cases HashAlgorithm.isNamed ⟨.ofNat hash.1⟩
        · rfl
        cases SignatureScheme.isNamed ⟨.ofNat scheme.1⟩
        · rfl
        · rfl

theorem mirrors_take : Mirrors (take : Taking Fault α Signature) decode := by
  rw [decode_eq_stages]
  unfold take stages
  refine Follows.restoring ?_
  refine (mirrors_uint _ 1).follows.bind fun hash => ?_
  refine (mirrors_uint _ 1).follows.bind fun scheme => ?_
  refine (mirrors_vector _ 2).follows.bind fun data bs a => ⟨bs, ?_⟩
  dsimp only
  cases HashAlgorithm.isNamed ⟨.ofNat hash⟩
  · rfl
  cases SignatureScheme.isNamed ⟨.ofNat scheme⟩
  · rfl
  · rfl

end Signature

/-! ## Timestamps -/

namespace Sct

def timeStages : Reader Fault Instant := do
  let millis ← orFault .truncated (uint? 8)
  if latestMillis < millis then throw (.timeTooLate millis)
  return .ofMillis (.ofNat millis)

theorem readTime_eq_stages : readTime = timeStages := by
  funext bs
  rw [readTime, timeStages, orFault_bind]
  cases uint? 8 bs with
  | none => rfl
  | some millis =>
    by_cases late : latestMillis < millis.1
    · simp only [if_pos late]
      rfl
    · simp only [if_neg late]
      rfl

theorem mirrors_takeTime : Mirrors (takeTime : Taking Fault α Instant) readTime := by
  rw [readTime_eq_stages]
  refine (mirrors_uint _ 8).restoring fun millis bs a => ⟨bs, ?_⟩
  by_cases late : latestMillis < millis
  · simp only [if_pos late]
    rfl
  · simp only [if_neg late]
    rfl

def bodyStages : Reader Fault Sct := do
  let logId ← orFault .truncated (Bytes.split? 32)
  let timestamp ← readTime
  let extensions ← orFault .truncated (vector? 2)
  let signature ← fun bs => (Signature.decode bs).mapError .signature
  return { logId, timestamp, extensions, signature }

theorem readBody_eq_stages : readBody = bodyStages := by
  funext bs
  simp only [readBody, bodyStages, reader_bind, orFault]
  cases Bytes.split? 32 bs with
  | none => rfl
  | some logId =>
    dsimp only
    cases readTime logId.2 with
    | error fault => rfl
    | ok timestamp =>
      dsimp only
      cases vector? 2 timestamp.2 with
      | none => rfl
      | some extensions =>
        dsimp only
        cases Signature.decode extensions.2 <;> rfl

theorem follows_takeBody : Follows (takeBody : Taking Fault α Sct) readBody := by
  rw [readBody_eq_stages]
  refine (mirrors_fixed _ 32).follows.bind fun logId => ?_
  refine mirrors_takeTime.follows.bind fun timestamp => ?_
  refine (mirrors_vector _ 2).follows.bind fun extensions => ?_
  refine (Signature.mirrors_take.follows.adapt Fault.signature).bind fun signature => ?_
  exact fun bs a => ⟨bs, rfl⟩

def stages : Reader Fault Sct := do
  let n ← orFault .truncated (uint? 1)
  unless n = version do throw (.unsupportedVersion n)
  readBody

theorem decode_eq_stages : decode = stages := by
  funext bs
  rw [decode, stages, orFault_bind]
  cases uint? 1 bs with
  | none => rfl
  | some n =>
    by_cases known : n.1 = version
    · simp only [if_pos known]
    · simp only [if_neg known]
      rfl

theorem mirrors_take : Mirrors (take : Taking Fault α Sct) decode := by
  rw [decode_eq_stages]
  refine (mirrors_uint _ 1).restoring fun n => ?_
  by_cases known : n = version
  · simp only [if_pos known]
    exact follows_takeBody
  · simp only [if_neg known]
    exact fun bs a => ⟨bs, rfl⟩

theorem receiveWhole_eq (bs : Bytes) (prior : Sct) :
    receiveWhole bs prior =
      match decodeWhole bs with
      | .ok sct => (.ok (), sct)
      | .error fault => (.error fault, prior) := by
  have took := mirrors_take.apart bs {} prior
  rw [receiveWhole, decodeWhole, receive]
  cases found : decode bs with
  | error fault =>
    rw [found] at took
    exact bind_of_error took _
  | ok read =>
    rw [found] at took
    rw [bind_of_ok took]
    cases exhausted : read.2.isEmpty
    · simp only [exhausted]
      rfl
    · simp only [exhausted]
      rfl

end Sct

/-! ## Lists -/

namespace SctList

theorem takeItems_eq (fuel : Nat) (bs : Bytes) :
    ∃ left, takeItems fuel ⟨bs, ()⟩ =
      ((items? fuel bs).elim (.error .malformedItem) .ok, left) := by
  induction fuel generalizing bs with
  | zero => cases bs <;> exact ⟨_, rfl⟩
  | succ fuel ih =>
    cases bs with
    | nil => exact ⟨_, rfl⟩
    | cons byte bs =>
      -- Both take the item first; what is left after a failure is of no account.
      have took := mirrors_vector (α := Unit) Fault.malformedItem 2 (byte :: bs) ()
      rw [orFault] at took
      change ∃ left, (Wire.Taking.vector .malformedItem 2 >>= _ : Taking Fault Unit _) _ = _
      simp only [items?]
      cases found : vector? 2 (byte :: bs) with
      | none =>
        rw [found] at took
        exact ⟨_, bind_of_error took _⟩
      | some read =>
        obtain ⟨item, rest⟩ := read
        rw [found] at took
        rw [bind_of_ok took]
        cases item with
        | nil => exact ⟨_, rfl⟩
        | cons first more =>
          obtain ⟨left, others⟩ := ih rest
          change ∃ left, (takeItems fuel >>= _ : Taking Fault Unit _) _ =
            (((items? fuel rest).map _).elim _ _, left)
          cases later : items? fuel rest with
          | none =>
            rw [later] at others
            exact ⟨left, bind_of_error others _⟩
          | some items =>
            rw [later] at others
            exact ⟨left, bind_of_ok others _⟩

/-- The items stand in an input of their own, so that they leave nothing to put back. -/
def stages : Reader Fault (List Bytes) := do
  let list ← orFault .truncated (vector? 2)
  orFault .malformedItem fun bs => (items? list.length list).map (·, bs)

theorem mirrors_take : Mirrors (take : Taking Fault α (List Bytes)) stages := by
  refine (mirrors_vector _ 2).restoring fun list bs a => ⟨bs, ?_⟩
  obtain ⟨left, ended⟩ := takeItems_eq list.length list
  rw [Wire.Taking.within, ended, orFault]
  cases items? list.length list <;> rfl

theorem receive_eq (bs : Bytes) (prior : List Bytes) :
    receive bs prior =
      match decode bs with
      | .ok items => (.ok (), items)
      | .error fault => (.error fault, prior) := by
  have took := mirrors_take.apart bs [] prior
  rw [stages, orFault_bind] at took
  rw [receive, decode]
  cases whole : vector? 2 bs with
  | none =>
    rw [whole] at took
    exact bind_of_error took _
  | some read =>
    obtain ⟨list, rest⟩ := read
    simp only [whole, orFault] at took
    dsimp only
    cases found : items? list.length list with
    | none =>
      rw [found] at took
      exact bind_of_error took _
    | some items =>
      rw [found] at took
      rw [bind_of_ok took]
      cases rest <;> cases items <;> rfl

end SctList

/-! ## Failures -/

/-- What fails in place fails apart, and leaves the input and the value as they were. -/
theorem failed_receive_changes_nothing (bs : Bytes) :
    (∀ prior fault left, Signature.receive ⟨bs, prior⟩ = (.error fault, left) →
      left = ⟨bs, prior⟩ ∧ Signature.decode bs = .error fault) ∧
    (∀ prior fault left, Sct.receive ⟨bs, prior⟩ = (.error fault, left) →
      left = ⟨bs, prior⟩ ∧ Sct.decode bs = .error fault) ∧
    (∀ prior fault left, Sct.receiveWhole bs prior = (.error fault, left) →
      left = prior ∧ Sct.decodeWhole bs = .error fault) ∧
    ∀ prior fault left, SctList.receive bs prior = (.error fault, left) →
      left = prior ∧ SctList.decode bs = .error fault := by
  refine ⟨fun prior fault left fails => ?_, fun prior fault left fails => ?_,
    fun prior fault left fails => ?_, fun prior fault left fails => ?_⟩
  · exact Signature.mirrors_take.fill_fails fails
  · exact Sct.mirrors_take.fill_fails fails
  · rw [Sct.receiveWhole_eq] at fails
    cases read : Sct.decodeWhole bs <;> grind
  · rw [SctList.receive_eq] at fails
    cases read : SctList.decode bs <;> grind

/-- An algorithm turns out to be unknown when all of a timestamp is taken. -/
theorem failed_receive_changes_nothing_nested :
    let bs : Bytes := 0 :: List.replicate 32 9 ++ List.replicate 8 0 ++ [0, 1, 5] ++ [4, 7, 0, 0]
    let priorSignature : Signature := ⟨.sha256, .ecdsa, [8]⟩
    let prior : Sct := { logId := [1], extensions := [2, 3], signature := priorSignature }
    (∃ left, Signature.receive ⟨bs, priorSignature⟩ = (.error .truncated, left) ∧
      left = ⟨bs, priorSignature⟩) ∧
    (∃ left, Sct.receive ⟨bs, prior⟩ = (.error (.signature (.unknownScheme ⟨7⟩)), left) ∧
      left = ⟨bs, prior⟩) ∧
    (∃ left, Sct.receiveWhole bs prior = (.error (.signature (.unknownScheme ⟨7⟩)), left) ∧
      left = prior) ∧
    ∃ left, SctList.receive bs [[6]] = (.error .malformedItem, left) ∧ left = [[6]] := by
  intro bs priorSignature prior
  obtain ⟨signature, sct, whole, list⟩ := failed_receive_changes_nothing bs
  have signatureFails := Signature.mirrors_take.fill bs priorSignature
  have sctFails := Sct.mirrors_take.fill bs prior
  have wholeFails := Sct.receiveWhole_eq bs prior
  have listFails := SctList.receive_eq bs [[6]]
  have decoded : Sct.decode bs = .error (.signature (.unknownScheme ⟨7⟩)) := by decide +kernel
  rw [show Signature.decode bs = .error .truncated by decide +kernel] at signatureFails
  rw [decoded] at sctFails
  rw [Sct.decodeWhole, decoded] at wholeFails
  rw [show SctList.decode bs = .error .malformedItem by decide +kernel] at listFails
  exact ⟨⟨_, signatureFails, (signature _ _ _ signatureFails).1⟩,
    ⟨_, sctFails, (sct _ _ _ sctFails).1⟩, ⟨_, wholeFails, (whole _ _ _ wholeFails).1⟩,
    ⟨_, listFails, (list _ _ _ listFails).1⟩⟩

end Transparency
