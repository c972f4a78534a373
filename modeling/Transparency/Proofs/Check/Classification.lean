import Transparency.Proofs.Check.Requests
import Transparency.Proofs.Check.Settlement
import Transparency.Proofs.Log.Rejection
import Transparency.Proofs.Registry.Index
import Transparency.Proofs.Sct.Codec
import Transparency.Stored

/-!
# Why a timestamp is rejected

Before its age is looked at, a timestamp is rejected if it cannot be read, if its log is not listed,
or if the log does not vouch for the entry. These are asked in that order, so the first that is the
case gives the code. A registry finds logs by their ids, and extensions that were read can be
written again, so neither of these is ever why a log does not vouch.
-/
namespace Transparency

variable {bytes : Bytes} {sct : Sct} {entry : Entry} {log : Log} {l : Listing}

/-- Whether bytes are exactly one timestamp as it is written. -/
def Sct.Serializes (sct : Sct) (bytes : Bytes) : Prop :=
  sct.Canonical ∧ sct.encode = .ok ⟨bytes, true⟩

theorem Sct.serializes_iff : sct.Serializes bytes ↔ decodeWhole bytes = .ok sct := by
  rw [decodeWhole_eq_ok_iff]
  refine and_congr_right fun canonical => ?_
  rw [canonical.encode_eq, Except.ok.injEq, Wire.Encoding.mk.injEq, and_iff_left rfl, eq_comm]

/-! ## Signatures -/

/-- Whether a signature is not one with `key` for an entry: its algorithms are others, the entry is
too long to be signed, or it is none over what is signed. -/
def Suite.Mismatches (suite : Suite) (key : PublicKey) (entry : Entry) (sct : Sct) : Prop :=
  ¬ (sct.signature.hash = .sha256 ∧ key.SignsWith sct.signature.scheme) ∨
    16777216 ≤ entry.payload.length ∨
      ∃ message, sct.Signs entry message ∧
        suite.verifies .sha256 key message sct.signature.data = false

theorem Listing.Describes.hasParameters_iff {suite : Suite} (described : l.Describes suite log) :
    sct.signature.hasParameters log.hash log.scheme = true ↔
      sct.signature.hash = .sha256 ∧ log.key.SignsWith sct.signature.scheme := by
  have scheme_iff : sct.signature.scheme = log.scheme ↔ log.key.SignsWith sct.signature.scheme :=
    ⟨fun same => same ▸ described.scheme, fun signs => signs.unique described.scheme⟩
  rw [described.hash, ← scheme_iff]
  simp [Signature.hasParameters]

/-- A log that was found vouches for an entry unless the signature mismatches. -/
theorem Log.verifySct_ne_ok_iff {suite : Suite} (described : l.Describes suite log)
    (own : log.id.bytes = sct.logId) (short : sct.extensions.length < 65536) :
    log.verifySct suite entry sct ≠ .ok (.ok ()) ↔ suite.Mismatches log.key entry sct := by
  constructor
  · intro refused
    obtain ⟨verdict, judged⟩ := log.exists_verifySct suite entry sct
    cases verdict with
    | ok => exact absurd judged refused
    | error rejection =>
      have grounds : log.Grounds suite entry sct rejection := grounds_of_verifySct judged
      cases rejection with
      | otherLog => exact absurd own.symm grounds
      | parameters given =>
        refine .inl fun parameters => ?_
        have others : sct.signature.hasParameters log.hash log.scheme = false := grounds.2
        rw [described.hasParameters_iff.2 parameters] at others
        cases others
      | longEntry => exact .inr (.inl grounds)
      | longExtensions => exact absurd short (Nat.not_lt.2 grounds)
      | signature =>
        obtain ⟨message, signs, forged⟩ := grounds
        rw [described.hash] at forged
        exact .inr (.inr ⟨message, signs, forged⟩)
      | emptyTreeRoot => cases grounds
  · intro mismatches accepted
    rw [verifySct_eq_ok_iff, described.hasParameters_iff, described.hash] at accepted
    obtain ⟨-, parameters, message, signs, genuine⟩ := accepted
    rcases mismatches with others | long | ⟨message', signs', forged⟩
    · exact others parameters
    · have fits : entry.payload.length < 16777216 := (Sct.exists_signs_iff.1 ⟨message, signs⟩).1
      omega
    · rw [signs.unique signs', forged] at genuine
      cases genuine

/-- What can be wrong with the signature of a timestamp whose log was found. -/
theorem Log.rejection_mem {suite : Suite} {rejection : Log.Rejection}
    (own : log.id.bytes = sct.logId) (short : sct.extensions.length < 65536)
    (rejected : log.verifySct suite entry sct = .ok (.error rejection)) :
    rejection ∈ [.parameters sct.signature, .longEntry, .signature] := by
  have grounds := grounds_of_verifySct rejected
  cases rejection with
  | otherLog => exact absurd own.symm grounds
  | parameters given =>
    rw [grounds.1]
    simp
  | longEntry => simp
  | longExtensions => exact absurd short (Nat.not_lt.2 grounds)
  | signature => simp
  | emptyTreeRoot => cases grounds

namespace Checker

variable {σ : Type} {c : Checker σ} {watched : Bool} {leaf : Leaf} {s : σ} {listings : List Listing}

/-! ## Codes -/

theorem judgement_mem_byAge (c : Checker σ) (watched : Bool) (log : Log) (sct : Sct) (leaf : Leaf)
    (s : σ) :
    (c.judgement watched log sct leaf s).1 ∈
      [ResultCode.ok, .inclusionFailedStale, .invalidTimestamp] := by
  unfold judgement
  grind

theorem knownVerdict_eq_signatureMismatch_iff :
    (c.knownVerdict watched log sct leaf s).1 = .signatureMismatch ↔
      log.verifySct c.suite leaf.entry sct ≠ .ok (.ok ()) := by
  have byAge := c.judgement_mem_byAge watched log sct leaf s
  rw [Ne, ← vouched_iff]
  unfold knownVerdict
  grind

theorem knownVerdict_ne (c : Checker σ) (watched : Bool) (log : Log) (sct : Sct) (leaf : Leaf)
    (s : σ) :
    (c.knownVerdict watched log sct leaf s).1 ≠ .malformedSct ∧
      (c.knownVerdict watched log sct leaf s).1 ≠ .unknownLog := by
  have byAge := c.judgement_mem_byAge watched log sct leaf s
  unfold knownVerdict
  grind

/-- How a timestamp that was read is sorted by code, and what is stored of it. -/
structure Sorts (c : Checker σ) (listings : List Listing) (leaf : Leaf) (sct : Sct)
    (code : ResultCode) (decoded : Option Sct) : Prop where
  /-- Its log is unknown just if no listed key has its id. -/
  unknownLog_iff : code = .unknownLog ↔ ∀ l ∈ listings, (c.suite.digest l.key).bytes ≠ sct.logId
  unnamed : code = .unknownLog → decoded = some sct ∧ sct.logDescription = ""
  named : ∀ l ∈ listings, (c.suite.digest l.key).bytes = sct.logId →
    decoded = some { sct with logDescription := l.description }
  /-- The key that has it is the one with which the signature is compared, -/
  signatureMismatch_iff : ∀ l ∈ listings, (c.suite.digest l.key).bytes = sct.logId →
    ∃ key, c.suite.readKey l.key = some (key, []) ∧
      (code = .signatureMismatch ↔ c.suite.Mismatches key leaf.entry sct)
  /-- and neither the id nor the extensions are why the log does not vouch. -/
  causes : ∀ log rejection, c.registry.find? sct.logId = some log →
    log.verifySct c.suite leaf.entry { sct with logDescription := log.description } =
        .ok (.error rejection) →
      rejection ∈ [.parameters sct.signature, .longEntry, .signature]

theorem sorts_of_unlisted (indexes : Registry.Indexes c.suite listings c.registry)
    (canonical : sct.Canonical) (unlisted : c.registry.find? sct.logId = none) :
    c.Sorts listings leaf sct .unknownLog (some sct) := by
  have others : ∀ l ∈ listings, (c.suite.digest l.key).bytes ≠ sct.logId := by
    intro l listed own
    have found := (indexes.isSome_find?_iff sct.logId).2 ⟨l, listed, own⟩
    rw [unlisted] at found
    cases found
  exact
    { unknownLog_iff := ⟨fun _ => others, fun _ => rfl⟩
      unnamed := fun _ => ⟨rfl, canonical.logDescription⟩
      named := fun l listed own => absurd own (others l listed)
      signatureMismatch_iff := fun l listed own => absurd own (others l listed)
      causes := fun log _ found => by rw [unlisted] at found; cases found }

theorem sorts_of_listed (indexes : Registry.Indexes c.suite listings c.registry)
    (canonical : sct.Canonical) (found : c.registry.find? sct.logId = some log) :
    c.Sorts listings leaf sct
      (c.knownVerdict watched log { sct with logDescription := log.description } leaf s).1
      (some { sct with logDescription := log.description }) := by
  obtain ⟨own, describes⟩ := indexes.describes sct.logId log found
  have short : sct.extensions.length < 65536 := Nat.lt_succ_of_le canonical.extensions
  let named : Sct := { sct with logDescription := log.description }
  have known : (c.knownVerdict watched log named leaf s).1 ≠ .unknownLog :=
    (c.knownVerdict_ne watched log named leaf s).2
  constructor
  case unknownLog_iff =>
    have some : (c.registry.find? sct.logId).isSome := by rw [found, Option.isSome_some]
    obtain ⟨l, listed, same⟩ := (indexes.isSome_find?_iff sct.logId).1 some
    exact ⟨fun unknown => absurd unknown known, fun others => absurd same (others l listed)⟩
  case unnamed => exact fun unknown => absurd unknown known
  case named =>
    intro l listed same
    rw [(describes l listed same).description]
  case signatureMismatch_iff =>
    intro l listed same
    have described : l.Describes c.suite log := describes l listed same
    refine ⟨log.key, described.key, ?_⟩
    rw [knownVerdict_eq_signatureMismatch_iff]
    exact Log.verifySct_ne_ok_iff described own short
  case causes =>
    intro log' rejection found' rejected
    exact Log.rejection_mem (Registry.id_of_find? found') short rejected

theorem sorts_verdict (indexes : Registry.Indexes c.suite listings c.registry)
    (serialized : sct.Serializes bytes) :
    c.Sorts listings leaf sct (c.verdict watched bytes leaf s).1.1
      (c.verdict watched bytes leaf s).1.2 := by
  have read : Sct.decodeWhole bytes = .ok sct := Sct.serializes_iff.1 serialized
  cases found : c.registry.find? sct.logId with
  | none =>
    simp only [verdict, read, found]
    exact sorts_of_unlisted indexes serialized.1 found
  | some log =>
    simp only [verdict, read, found]
    exact sorts_of_listed indexes serialized.1 found

theorem verdict_eq_malformedSct_iff :
    (c.verdict watched bytes leaf s).1.1 = .malformedSct ↔ ∀ sct : Sct, ¬ sct.Serializes bytes := by
  simp only [Sct.serializes_iff]
  unfold verdict
  cases read : Sct.decodeWhole bytes with
  | error fault => simp
  | ok sct =>
    cases found : c.registry.find? sct.logId with
    | none => simp [found]
    | some log =>
      let named : Sct := { sct with logDescription := log.description }
      have known : (c.knownVerdict watched log named leaf s).1 ≠ .malformedSct :=
        (c.knownVerdict_ne watched log named leaf s).1
      simpa [found] using known

theorem store_verdict_of_malformedSct
    (malformed : (c.verdict watched bytes leaf s).1.1 = .malformedSct) (prior : Sct) :
    store prior (c.verdict watched bytes leaf s).1.2 = ⟨prior, false⟩ := by
  rw [verdict_eq_malformedSct_iff] at malformed
  simp only [Sct.serializes_iff] at malformed
  unfold verdict
  cases read : Sct.decodeWhole bytes with
  | error fault => rfl
  | ok sct => exact absurd read (malformed sct)

/-- A check of one timestamp ends, and says exactly whether the bytes are not one timestamp, or else
whether no listed key has its id, or else whether the signature is not one with that key. -/
theorem checkOne_classifies (c : Checker σ) {listings : List Listing}
    (built : (Registry.create c.suite listings).registry = some c.registry)
    (watched : Bool) (bytes : Bytes) (leaf : Leaf) (s : σ) :
    ∃ code decoded t, (c.checkOne watched bytes leaf s).outcome = .ok ((code, decoded), t) ∧
      code ∈ ResultCode.ofTimestamp ∧
        (code = .malformedSct ↔ ∀ sct : Sct, ¬ sct.Serializes bytes) ∧
          (code = .malformedSct → ∀ prior, store prior decoded = ⟨prior, false⟩) ∧
            ∀ sct : Sct, sct.Serializes bytes → c.Sorts listings leaf sct code decoded :=
  ⟨_, _, _, c.outcome_checkOne watched bytes leaf s, c.verdict_mem watched bytes leaf s,
    verdict_eq_malformedSct_iff, store_verdict_of_malformedSct, fun _ =>
      sorts_verdict (Registry.indexes_of_create built)⟩

/-- Timestamps with algorithms that are not those of the one log: with a byte too many and another
id, with another id, and with its own. -/
theorem checkOne_classifies_first :
    let l : Listing :=
      { key := SubjectKey.small.write, description := "only", mergeDelay := .ofHours 24 }
    let own : Bytes := Bytes.bigEndian 32
      0xdf1c2ec11500945247a96168325ddc5c7959e8f7c6d388fc002e0bbd3f74d764
    let other : Bytes := List.replicate 32 1
    let sct : Bytes → Sct := fun id => { logId := id, signature := ⟨.sha256, .rsa, [9]⟩ }
    let bytes : Bytes → Bytes := fun id => 0 :: id ++ List.replicate 10 0 ++ [4, 1, 0, 1, 9]
    let leaf : Leaf := { entry := { certificate := [42] } }
    ∃ c : Checker Unit, c.suite = .standard ∧
      (Registry.create c.suite [l]).registry = some c.registry ∧
        (c.checkOne true (bytes other ++ [0]) leaf ()).outcome =
            .ok ((.malformedSct, none), ()) ∧
          (c.checkOne true (bytes other) leaf ()).outcome =
              .ok ((.unknownLog, some (sct other)), ()) ∧
            (c.checkOne true (bytes own) leaf ()).outcome =
              .ok ((.signatureMismatch, some { sct own with logDescription := "only" }), ()) := by
  intro l own other sct bytes leaf
  have id : (Suite.standard.digest l.key).bytes = own := by decide +kernel
  have acceptable : Registry.Acceptable .standard [l] :=
    ⟨List.forall_mem_singleton.2 ⟨by decide, ⟨_, _, SubjectKey.readKey_small, .elliptic⟩, .inl rfl⟩,
      List.nodup_singleton _⟩
  obtain ⟨r, -, built, -⟩ := acceptable.exists_indexes
  let c : Checker Unit :=
    { suite := .standard, codec := .standard, registry := r, config := {}
      surroundings :=
        { now := fun s => (.epoch, s), cancelled := fun s => (false, s), provider := none } }
  have first : (c.checkOne true (bytes other ++ [0]) leaf ()).outcome =
      .ok ((.malformedSct, none), ()) := by
    obtain ⟨code, decoded, _, ended, -, malformed, untouched, -⟩ :=
      c.checkOne_classifies built true (bytes other ++ [0]) leaf ()
    have unread : Sct.decodeWhole (bytes other ++ [0]) = .error (.trailing 1) := by
      decide +kernel
    obtain rfl : code = .malformedSct := malformed.2 fun sct serialized => by
      rw [Sct.serializes_iff, unread] at serialized
      cases serialized
    cases decoded with
    | none => exact ended
    | some stored => cases untouched rfl default
  have second : (c.checkOne true (bytes other) leaf ()).outcome =
      .ok ((.unknownLog, some (sct other)), ()) := by
    obtain ⟨code, decoded, _, ended, -, -, -, sorts⟩ :=
      c.checkOne_classifies built true (bytes other) leaf ()
    have sorted := sorts (sct other) (Sct.serializes_iff.2 (by decide +kernel))
    have unlisted : (c.suite.digest l.key).bytes ≠ (sct other).logId := by
      change (Suite.standard.digest l.key).bytes ≠ other
      rw [id]
      decide +kernel
    obtain rfl : code = .unknownLog :=
      sorted.unknownLog_iff.2 (List.forall_mem_singleton.2 unlisted)
    obtain ⟨rfl, -⟩ := sorted.unnamed rfl
    exact ended
  have third : (c.checkOne true (bytes own) leaf ()).outcome =
      .ok ((.signatureMismatch, some { sct own with logDescription := "only" }), ()) := by
    obtain ⟨code, decoded, _, ended, -, -, -, sorts⟩ :=
      c.checkOne_classifies built true (bytes own) leaf ()
    have sorted := sorts (sct own) (Sct.serializes_iff.2 (by decide +kernel))
    have listed : l ∈ [l] := List.mem_singleton_self l
    obtain ⟨_, read, mismatch⟩ := sorted.signatureMismatch_iff l listed id
    obtain rfl := (Prod.mk.inj (Option.some.inj (SubjectKey.readKey_small.symm.trans read))).1
    obtain rfl : code = .signatureMismatch := mismatch.2 (.inl fun ⟨_, signs⟩ => nomatch signs)
    obtain rfl := sorted.named l listed id
    exact ended
  exact ⟨c, rfl, built, first, second, third⟩

end Checker

end Transparency
