import Transparency.Proofs.Check.Steps

/-!
# What a place comes to

A place without timestamps is settled at once, and so is one whose leaf cannot be built. Anywhere
else the timestamps are checked in order, each in the state that the one before it left, until one
is good; if none is, the last one decides.
-/
namespace Transparency

namespace ResultCode

/-- What the check of one timestamp may end with. -/
def ofTimestamp : List ResultCode :=
  [ok, malformedSct, unknownLog, signatureMismatch, inclusionFailedStale, invalidTimestamp]

theorem of_mem_ofTimestamp : ∀ code ∈ ofTimestamp, code ≠ noEvidenceFound ∧
    code ≠ chainBuildFailed ∧ (code ≠ ok → isEvidenceFailure code.toInt = true) := by
  decide

end ResultCode

namespace Checker

variable {σ : Type} {c : Checker σ} {watched : Bool} {origin : Origin} {leaf : Leaf} {s t v : σ}
  {chain scts : List Bytes} {bytes : Bytes} {last code code' : ResultCode} {sct read : Option Sct}

/-! ## One timestamp -/

theorem judgement_mem (log : Log) (sct : Sct) (leaf : Leaf) (s : σ) :
    (c.judgement watched log sct leaf s).1 ∈ ResultCode.ofTimestamp := by
  unfold judgement
  dsimp only
  split
  · dsimp only
    decide
  · dsimp only
    split <;> decide

theorem verdict_mem (c : Checker σ) (watched : Bool) (bytes : Bytes) (leaf : Leaf) (s : σ) :
    (c.verdict watched bytes leaf s).1.1 ∈ ResultCode.ofTimestamp := by
  unfold verdict
  cases Sct.decodeWhole bytes with
  | error fault =>
    dsimp only
    decide
  | ok sct =>
    dsimp only
    cases c.registry.find? sct.logId with
    | none =>
      dsimp only
      decide
    | some log =>
      unfold knownVerdict
      dsimp only
      split
      · exact judgement_mem log _ leaf s
      · dsimp only
        decide

/-! ## Timestamps in order -/

/-- The state after timestamps were checked in order. -/
def after (c : Checker σ) (watched : Bool) (leaf : Leaf) (s : σ) (scts : List Bytes) : σ :=
  scts.foldl (fun s bytes => (c.verdict watched bytes leaf s).2) s

theorem after_cons (found : c.verdict watched bytes leaf s = ((code, read), t))
    (scts : List Bytes) :
    c.after watched leaf s (bytes :: scts) = c.after watched leaf t scts := by
  rw [after, List.foldl_cons, found, after]

theorem after_concat (before : List Bytes) (bytes : Bytes) :
    c.after watched leaf s (before ++ [bytes]) =
      (c.verdict watched bytes leaf (c.after watched leaf s before)).2 := by
  simp [after]

/-- Whether one of some timestamps is good in the state that those before it leave. -/
def SomeGood (c : Checker σ) (watched : Bool) (leaf : Leaf) (s : σ) (scts : List Bytes) : Prop :=
  ∃ before bytes later sct t, scts = before ++ bytes :: later ∧
    (c.checkOne watched bytes leaf (c.after watched leaf s before)).outcome = .ok ((.ok, sct), t)

theorem not_someGood_nil : ¬ c.SomeGood watched leaf s [] := by
  rintro ⟨before, bytes, later, _, _, split, -⟩
  simp at split

theorem someGood_cons_iff (found : c.verdict watched bytes leaf s = ((code, read), t)) :
    c.SomeGood watched leaf s (bytes :: scts) ↔ code = .ok ∨ c.SomeGood watched leaf t scts := by
  constructor
  · rintro ⟨before, bytes', later, sct, v, split, good⟩
    cases before with
    | nil =>
      obtain ⟨rfl, rfl⟩ := List.cons.inj split
      rw [outcome_checkOne] at good
      exact .inl (Prod.mk.inj (Prod.mk.inj (found.symm.trans (Except.ok.inj good))).1).1
    | cons first before =>
      obtain ⟨rfl, rfl⟩ := List.cons.inj split
      rw [after_cons found] at good
      exact .inr ⟨before, bytes', later, sct, v, rfl, good⟩
  · rintro (rfl | ⟨before, bytes', later, sct, v, rfl, good⟩)
    · refine ⟨[], bytes, scts, read, t, rfl, ?_⟩
      rw [outcome_checkOne]
      exact congrArg Except.ok found
    · refine ⟨bytes :: before, bytes', later, sct, v, rfl, ?_⟩
      rwa [after_cons found]

/-- Whether `sct` is read from one of the timestamps of a place and bears the name of its log. -/
def Reads (c : Checker σ) (origin : Origin) (scts : List Bytes) (sct : Sct) : Prop :=
  ∃ bytes ∈ scts, ∃ decoded log, Sct.decodeWhole bytes = .ok decoded ∧
    c.registry.find? decoded.logId = some log ∧
      sct = { decoded with logDescription := log.description, origin }

theorem Reads.cons {sct : Sct} (reads : c.Reads origin scts sct) (bytes : Bytes) :
    c.Reads origin (bytes :: scts) sct := by
  obtain ⟨bytes', member, reads⟩ := reads
  exact ⟨bytes', List.mem_cons_of_mem bytes member, reads⟩

/-- What timestamps come to that are checked in order from `s`, where `last` is the code before
them. -/
inductive Decides (c : Checker σ) (watched : Bool) (origin : Origin) (leaf : Leaf)
    (last : ResultCode) (s : σ) (scts : List Bytes) : ResultCode → Option Sct → σ → Prop
  | nothing (empty : scts = []) : Decides c watched origin leaf last s scts last none s
  | good {sct : Sct} {t : σ} (good : c.SomeGood watched leaf s scts)
      (reads : c.Reads origin scts sct) :
      Decides c watched origin leaf last s scts .ok (some sct) t
  | bad {before : List Bytes} {bytes : Bytes} {code : ResultCode} {read : Option Sct} {t : σ}
      (ends : scts = before ++ [bytes])
      (found : c.verdict watched bytes leaf (c.after watched leaf s before) = ((code, read), t))
      (failed : code ≠ .ok) (bad : ¬ c.SomeGood watched leaf s scts) :
      Decides c watched origin leaf last s scts code none t

theorem Decides.cons (found : c.verdict watched bytes leaf s = ((code, read), t))
    (failed : code ≠ .ok) (decides : c.Decides watched origin leaf code t scts code' sct v) :
    c.Decides watched origin leaf last s (bytes :: scts) code' sct v := by
  have later_iff : c.SomeGood watched leaf s (bytes :: scts) ↔ c.SomeGood watched leaf t scts := by
    rw [someGood_cons_iff found, or_iff_right failed]
  cases decides with
  | nothing empty =>
    subst empty
    exact .bad (List.nil_append _).symm found failed fun good =>
      not_someGood_nil (later_iff.1 good)
  | good good reads => exact .good (later_iff.2 good) (reads.cons bytes)
  | @bad before final _ read' _ ends found' failed' bad =>
    rw [← after_cons found] at found'
    exact .bad (congrArg (bytes :: ·) ends) found' failed' fun good => bad (later_iff.1 good)

theorem exists_reads (origin : Origin) (scts : List Bytes)
    (found : c.verdict watched bytes leaf s = ((.ok, read), t)) :
    ∃ sct, read.map (fun sct => { sct with origin }) = some sct ∧
      c.Reads origin (bytes :: scts) sct := by
  obtain ⟨sct, log, decoded, known, rfl, -⟩ := verdict_eq_ok found
  exact ⟨_, rfl, bytes, List.mem_cons_self, sct, log, decoded, known, rfl⟩

theorem exists_decides (scts : List Bytes) (last : ResultCode) (s : σ) :
    ∃ es code sct t,
      Check.Runs c.surroundings watched (c.checkEach watched origin leaf last scts) s es
          (code, sct) t ∧
        c.Decides watched origin leaf last s scts code sct t := by
  induction scts generalizing last s with
  | nil => exact ⟨[], last, none, s, runs_checkEach_nil last, .nothing rfl⟩
  | cons bytes scts ih =>
    have first := c.runs_checkOne watched bytes leaf s
    obtain ⟨code, read, t, found⟩ :
        ∃ code read t, c.verdict watched bytes leaf s = ((code, read), t) := ⟨_, _, _, rfl⟩
    rw [found] at first
    by_cases accepted : code = .ok
    · subst accepted
      obtain ⟨sct, placed, reads⟩ := exists_reads origin scts found
      have good : c.SomeGood watched leaf s (bytes :: scts) :=
        (someGood_cons_iff found).2 (.inl rfl)
      have runs := runs_checkEach_of_ok origin last scts first
      rw [placed] at runs
      exact ⟨_, .ok, some sct, t, runs, .good good reads⟩
    · obtain ⟨es, code', sct, v, rest, decides⟩ := ih code t
      exact ⟨_, code', sct, v, runs_checkEach_of_ne_ok last first accepted rest,
        decides.cons found accepted⟩

/-! ## One place -/

/-- The state after all timestamps of a place were checked. -/
def afterPlace (c : Checker σ) (watched : Bool) (chain : List Bytes) (s : σ) (origin : Origin)
    (scts : List Bytes) : σ :=
  match c.leafFor origin chain with
  | .ok (.ok leaf) => c.after watched leaf s scts
  | _ => s

/-- Whether a code accounts for what the search of a place found, which began in the state `s`. -/
structure Explains (c : Checker σ) (watched : Bool) (chain : List Bytes) (s : σ) (origin : Origin)
    (scts : List Bytes) (code : ResultCode) : Prop where
  ok_iff : code = .ok ↔
    ∃ leaf, c.leafFor origin chain = .ok (.ok leaf) ∧ c.SomeGood watched leaf s scts
  noEvidenceFound_iff : code = .noEvidenceFound ↔ scts = []
  chainBuildFailed_iff : code = .chainBuildFailed ↔
    scts ≠ [] ∧ ∀ leaf, c.leafFor origin chain ≠ .ok (.ok leaf)
  /-- Any other failure is that of the last timestamp, after those before it were checked. -/
  last : ∀ leaf, c.leafFor origin chain = .ok (.ok leaf) → scts ≠ [] → code ≠ .ok →
    ∃ before bytes read t, scts = before ++ [bytes] ∧
      (c.checkOne watched bytes leaf (c.after watched leaf s before)).outcome =
        .ok ((code, read), t)
  isEvidenceFailure : code ≠ .ok → ResultCode.isEvidenceFailure code.toInt = true

/-- What the search of a place comes to. -/
structure Settles (c : Checker σ) (watched : Bool) (chain : List Bytes) (s : σ) (origin : Origin)
    (scts : List Bytes) (code : ResultCode) (sct : Option Sct) (t : σ) : Prop where
  explains : c.Explains watched chain s origin scts code
  good : code = .ok → ∃ read, sct = some read ∧ c.Reads origin scts read
  bad : code ≠ .ok → sct = none ∧ t = c.afterPlace watched chain s origin scts

theorem settles_of_nil :
    c.Settles watched chain s origin [] .noEvidenceFound none s where
  explains :=
    { ok_iff := by simp [not_someGood_nil]
      noEvidenceFound_iff := by simp
      chainBuildFailed_iff := by simp
      last := by simp
      isEvidenceFailure := by decide }
  good := by simp
  bad := by
    intro _
    refine ⟨rfl, ?_⟩
    unfold afterPlace
    split <;> rfl

theorem settles_of_error {fault : Leaf.Fault} (built : c.leafFor origin chain = .ok (.error fault))
    (some : scts ≠ []) : c.Settles watched chain s origin scts .chainBuildFailed none s where
  explains :=
    { ok_iff := by simp [built]
      noEvidenceFound_iff := by simp [some]
      chainBuildFailed_iff := by simp [some, built]
      last := by simp [built]
      isEvidenceFailure := by decide }
  good := by simp
  bad := by simp [afterPlace, built]

theorem explains_of_mem (built : c.leafFor origin chain = .ok (.ok leaf)) (some : scts ≠ [])
    (mem : code ∈ ResultCode.ofTimestamp)
    (ok_iff : code = .ok ↔ c.SomeGood watched leaf s scts)
    (last : code ≠ .ok → ∃ before bytes read t, scts = before ++ [bytes] ∧
      c.verdict watched bytes leaf (c.after watched leaf s before) = ((code, read), t)) :
    c.Explains watched chain s origin scts code := by
  obtain ⟨notMissing, notUnbuilt, failure⟩ := ResultCode.of_mem_ofTimestamp code mem
  constructor
  case ok_iff => simp [built, ok_iff]
  case noEvidenceFound_iff => exact iff_of_false notMissing some
  case chainBuildFailed_iff => exact iff_of_false notUnbuilt fun ⟨_, unbuilt⟩ => unbuilt leaf built
  case last =>
    intro leaf' built' _ failed
    obtain rfl : leaf = leaf' := by simpa [built] using built'
    obtain ⟨before, bytes, read, t, ends, found⟩ := last failed
    exact ⟨before, bytes, read, t, ends, by rw [outcome_checkOne, found]⟩
  case isEvidenceFailure => exact failure

theorem Decides.settles (built : c.leafFor origin chain = .ok (.ok leaf)) (some : scts ≠ [])
    (decides : c.Decides watched origin leaf last s scts code sct t) :
    c.Settles watched chain s origin scts code sct t := by
  cases decides with
  | nothing empty => exact absurd empty some
  | @good sct _ good reads =>
    have mem : ResultCode.ok ∈ ResultCode.ofTimestamp := by decide
    refine ⟨explains_of_mem built some mem (iff_of_true rfl good) (by simp), ?_, by simp⟩
    intro _
    exact ⟨sct, rfl, reads⟩
  | @bad before bytes _ read _ ends found failed bad =>
    have mem : code ∈ ResultCode.ofTimestamp := by
      have verdict := c.verdict_mem watched bytes leaf (c.after watched leaf s before)
      rwa [found] at verdict
    refine ⟨explains_of_mem built some mem (iff_of_false failed bad) ?_, by simp [failed], ?_⟩
    · intro _
      exact ⟨before, bytes, read, t, ends, found⟩
    · intro _
      refine ⟨rfl, ?_⟩
      simp only [afterPlace, built]
      rw [ends, after_concat, found]

theorem exists_settles (c : Checker σ) (watched : Bool) {origin : Origin}
    (place : origin ≠ .unspecified) (chain scts : List Bytes) (s : σ) :
    ∃ es code sct t,
      Check.Runs c.surroundings watched (c.checkSource watched origin chain scts) s es
          (code, sct) t ∧
        c.Settles watched chain s origin scts code sct t := by
  by_cases empty : scts = []
  · subst empty
    exact ⟨[], .noEvidenceFound, none, s, runs_checkSource_nil, settles_of_nil⟩
  · obtain ⟨leaf?, built⟩ := c.exists_leafFor place chain
    cases leaf? with
    | error fault =>
      exact ⟨[], .chainBuildFailed, none, s, runs_checkSource_of_error built empty,
        settles_of_error built empty⟩
    | ok leaf =>
      obtain ⟨es, code, sct, t, each, decides⟩ := exists_decides scts .noEvidenceFound s
      exact ⟨es, code, sct, t, runs_checkSource_of_ok built empty each,
        decides.settles built empty⟩

end Checker

end Transparency
