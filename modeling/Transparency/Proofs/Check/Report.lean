import Transparency.Certificate.Codec
import Transparency.Check.Report
import Transparency.Key.Reader
import Transparency.Proofs.Check.Settlement

/-!
# Reports

A report says the same as the result of the check that it tells of. Its parts agree with each other
whatever is searched and whatever a provider does, and nothing in it is left from the check before.
-/
namespace Transparency

/-- The report of a result. -/
def Report.ofResult (r : CheckResult) : Report where
  code := r.code
  origin := r.origin
  outcomes := r.outcomes
  verified := r.verified.isSome
  sct := r.verified.getD {}

namespace Checker

variable {σ : Type} {c : Checker σ} {watched : Bool} {origin : Origin} {s t : σ}
  {chain scts : List Bytes} {sources : List (Origin × List Bytes)} {code : ResultCode}
  {report : Report}

/-! ## Reports and results -/

theorem reportSources_eq (chain : List Bytes) (sources : List (Origin × List Bytes))
    (places : ∀ source ∈ sources, source.1 ≠ .unspecified) (result : CheckResult)
    (unverified : result.verified = none) :
    c.reportSources watched chain (.ofResult result) sources =
      (fun r => (r.code, Report.ofResult r)) <$>
        c.checkSources watched chain result sources := by
  induction sources generalizing result with
  | nil =>
    unfold reportSources checkSources
    rw [map_bind]
    rfl
  | cons source sources ih =>
    obtain ⟨origin, scts⟩ := source
    obtain ⟨place, places⟩ := List.forall_mem_cons.1 places
    funext s
    obtain ⟨es, code, sct, t, runs, settles⟩ :=
      c.exists_settles watched place chain scts s
    unfold reportSources checkSources
    rw [map_bind]
    refine Check.bind_congr_of_ends runs.outcome ?_
    by_cases accepted : code = .ok
    · obtain ⟨read, rfl, -⟩ := settles.good accepted
      subst accepted
      simp only [if_true, map_bind]
      rfl
    · obtain ⟨rfl, -⟩ := settles.bad accepted
      let outcomes := result.outcomes ++ [⟨origin, code, scts.length⟩]
      have entry : ((Report.ofResult result).put none).add ⟨origin, code, scts.length⟩ =
          .ofResult { code, origin, outcomes } := by
        simp [Report.ofResult, Report.put, Report.add, unverified, outcomes]
      simp only [if_neg accepted, entry]
      rw [ih places _ rfl]

theorem reportEvidence_eq (c : Checker σ) (watched : Bool) (chain tls embedded ocsp : List Bytes)
    (prior : Report) :
    c.reportEvidence watched chain tls embedded ocsp prior =
      (fun r => (r.code, Report.ofResult r)) <$>
        c.checkEvidence watched chain tls embedded ocsp := by
  unfold reportEvidence checkEvidence
  split
  · rfl
  · exact reportSources_eq chain _ (by simp) {} rfl

/-- What a check puts into a report is the result of the check. -/
theorem reportState_eq (c : Checker σ) (watched : Bool) (state : Option ConnectionState)
    (prior : Report) :
    c.reportState watched prior state =
      (fun r => (r.code, Report.ofResult r)) <$> c.checkState watched state := by
  cases state with
  | none => rfl
  | some state =>
    obtain ⟨certificates, tls, ocsp⟩ := state
    cases certificates with
    | nil => rfl
    | cons certificate chain =>
      unfold reportState checkState
      simp only [reportEvidence_eq]
      cases c.codec.embeddedScts certificate with
      | error fault => simp only [map_bind]
      | ok scts => rfl

/-! ## Consistency -/

/-- Codes of the first places of a list, each searched in the state that the places before it
left. -/
inductive Explained (c : Checker σ) (watched : Bool) (chain : List Bytes) :
    σ → List (Origin × List Bytes) → List ResultCode → Prop
  | nil {s : σ} {sources : List (Origin × List Bytes)} : Explained c watched chain s sources []
  | cons {s : σ} {origin : Origin} {scts : List Bytes} {sources : List (Origin × List Bytes)}
      {code : ResultCode} {codes : List ResultCode}
      (first : c.Explains watched chain s origin scts code)
      (rest : Explained c watched chain (c.afterPlace watched chain s origin scts) sources codes) :
      Explained c watched chain s ((origin, scts) :: sources) (code :: codes)

/-- What holds of the report of a search through `sources` that began in the state `s` and came to
`code`. -/
structure Consistent (c : Checker σ) (watched : Bool) (chain : List Bytes) (s : σ)
    (sources : List (Origin × List Bytes)) (code : ResultCode) (report : Report) : Prop where
  searched : report.outcomes ≠ []
  /-- The outcomes are of the first places, in order, and count their timestamps. -/
  places : report.outcomes.map (fun o => (o.origin, o.count)) <+:
    sources.map fun (origin, scts) => (origin, scts.length)
  explained : c.Explained watched chain s sources (report.outcomes.map (·.code))
  failed : ∀ outcome ∈ report.outcomes.dropLast, outcome.code ≠ .ok
  decided : ∀ outcome ∈ report.outcomes.getLast?,
    code = outcome.code ∧ report.code = outcome.code ∧ report.origin = outcome.origin
  verified_iff : report.verified = true ↔ report.code = .ok
  accepted : report.code = .ok → report.sct.origin = report.origin ∧
    ∃ log, c.registry.find? report.sct.logId = some log ∧
      report.sct.logDescription = log.description
  /-- The good timestamp is from the place that decided. -/
  reads : report.code = .ok → ∃ scts, (report.origin, scts) ∈ sources ∧
    c.Reads report.origin scts report.sct
  exhausted : report.code ≠ .ok → report.sct = {} ∧ report.outcomes.length = sources.length

theorem consistent_of_accepted {sct : Sct} (explains : c.Explains watched chain s origin scts .ok)
    (reads : c.Reads origin scts sct) :
    c.Consistent watched chain s ((origin, scts) :: sources) .ok
      { code := .ok, origin, outcomes := [⟨origin, .ok, scts.length⟩], verified := true, sct } := by
  constructor
  case searched => simp
  case places => simp
  case explained => exact .cons explains .nil
  case failed => simp
  case decided => simp
  case verified_iff => simp
  case accepted =>
    intro _
    obtain ⟨_, -, _, log, -, known, rfl⟩ := reads
    exact ⟨rfl, log, known, rfl⟩
  case reads =>
    intro _
    exact ⟨scts, List.mem_cons_self, reads⟩
  case exhausted => simp

theorem consistent_of_rejected (explains : c.Explains watched chain s origin scts code)
    (rejected : code ≠ .ok) :
    c.Consistent watched chain s [(origin, scts)] code
      { code, origin, outcomes := [⟨origin, code, scts.length⟩] } := by
  constructor
  case searched => simp
  case places => simp
  case explained => exact .cons explains .nil
  case failed => simp
  case decided => simp
  case verified_iff => simp [rejected]
  case accepted => simp [rejected]
  case reads => simp [rejected]
  case exhausted => simp

theorem Consistent.cons {code' : ResultCode}
    (consistent : c.Consistent watched chain (c.afterPlace watched chain s origin scts) sources
      code' report)
    (explains : c.Explains watched chain s origin scts code) (rejected : code ≠ .ok) :
    c.Consistent watched chain s ((origin, scts) :: sources) code'
      { report with outcomes := ⟨origin, code, scts.length⟩ :: report.outcomes } := by
  constructor
  case searched => simp
  case places => simpa using consistent.places
  case explained => exact .cons explains consistent.explained
  case failed =>
    rw [List.dropLast_cons_of_ne_nil consistent.searched]
    exact List.forall_mem_cons.2 ⟨rejected, consistent.failed⟩
  case decided =>
    rw [List.getLast?_cons_of_ne_nil consistent.searched]
    exact consistent.decided
  case verified_iff => exact consistent.verified_iff
  case accepted => exact consistent.accepted
  case reads =>
    intro good
    obtain ⟨scts', member, reads⟩ := consistent.reads good
    exact ⟨scts', List.mem_cons_of_mem _ member, reads⟩
  case exhausted =>
    intro failed
    obtain ⟨blank, all⟩ := consistent.exhausted failed
    exact ⟨blank, by simp [all]⟩

theorem exists_consistent_of_accepted {es : List Exchange} {sct : Option Sct} {prior : Report}
    (runs : Check.Runs c.surroundings watched (c.checkSource watched origin chain scts) s es
      (.ok, sct) t)
    (settles : c.Settles watched chain s origin scts .ok sct t) :
    ∃ report,
      Check.Runs c.surroundings watched
          (c.reportSources watched chain prior ((origin, scts) :: sources)) s es
          (.ok, { report with outcomes := prior.outcomes ++ report.outcomes }) t ∧
        c.Consistent watched chain s ((origin, scts) :: sources) .ok report := by
  obtain ⟨read, rfl, reads⟩ := settles.good rfl
  refine ⟨_, runs.bind_last ?_, consistent_of_accepted settles.explains reads⟩
  exact (Check.runs_tellLazily _).bind_quiet (Check.runs_pure _)

/-- A search from a blank report. What is found is put down after the outcomes so far. -/
theorem exists_consistent (c : Checker σ) (watched : Bool) (chain : List Bytes)
    (source : Origin × List Bytes) (sources : List (Origin × List Bytes))
    (places : ∀ place ∈ source :: sources, place.1 ≠ .unspecified) (s : σ) (prior : Report)
    (unverified : prior.verified = false) (blank : prior.sct = {}) :
    ∃ es code report t,
      Check.Runs c.surroundings watched (c.reportSources watched chain prior (source :: sources)) s
          es (code, { report with outcomes := prior.outcomes ++ report.outcomes }) t ∧
        c.Consistent watched chain s (source :: sources) code report := by
  induction sources generalizing source s prior with
  | nil =>
    obtain ⟨origin, scts⟩ := source
    obtain ⟨place, -⟩ := List.forall_mem_cons.1 places
    obtain ⟨es, code, sct, t, runs, settles⟩ := c.exists_settles watched place chain scts s
    by_cases accepted : code = .ok
    · subst accepted
      obtain ⟨report, runs, consistent⟩ := exists_consistent_of_accepted runs settles
      exact ⟨es, .ok, report, t, runs, consistent⟩
    · obtain ⟨rfl, -⟩ := settles.bad accepted
      refine ⟨es, code, _, t, runs.bind_last ?_, consistent_of_rejected settles.explains accepted⟩
      have entry : (prior.put none).add ⟨origin, code, scts.length⟩ =
          { code, origin, outcomes := prior.outcomes ++ [⟨origin, code, scts.length⟩] } := by
        simp [Report.put, Report.add, unverified, blank]
      simp only [if_neg accepted, entry]
      exact (Check.runs_tellLazily _).bind_quiet (Check.runs_pure _)
  | cons next sources ih =>
    obtain ⟨origin, scts⟩ := source
    obtain ⟨place, places⟩ := List.forall_mem_cons.1 places
    obtain ⟨es, code, sct, t, runs, settles⟩ := c.exists_settles watched place chain scts s
    by_cases accepted : code = .ok
    · subst accepted
      obtain ⟨report, runs, consistent⟩ := exists_consistent_of_accepted runs settles
      exact ⟨es, .ok, report, t, runs, consistent⟩
    · obtain ⟨rfl, rfl⟩ := settles.bad accepted
      obtain ⟨es', code', report, v, rest, consistent⟩ :=
        ih next places _ (prior.add ⟨origin, code, scts.length⟩) unverified blank
      refine ⟨es ++ es', code', _, v, runs.bind ?_, consistent.cons settles.explains accepted⟩
      simpa [Report.put, Report.add, accepted] using rest

/-- Whatever the report told before and whatever a provider answers, after the check of a chain the
parts of the report agree. -/
theorem reportEvidence_consistent (c : Checker σ) (watched : Bool) {chain : List Bytes}
    (presented : chain ≠ []) (tls embedded ocsp : List Bytes) (prior : Report) (s : σ) :
    ∃ es code report t,
      Check.Runs c.surroundings watched (c.reportEvidence watched chain tls embedded ocsp prior) s
          es (code, report) t ∧
        c.Consistent watched chain s
          [(.tlsExtension, tls), (.embedded, embedded), (.ocspResponse, ocsp)] code report ∧
          ∀ other, c.reportEvidence watched chain tls embedded ocsp other =
            c.reportEvidence watched chain tls embedded ocsp prior := by
  obtain ⟨es, code, report, t, runs, consistent⟩ :=
    c.exists_consistent watched chain (.tlsExtension, tls)
      [(.embedded, embedded), (.ocspResponse, ocsp)] (by simp) s prior.reset rfl rfl
  refine ⟨es, code, report, t, ?_, consistent, ?_⟩
  · unfold reportEvidence
    rw [if_neg (by simpa using presented)]
    exact runs
  · intro other
    rw [reportEvidence_eq, reportEvidence_eq]

/-- An unreadable timestamp comes with the handshake and a fresh one with the status response. The
report told of a certificate before. -/
theorem reportEvidence_consistent_reused :
    let log : Log :=
      { id := .zero, key := .rsa 0 0, hash := .sha256, scheme := .rsa, description := "reused"
        url := "", mergeDelay := .ofMinutes 1, hash_hashes := rfl }
    let c : Checker Unit :=
      { suite := { Suite.standard with
          digest := fun _ => .zero, verifies := fun _ _ _ _ => true }
        codec := .standard
        registry := ⟨[log], List.pairwise_singleton _ _⟩, config := {}
        surroundings :=
          { now := fun s => (.epoch, s), cancelled := fun s => (false, s)
            provider := some fun _ _ _ => (.unavailable, ()) } }
    let sct : Sct := { logId := log.id.bytes, signature := ⟨.sha256, .rsa, []⟩ }
    let bytes : Bytes := 0 :: sct.logId ++ List.replicate 10 0 ++ [4, 1, 0, 0]
    let prior : Report :=
      { code := .ok, origin := .embedded, verified := true, sct
        outcomes := [⟨.tlsExtension, .unknownLog, 2⟩, ⟨.embedded, .ok, 3⟩] }
    let report : Report :=
      { code := .ok, origin := .ocspResponse, verified := true
        sct := { sct with logDescription := "reused", origin := .ocspResponse }
        outcomes :=
          [⟨.tlsExtension, .malformedSct, 1⟩, ⟨.embedded, .noEvidenceFound, 0⟩,
            ⟨.ocspResponse, .ok, 1⟩] }
    ([[42]] : List Bytes) ≠ [] ∧
      (c.reportEvidence true [[42]] [[7]] [] [bytes] prior ()).outcome = .ok ((.ok, report), ()) ∧
        c.Consistent true [[42]] ()
          [(.tlsExtension, [[7]]), (.embedded, []), (.ocspResponse, [bytes])] .ok report := by
  intro log c sct bytes prior report
  have presented : ([[42]] : List Bytes) ≠ [] := List.cons_ne_nil _ _
  obtain ⟨es, code, report', t, runs, consistent, -⟩ :=
    c.reportEvidence_consistent true presented [[7]] [] [bytes] prior ()
  have ends : (c.reportEvidence true [[42]] [[7]] [] [bytes] prior ()).outcome.toOption =
      some ((.ok, report), ()) := by decide +kernel
  rw [runs.outcome] at ends
  obtain ⟨rfl, rfl⟩ : code = .ok ∧ report' = report :=
    Prod.mk.inj (Prod.mk.inj (Option.some.inj ends)).1
  exact ⟨presented, runs.outcome, consistent⟩

end Checker

end Transparency
