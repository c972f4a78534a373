import Transparency.Check.Evidence
import Transparency.Proofs.Check.Steady

/-!
# The search for a good timestamp

The places are searched one after another, each up to its first good timestamp. In steady
surroundings that comes to one search through all of them.
-/
namespace Transparency

namespace Checker

variable {σ : Type} {c : Checker σ} {chain : List Bytes} {s : σ}

/-! ## What is sought -/

/-- Whether a timestamp is good for the leaf of its place. -/
def good (c : Checker σ) (chain : List Bytes) (s : σ) : Origin × Bytes → Bool
  | (origin, bytes) =>
    match c.leafFor origin chain with
    | .ok (.ok leaf) => (c.verdict false bytes leaf s).1.1 = .ok
    | _ => false

/-- A timestamp with its place and the name of its log, if it can be read and its log is known. -/
def reading (c : Checker σ) : Origin × Bytes → Option Sct
  | (origin, bytes) =>
    match Sct.decodeWhole bytes with
    | .ok sct =>
      (c.registry.find? sct.logId).map fun log =>
        { sct with logDescription := log.description, origin }
    | .error _ => none

/-- A code and a timestamp that a search of `offers` may end with. -/
structure Finds (c : Checker σ) (chain : List Bytes) (s : σ) (offers : List (Origin × Bytes))
    (code : ResultCode) (sct : Option Sct) : Prop where
  code_eq_ok_iff : code = .ok ↔ ∃ offer ∈ offers, c.good chain s offer = true
  sct_eq : sct = (offers.find? (c.good chain s)).bind c.reading

namespace Finds

variable {offers later : List (Origin × Bytes)} {code code' : ResultCode} {sct sct' : Option Sct}

theorem of_forall_not_good (failed : code ≠ .ok)
    (bad : ∀ offer ∈ offers, c.good chain s offer = false) : c.Finds chain s offers code none where
  code_eq_ok_iff := by grind
  sct_eq := by rw [List.find?_eq_none.2 (by simpa using bad)]; rfl

theorem exists_first (found : c.Finds chain s offers .ok sct) :
    ∃ offer, offers.find? (c.good chain s) = some offer ∧ c.good chain s offer = true ∧
      sct = c.reading offer := by
  have search := List.find?_isSome.2 (found.code_eq_ok_iff.1 rfl)
  obtain ⟨offer, first⟩ := Option.isSome_iff_exists.1 search
  exact ⟨offer, first, List.find?_some first, by rw [found.sct_eq, first, Option.bind_some]⟩

theorem append_of_ok (found : c.Finds chain s offers .ok sct) :
    c.Finds chain s (offers ++ later) .ok sct := by
  obtain ⟨offer, first, good, reading⟩ := found.exists_first
  have member := List.mem_append_left later (List.mem_of_find?_eq_some first)
  refine ⟨iff_of_true rfl ⟨offer, member, good⟩, ?_⟩
  rw [List.find?_append, first, Option.some_or, Option.bind_some, reading]

theorem append_of_ne_ok (first : c.Finds chain s offers code sct) (failed : code ≠ .ok)
    (rest : c.Finds chain s later code' sct') : c.Finds chain s (offers ++ later) code' sct' := by
  have bad : ∀ offer ∈ offers, c.good chain s offer ≠ true := fun offer member good =>
    failed (first.code_eq_ok_iff.2 ⟨offer, member, good⟩)
  constructor
  · rw [rest.code_eq_ok_iff]
    grind
  · rw [List.find?_append, List.find?_eq_none.2 bad, Option.none_or, rest.sct_eq]

end Finds

/-! ## One place -/

theorem reading_of_verdict {origin : Origin} {bytes : Bytes} {leaf : Leaf} {decoded : Option Sct}
    (accepted : (c.verdict false bytes leaf s).1 = (.ok, decoded)) :
    decoded.map (fun sct => { sct with origin }) = c.reading (origin, bytes) := by
  obtain ⟨sct, log, read, known, rfl, -⟩ := verdict_eq_ok (Prod.ext accepted rfl)
  simp [reading, read, known]

theorem exists_checkEach (steady : c.surroundings.Steady) {origin : Origin} {leaf : Leaf}
    (built : c.leafFor origin chain = .ok (.ok leaf)) (scts : List Bytes) {last : ResultCode}
    (failed : last ≠ .ok) :
    ∃ code sct, Check.Returns (c.During s) (c.checkEach false origin leaf last scts) (code, sct) ∧
      c.Finds chain s (scts.map (origin, ·)) code sct := by
  induction scts generalizing last with
  | nil => exact ⟨last, none, Check.returns_pure _, .of_forall_not_good failed (by simp)⟩
  | cons bytes scts ih =>
    rw [checkEach_cons]
    have first := returns_checkOne steady bytes leaf s
    obtain ⟨code, decoded, verdict⟩ :
        ∃ code decoded, (c.verdict false bytes leaf s).1 = (code, decoded) := ⟨_, _, rfl⟩
    have good : c.good chain s (origin, bytes) = decide (code = .ok) := by
      simp [Checker.good, built, verdict]
    rw [verdict] at first
    by_cases accepted : code = .ok
    · subst accepted
      refine ⟨.ok, c.reading (origin, bytes), ?_, ?_⟩
      · rw [← reading_of_verdict verdict]
        exact first.bind (Check.returns_pure _)
      · have alone : c.Finds chain s [(origin, bytes)] .ok (c.reading (origin, bytes)) :=
          ⟨by simp [good], by simp [good]⟩
        exact alone.append_of_ok
    · obtain ⟨code', sct, rest, found⟩ := ih accepted
      refine ⟨code', sct, first.bind ?_, ?_⟩
      · simp only [if_neg accepted]
        exact (Check.returns_tellLazily _).bind rest
      · have alone : c.Finds chain s [(origin, bytes)] code none :=
          .of_forall_not_good accepted (by simp [good, accepted])
        exact alone.append_of_ne_ok accepted found

theorem exists_checkSource (steady : c.surroundings.Steady) {origin : Origin}
    (place : origin ≠ .unspecified) (chain scts : List Bytes) (s : σ) :
    ∃ code sct, Check.Returns (c.During s) (c.checkSource false origin chain scts) (code, sct) ∧
      c.Finds chain s (scts.map (origin, ·)) code sct := by
  obtain ⟨leaf?, built⟩ := c.exists_leafFor place chain
  unfold checkSource
  split
  · next empty =>
    obtain rfl := List.isEmpty_iff.1 empty
    exact ⟨_, _, Check.returns_pure _, .of_forall_not_good (by decide) (by simp)⟩
  · rw [built]
    cases leaf? with
    | error fault =>
      refine ⟨.chainBuildFailed, none, ?_, .of_forall_not_good (by decide) ?_⟩
      · exact (Check.returns_ofExcept _).bind ((Check.returns_tellAll _).bind
          ((Check.returns_tellLazily _).bind (Check.returns_pure _)))
      · simp [good, built]
    | ok leaf =>
      have none : ResultCode.noEvidenceFound ≠ .ok := by decide
      obtain ⟨code, sct, each, found⟩ := exists_checkEach (s := s) steady built scts none
      exact ⟨code, sct, (Check.returns_ofExcept _).bind each, found⟩

/-! ## All places -/

/-- The timestamps of some places, in the order they are tried. -/
def offers (sources : List (Origin × List Bytes)) : List (Origin × Bytes) :=
  sources.flatMap fun (origin, scts) => scts.map (origin, ·)

theorem exists_checkSources (steady : c.surroundings.Steady) (chain : List Bytes) (s : σ)
    (sources : List (Origin × List Bytes)) (places : ∀ source ∈ sources, source.1 ≠ .unspecified)
    (result : CheckResult) (failed : result.code ≠ .ok) (unverified : result.verified = none) :
    ∃ r, Check.Returns (c.During s) (c.checkSources false chain result sources) r ∧
      c.Finds chain s (offers sources) r.code r.verified := by
  induction sources generalizing result with
  | nil =>
    refine ⟨result, (Check.returns_tellLazily _).bind (Check.returns_pure _), ?_⟩
    rw [unverified]
    exact .of_forall_not_good failed (by simp [offers])
  | cons source sources ih =>
    obtain ⟨origin, scts⟩ := source
    obtain ⟨place, places⟩ := List.forall_mem_cons.1 places
    obtain ⟨code, sct, searched, found⟩ := exists_checkSource steady place chain scts s
    let outcomes := result.outcomes ++ [⟨origin, code, scts.length⟩]
    by_cases accepted : code = .ok
    · subst accepted
      refine ⟨{ code := .ok, origin, outcomes, verified := sct }, searched.bind ?_,
        found.append_of_ok⟩
      exact (Check.returns_tellLazily _).bind (Check.returns_pure _)
    · obtain ⟨r, rest, later⟩ := ih places { code, origin, outcomes } accepted rfl
      refine ⟨r, searched.bind ?_, found.append_of_ne_ok accepted later⟩
      simpa [accepted] using rest

theorem good_of_nil (offer : Origin × Bytes) : c.good [] s offer = false := by
  obtain ⟨origin, sct⟩ := offer
  cases origin <;> rfl

theorem exists_checkEvidence (steady : c.surroundings.Steady) (chain tls embedded ocsp : List Bytes)
    (s : σ) :
    ∃ r, Check.Returns (c.During s) (c.checkEvidence false chain tls embedded ocsp) r ∧
      c.Finds chain s
        (offers [(.tlsExtension, tls), (.embedded, embedded), (.ocspResponse, ocsp)])
        r.code r.verified := by
  unfold checkEvidence
  split
  · next empty =>
    obtain rfl := List.isEmpty_iff.1 empty
    refine ⟨_, Check.returns_pure _, .of_forall_not_good (by decide) fun offer _ => ?_⟩
    exact good_of_nil offer
  · exact exists_checkSources steady chain s _ (by simp) _ (by decide) rfl

/-- The timestamps that the first certificate of a chain carries. -/
def carried (c : Checker σ) : List Bytes → List Bytes
  | [] => []
  | certificate :: _ => (c.codec.embeddedScts certificate).toOption.getD []

/-- The timestamps of a connection with their places, in the order they are tried. -/
def offersOf (c : Checker σ) (state : ConnectionState) : List (Origin × Bytes) :=
  offers [(.tlsExtension, state.tlsScts), (.embedded, c.carried state.certificates),
    (.ocspResponse, state.ocspScts)]

theorem exists_checkState (steady : c.surroundings.Steady) (state : ConnectionState) (s : σ) :
    ∃ r, Check.Returns (c.During s) (c.checkState false (some state)) r ∧
      c.Finds state.certificates s (c.offersOf state) r.code r.verified := by
  obtain ⟨certificates, tls, ocsp⟩ := state
  cases certificates with
  | nil =>
    refine ⟨_, Check.returns_pure _, .of_forall_not_good (by decide) fun offer _ => ?_⟩
    exact good_of_nil offer
  | cons certificate chain =>
    obtain ⟨r, returns, found⟩ := exists_checkEvidence steady (certificate :: chain) tls
      (c.carried (certificate :: chain)) ocsp s
    refine ⟨r, ?_, found⟩
    simp only [checkState]
    simp only [carried] at returns
    cases read : c.codec.embeddedScts certificate with
    | error fault =>
      rw [read] at returns
      exact (Check.returns_tellAll _).bind returns
    | ok scts =>
      rw [read] at returns
      exact returns

end Checker

end Transparency
