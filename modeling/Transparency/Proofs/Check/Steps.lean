import Transparency.Check.Evidence
import Transparency.Proofs.Check.Outcome

/-!
# The steps of a search

A search goes on after each timestamp that is not good, and after each place without a good one. So
its run is put together from the run of its next step and the run of what is left.
-/
namespace Transparency.Checker

variable {σ : Type} {c : Checker σ} {watched : Bool} {chain scts : List Bytes} {origin : Origin}
  {leaf : Leaf} {bytes : Bytes} {s t v : σ} {es es' : List Exchange} {code : ResultCode}
  {read : Option Sct}

/-! ## Timestamps -/

theorem runs_checkEach_nil (last : ResultCode) :
    Check.Runs c.surroundings watched (c.checkEach watched origin leaf last []) s []
      (last, none) s :=
  Check.runs_pure _

theorem runs_checkEach_of_ok (origin : Origin) (last : ResultCode) (scts : List Bytes)
    (first : Check.Runs c.surroundings watched (c.checkOne watched bytes leaf) s es (.ok, read)
      t) :
    Check.Runs c.surroundings watched (c.checkEach watched origin leaf last (bytes :: scts)) s es
      (.ok, read.map fun sct => { sct with origin }) t := by
  rw [checkEach_cons]
  exact first.bind_last (Check.runs_pure _)

theorem runs_checkEach_of_ne_ok (last : ResultCode) {result : ResultCode × Option Sct}
    (first : Check.Runs c.surroundings watched (c.checkOne watched bytes leaf) s es (code, read)
      t)
    (failed : code ≠ .ok)
    (rest : Check.Runs c.surroundings watched (c.checkEach watched origin leaf code scts) t es'
      result v) :
    Check.Runs c.surroundings watched (c.checkEach watched origin leaf last (bytes :: scts)) s
      (es ++ es') result v := by
  rw [checkEach_cons]
  refine first.bind ?_
  simp only [if_neg failed]
  exact (Check.runs_tellLazily _).bind_quiet rest

/-! ## A place -/

theorem runs_checkSource_nil :
    Check.Runs c.surroundings watched (c.checkSource watched origin chain []) s []
      (.noEvidenceFound, none) s :=
  Check.runs_pure _

theorem runs_checkSource_of_error {fault : Leaf.Fault}
    (built : c.leafFor origin chain = .ok (.error fault)) (some : scts ≠ []) :
    Check.Runs c.surroundings watched (c.checkSource watched origin chain scts) s []
      (.chainBuildFailed, none) s := by
  unfold checkSource
  rw [if_neg (by simpa using some), built]
  exact (Check.runs_ofExcept _).bind_quiet ((Check.runs_tellAll _).bind_quiet
    ((Check.runs_tellLazily _).bind_quiet (Check.runs_pure _)))

theorem runs_checkSource_of_ok {result : ResultCode × Option Sct}
    (built : c.leafFor origin chain = .ok (.ok leaf)) (some : scts ≠ [])
    (each : Check.Runs c.surroundings watched
      (c.checkEach watched origin leaf .noEvidenceFound scts) s es result t) :
    Check.Runs c.surroundings watched (c.checkSource watched origin chain scts) s es result t := by
  unfold checkSource
  rw [if_neg (by simpa using some), built]
  exact (Check.runs_ofExcept _).bind_quiet each

/-! ## Places -/

theorem runs_checkSources_nil (result : CheckResult) :
    Check.Runs c.surroundings watched (c.checkSources watched chain result []) s [] result s :=
  (Check.runs_tellLazily _).bind_quiet (Check.runs_pure _)

theorem runs_checkSources_of_ok (result : CheckResult) (sources : List (Origin × List Bytes))
    (first : Check.Runs c.surroundings watched (c.checkSource watched origin chain scts) s es
      (.ok, read) t) :
    Check.Runs c.surroundings watched
      (c.checkSources watched chain result ((origin, scts) :: sources)) s es
      { code := .ok, origin, outcomes := result.outcomes ++ [⟨origin, .ok, scts.length⟩]
        verified := read } t :=
  first.bind_last ((Check.runs_tellLazily _).bind_quiet (Check.runs_pure _))

theorem runs_checkSources_of_ne_ok {result result' : CheckResult}
    {sources : List (Origin × List Bytes)}
    (first : Check.Runs c.surroundings watched (c.checkSource watched origin chain scts) s es
      (code, read) t)
    (failed : code ≠ .ok)
    (rest : Check.Runs c.surroundings watched
      (c.checkSources watched chain
        { code, origin, outcomes := result.outcomes ++ [⟨origin, code, scts.length⟩] } sources)
      t es' result' v) :
    Check.Runs c.surroundings watched
      (c.checkSources watched chain result ((origin, scts) :: sources)) s (es ++ es') result'
      v := by
  refine first.bind ?_
  simpa [failed] using rest

end Transparency.Checker
