import Mathlib.Data.List.Find
import Transparency.Certificate.Codec
import Transparency.Key.Reader
import Transparency.Proofs.Check.Search

/-!
# Whole connections and single timestamps

In steady surroundings the check of a connection agrees with the checks of its timestamps alone. The
order of the timestamps and the place of one that is not embedded are of no account to whether the
connection is good, and further timestamps do no harm.
-/
namespace Transparency

namespace Check

variable {σ : Type} {kept : σ → Prop} {s : σ}

/-- Whether a check made in a state ends with a yes. -/
def affirms (x : Check σ Bool) (s : σ) : Bool :=
  match (x s).outcome with
  | .ok (yes, _) => yes
  | .error _ => false

theorem Returns.affirms {x : Check σ Bool} {yes : Bool} (returns : Returns kept x yes)
    (holds : kept s) : x.affirms s = yes := by
  obtain ⟨t, ends, -⟩ := returns s holds
  rw [Check.affirms, ends]

/-- Whether a check made in a state finds a connection good. -/
def Accepts (x : Check σ CheckResult) (s : σ) : Prop :=
  ∃ r t, (x s).outcome = .ok (r, t) ∧ r.code = .ok

theorem Returns.accepts_iff {x : Check σ CheckResult} {r : CheckResult}
    (returns : Returns kept x r) (holds : kept s) : x.Accepts s ↔ r.code = .ok := by
  obtain ⟨t, ends, -⟩ := returns s holds
  simp [Accepts, ends]

end Check

namespace Checker

variable {σ : Type} {c : Checker σ} {chain : List Bytes} {s : σ}

/-! ## Single timestamps -/

/-- The check of a timestamp alone. -/
def verifies (c : Checker σ) (chain : List Bytes) : Origin × Bytes → Check σ Bool
  | (.tlsExtension, sct) => c.verifiesTls chain sct
  | (.embedded, sct) => c.verifiesEmbedded chain sct
  | (.ocspResponse, sct) => c.verifiesOcsp chain sct
  | (.unspecified, _) => return false

/-- The check of a place with one timestamp. -/
theorem returns_single (steady : c.surroundings.Steady) {origin : Origin}
    (place : origin ≠ .unspecified) (chain : List Bytes) (sct : Bytes) (s : σ) :
    Check.Returns (c.During s)
      (do return (← c.checkSource false origin chain [sct]).1 = .ok : Check σ Bool)
      (c.good chain s (origin, sct)) := by
  obtain ⟨code, _, searched, found⟩ := exists_checkSource steady place chain [sct] s
  have same : c.good chain s (origin, sct) = decide (code = .ok) := by
    simp [found.code_eq_ok_iff]
  rw [same]
  exact searched.bind (Check.returns_pure _)

/-- Whether a timestamp alone is good. If it should be embedded, the certificate must carry some. -/
def goodAlone (c : Checker σ) (chain : List Bytes) (s : σ) (offer : Origin × Bytes) : Bool :=
  (offer.1 ≠ .embedded || !(c.carried chain).isEmpty) && c.good chain s offer

theorem returns_verifiesEmbedded (steady : c.surroundings.Steady) (chain : List Bytes)
    (sct : Bytes) (s : σ) :
    Check.Returns (c.During s) (c.verifiesEmbedded chain sct)
      (c.goodAlone chain s (.embedded, sct)) := by
  match chain with
  | [] => exact Check.returns_pure false
  | certificate :: chain =>
    unfold verifiesEmbedded goodAlone Checker.carried
    dsimp only
    cases c.codec.embeddedScts certificate with
    | error fault => exact (Check.returns_tellAll _).bind (Check.returns_pure false)
    | ok scts =>
      cases scts with
      | nil => exact Check.returns_pure false
      | cons first scts =>
        have place : Origin.embedded ≠ .unspecified := by decide
        exact returns_single steady place (certificate :: chain) sct s

theorem returns_verifies (steady : c.surroundings.Steady) (chain : List Bytes)
    (offer : Origin × Bytes) (s : σ) :
    Check.Returns (c.During s) (c.verifies chain offer) (c.goodAlone chain s offer) := by
  obtain ⟨origin, sct⟩ := offer
  cases origin with
  | tlsExtension => exact returns_single steady (by decide) chain sct s
  | embedded => exact returns_verifiesEmbedded steady chain sct s
  | ocspResponse => exact returns_single steady (by decide) chain sct s
  | unspecified => exact Check.returns_pure false

theorem exists_offers_iff {tls embedded ocsp : List Bytes} {p : Origin × Bytes → Prop} :
    (∃ offer ∈ offers [(.tlsExtension, tls), (.embedded, embedded), (.ocspResponse, ocsp)],
        p offer) ↔
      (∃ sct ∈ tls, p (.tlsExtension, sct)) ∨ (∃ sct ∈ embedded, p (.embedded, sct)) ∨
        ∃ sct ∈ ocsp, p (.ocspResponse, sct) := by
  simp only [offers]
  grind

theorem goodAlone_of_mem_offersOf {state : ConnectionState} {offer : Origin × Bytes}
    (member : offer ∈ c.offersOf state) :
    c.goodAlone state.certificates s offer = c.good state.certificates s offer := by
  have carries : offer.1 = .embedded → c.carried state.certificates ≠ [] := by
    simp only [offersOf, offers] at member
    grind
  unfold goodAlone
  grind [List.isEmpty_iff]

/-! ## Whole connections -/

theorem accepts_checkEvidence_iff (steady : c.surroundings.Steady)
    (chain tls embedded ocsp : List Bytes) (s : σ) :
    (c.checkEvidence false chain tls embedded ocsp).Accepts s ↔
      (∃ sct ∈ tls ++ ocsp, c.good chain s (.tlsExtension, sct) = true) ∨
        ∃ sct ∈ embedded, c.good chain s (.embedded, sct) = true := by
  obtain ⟨r, returns, found⟩ := exists_checkEvidence steady chain tls embedded ocsp s
  -- The certificate that was presented is the leaf of both places.
  have presented : ∀ sct,
      c.good chain s (.ocspResponse, sct) = c.good chain s (.tlsExtension, sct) := fun _ => rfl
  rw [returns.accepts_iff rfl, found.code_eq_ok_iff, exists_offers_iff]
  grind

theorem accepts_checkState_iff (steady : c.surroundings.Steady) (state : ConnectionState) (s : σ) :
    (c.checkState false (some state)).Accepts s ↔
      (c.checkEvidence false state.certificates state.tlsScts (c.carried state.certificates)
        state.ocspScts).Accepts s := by
  obtain ⟨r, returns, found⟩ := exists_checkState steady state s
  obtain ⟨r', returns', found'⟩ := exists_checkEvidence steady state.certificates state.tlsScts
    (c.carried state.certificates) state.ocspScts s
  rw [returns.accepts_iff rfl, returns'.accepts_iff rfl, found.code_eq_ok_iff,
    found'.code_eq_ok_iff]
  rfl

/-- Further timestamps do no harm, nor does moving those that are not embedded. -/
theorem accepts_of_subset (steady : c.surroundings.Steady)
    {tls tls' embedded embedded' ocsp ocsp' : List Bytes}
    (presented : tls ++ ocsp ⊆ tls' ++ ocsp') (carried : embedded ⊆ embedded')
    (accepts : (c.checkEvidence false chain tls embedded ocsp).Accepts s) :
    (c.checkEvidence false chain tls' embedded' ocsp').Accepts s := by
  rw [accepts_checkEvidence_iff steady] at accepts ⊢
  exact accepts.imp (fun ⟨sct, member, good⟩ => ⟨sct, presented member, good⟩)
    (fun ⟨sct, member, good⟩ => ⟨sct, carried member, good⟩)

theorem accepts_iff_of_perm (steady : c.surroundings.Steady)
    {tls tls' embedded embedded' ocsp ocsp' : List Bytes}
    (presented : (tls ++ ocsp).Perm (tls' ++ ocsp')) (carried : embedded.Perm embedded') :
    (c.checkEvidence false chain tls embedded ocsp).Accepts s ↔
      (c.checkEvidence false chain tls' embedded' ocsp').Accepts s :=
  ⟨accepts_of_subset steady presented.subset carried.subset,
    accepts_of_subset steady presented.symm.subset carried.symm.subset⟩

/-- What the check of a connection, made in `s`, has to do with checks of its timestamps alone, made
in `s'`. -/
structure Agrees (c : Checker σ) (state : ConnectionState) (s s' : σ) : Prop where
  ends : ∃ r t, (c.checkState false (some state) s).outcome = .ok (r, t)
  ends_alone : ∀ offer, ∃ yes t, (c.verifies state.certificates offer s').outcome = .ok (yes, t)
  accepts_iff : (c.checkState false (some state)).Accepts s ↔
    (∃ sct ∈ state.tlsScts, (c.verifiesTls state.certificates sct).affirms s' = true) ∨
      (∃ sct ∈ c.carried state.certificates,
        (c.verifiesEmbedded state.certificates sct).affirms s' = true) ∨
        ∃ sct ∈ state.ocspScts, (c.verifiesOcsp state.certificates sct).affirms s' = true
  /-- The timestamp of a good result is the first one that is good alone. -/
  verified : ∀ r t, (c.checkState false (some state) s).outcome = .ok (r, t) → r.code = .ok →
    ∃ offer sct log,
      (c.offersOf state).find? (fun offer => (c.verifies state.certificates offer).affirms s') =
        some offer ∧
        Sct.decodeWhole offer.2 = .ok sct ∧ c.registry.find? sct.logId = some log ∧
          r.verified = some { sct with logDescription := log.description, origin := offer.1 }
  without_certificates : state.certificates = [] →
    ∀ offer, (c.verifies state.certificates offer).affirms s' = false
  rearranged : ∀ tls ocsp, (tls ++ ocsp).Perm (state.tlsScts ++ state.ocspScts) →
    ((c.checkState false (some { state with tlsScts := tls, ocspScts := ocsp })).Accepts s ↔
      (c.checkState false (some state)).Accepts s)
  extended : ∀ tls ocsp, state.tlsScts ++ state.ocspScts ⊆ tls ++ ocsp →
    (c.checkState false (some state)).Accepts s →
      (c.checkState false (some { state with tlsScts := tls, ocspScts := ocsp })).Accepts s
  /-- Embedded timestamps that are given apart from the certificate may be rearranged as well. -/
  evidence_rearranged : ∀ tls embedded ocsp,
    (tls ++ ocsp).Perm (state.tlsScts ++ state.ocspScts) →
      embedded.Perm (c.carried state.certificates) →
        ((c.checkEvidence false state.certificates tls embedded ocsp).Accepts s ↔
          (c.checkState false (some state)).Accepts s)
  evidence_extended : ∀ tls embedded ocsp,
    state.tlsScts ++ state.ocspScts ⊆ tls ++ ocsp → c.carried state.certificates ⊆ embedded →
      (c.checkState false (some state)).Accepts s →
        (c.checkEvidence false state.certificates tls embedded ocsp).Accepts s

theorem reading_of_good {offer : Origin × Bytes} (good : c.good chain s offer = true) :
    ∃ sct log, Sct.decodeWhole offer.2 = .ok sct ∧ c.registry.find? sct.logId = some log ∧
      c.reading offer = some { sct with logDescription := log.description, origin := offer.1 } := by
  obtain ⟨origin, bytes⟩ := offer
  simp only [Checker.good] at good
  split at good
  · have code := of_decide_eq_true good
    obtain ⟨sct, log, read, known, -, -⟩ := verdict_eq_ok (Prod.ext (Prod.ext code rfl) rfl)
    exact ⟨sct, log, read, known, by simp [reading, read, known]⟩
  · cases good

/-- In steady surroundings a connection is good just if one of its timestamps is good alone. -/
theorem checkState_agrees (steady : c.surroundings.Steady) (state : ConnectionState) {s s' : σ}
    (time : (c.surroundings.now s').1 = (c.surroundings.now s).1) : c.Agrees state s s' := by
  obtain ⟨r, returns, found⟩ := exists_checkState steady state s
  obtain ⟨t, ends, -⟩ := returns s rfl
  have alone : ∀ offer, (c.verifies state.certificates offer).affirms s' =
      c.goodAlone state.certificates s offer := fun offer =>
    (returns_verifies steady state.certificates offer s).affirms time
  have good : ∀ offer ∈ c.offersOf state, (c.verifies state.certificates offer).affirms s' =
      c.good state.certificates s offer := fun offer member =>
    (alone offer).trans (goodAlone_of_mem_offersOf member)
  constructor
  case ends => exact ⟨r, t, ends⟩
  case ends_alone =>
    intro offer
    obtain ⟨u, ends, -⟩ := returns_verifies steady state.certificates offer s s' time
    exact ⟨_, u, ends⟩
  case accepts_iff =>
    rw [returns.accepts_iff rfl, found.code_eq_ok_iff]
    have same : (∃ offer ∈ c.offersOf state, c.good state.certificates s offer = true) ↔
        ∃ offer ∈ c.offersOf state, (c.verifies state.certificates offer).affirms s' = true := by
      grind
    exact same.trans exists_offers_iff
  case verified =>
    intro r' u ends' accepted
    obtain rfl : r = r' := (Prod.mk.inj (Except.ok.inj (ends.symm.trans ends'))).1
    rw [accepted] at found
    obtain ⟨offer, first, good', reading⟩ := found.exists_first
    obtain ⟨sct, log, read, known, same⟩ := reading_of_good good'
    exact ⟨offer, sct, log, (List.find?_congr good).trans first, read, known, reading.trans same⟩
  case without_certificates =>
    intro none offer
    rw [alone, none, goodAlone, good_of_nil, Bool.and_false]
  case rearranged =>
    intro tls ocsp presented
    rw [accepts_checkState_iff steady, accepts_checkState_iff steady]
    exact accepts_iff_of_perm steady presented (.refl _)
  case extended =>
    intro tls ocsp presented
    rw [accepts_checkState_iff steady, accepts_checkState_iff steady]
    exact accepts_of_subset steady presented (List.Subset.refl _)
  case evidence_rearranged =>
    intro tls embedded ocsp presented embeds
    rw [accepts_checkState_iff steady]
    exact accepts_iff_of_perm steady presented embeds
  case evidence_extended =>
    intro tls embedded ocsp presented embeds
    rw [accepts_checkState_iff steady]
    exact accepts_of_subset steady presented embeds

/-- An unreadable timestamp in the handshake and a fresh one with the status response, while the
provider only counts how often it is asked. -/
theorem checkState_agrees_counting :
    let log : Log :=
      { id := .zero, key := .rsa 0 0, hash := .sha256, scheme := .rsa, description := "counted"
        url := "", mergeDelay := .ofMinutes 1, hash_hashes := rfl }
    let c : Checker Nat :=
      { suite := { Suite.standard with
          digest := fun _ => .zero, verifies := fun _ _ _ _ => true }
        codec := .standard
        registry := ⟨[log], List.pairwise_singleton _ _⟩, config := {}
        surroundings :=
          { now := fun s => (.epoch, s), cancelled := fun s => (false, s)
            provider := some fun _ _ asked => (.unavailable, asked + 1) } }
    let sct : Bytes := 0 :: log.id.bytes ++ List.replicate 10 0 ++ [4, 1, 0, 0]
    let state : ConnectionState := { certificates := [[42]], tlsScts := [[7]], ocspScts := [sct] }
    c.surroundings.Steady ∧ (c.surroundings.now 1).1 = (c.surroundings.now 0).1 ∧
      (c.checkState false (some state)).Accepts 0 ∧ c.Agrees state 0 1 := by
  intro log c sct state
  have steady : c.surroundings.Steady := by
    refine ⟨⟨fun _ => rfl, fun _ => rfl, ?_⟩, ?_⟩
    all_goals
      rintro provider ⟨⟩
      intros
      rfl
  have agrees : c.Agrees state 0 1 := checkState_agrees steady state rfl
  have good : (c.verifiesOcsp state.certificates sct).affirms 1 = true := by decide +kernel
  have accepts := agrees.accepts_iff.2 (.inr (.inr ⟨sct, List.mem_singleton_self sct, good⟩))
  exact ⟨steady, rfl, accepts, agrees⟩

end Checker

end Transparency
