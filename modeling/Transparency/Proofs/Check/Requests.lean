import Mathlib.Data.List.Chain
import Transparency.Certificate.Codec
import Transparency.Key.Reader
import Transparency.Proofs.Check.Report
import Transparency.Proofs.Check.Search

/-!
# What is asked

A check of a connection examines timestamps in order, up to the first that is good. About each it asks
for at most one proof, and only once nothing else speaks against the timestamp and the flag was found
unset. So nothing is asked after the flag is set, if it stays so while nothing is asked.
-/
namespace Transparency

/-- A timestamp that was examined, with the leaf that it was held against. -/
structure Examination (σ : Type) where
  origin : Origin
  leaf : Leaf
  bytes : Bytes
  before : σ
  /-- What was exchanged about it, if anything. -/
  asked : Option Exchange
  code : ResultCode
  after : σ

def Examination.offer {σ : Type} (e : Examination σ) : Origin × Bytes := (e.origin, e.bytes)

namespace Checker

variable {σ : Type} {c : Checker σ} {watched : Bool} {chain scts : List Bytes} {origin : Origin}
  {leaf : Leaf} {bytes : Bytes} {s t v : σ} {offers later : List (Origin × Bytes)}
  {es es' : List (Examination σ)} {accepted : Bool}

/-! ## One timestamp -/

/-- What must hold of a timestamp whose check begins in the state `s`, so that a request about it is
made, and what the request must say. -/
structure Warrants (c : Checker σ) (watched : Bool) (leaf : Leaf) (sct : Sct) (log : Log) (s : σ)
    (r : ProofRequest) : Prop where
  known : c.registry.find? sct.logId = some log
  signed : log.verifySct c.suite leaf.entry sct = .ok (.ok ())
  not_future : (c.config.rejectFuture && (c.surroundings.now s).1 < sct.timestamp) = false
  unset : (c.surroundings.flagged watched (c.surroundings.now s).2).1 = false
  logId : r.logId = log.id.bytes
  sctTimestamp : r.sctTimestamp = sct.timestamp
  leafHash : ∃ leafHash, (leaf.bind sct).hash? c.suite.digest = .ok (some leafHash) ∧
    r.leafHash = leafHash.bytes
  deadline : r.deadline =
    (c.surroundings.asking watched (c.surroundings.now s).2).1 + c.config.proofTimeout

/-- Whether an examination is a check of its timestamp against the leaf for its place, in which
nothing is asked without warrant. -/
structure Examines (c : Checker σ) (watched : Bool) (chain : List Bytes) (e : Examination σ) :
    Prop where
  built : c.leafFor e.origin chain = .ok (.ok e.leaf)
  runs : ∃ read, Check.Runs c.surroundings watched (c.checkOne watched e.bytes e.leaf) e.before
    e.asked.toList (e.code, read) e.after
  warranted : ∀ exchange ∈ e.asked, ∃ sct log, Sct.decodeWhole e.bytes = .ok sct ∧
    c.Warrants watched e.leaf sct log e.before exchange.request

/-- Nothing is asked once the flag is set, so it stays set. -/
theorem Examines.quiet {e : Examination σ} (examines : c.Examines watched chain e)
    (latched : c.surroundings.Latched watched)
    (set : (c.surroundings.flagged watched e.before).1 = true) :
    e.asked = none ∧ (c.surroundings.flagged watched e.after).1 = true := by
  obtain ⟨read, runs⟩ := examines.runs
  simpa using runs.way.quiet latched set

theorem vouched_iff {log : Log} {sct : Sct} {entry : Entry} :
    c.vouched log sct entry = true ↔ log.verifySct c.suite entry sct = .ok (.ok ()) := by
  unfold vouched
  grind

theorem length_exchanges_le (bytes : Bytes) (leaf : Leaf) (s : σ) :
    (c.exchanges watched bytes leaf s).length ≤ 1 := by
  unfold exchanges exchangedToJudge exchanged
  grind

theorem of_mem_exchanged {log : Log} {sct : Sct} {leafHash? : Option Digest} {exchange : Exchange}
    (asked : exchange ∈ c.exchanged watched log sct leafHash? s) :
    ∃ leafHash, leafHash? = some leafHash ∧ (c.surroundings.flagged watched s).1 = false ∧
      exchange.request = c.request log sct leafHash (c.surroundings.asking watched s).1 := by
  unfold exchanged at asked
  grind [exchange]

theorem warrants_of_mem_exchangedToJudge {log : Log} {sct : Sct} {description : String}
    {exchange : Exchange} (known : c.registry.find? sct.logId = some log)
    (vouched : c.vouched log { sct with logDescription := description } leaf.entry = true)
    (asked : exchange ∈
      c.exchangedToJudge watched log { sct with logDescription := description } leaf s) :
    c.Warrants watched leaf sct log s exchange.request := by
  unfold exchangedToJudge at asked
  dsimp only at asked
  split at asked
  · cases asked
  · next present =>
    obtain ⟨leafHash, hash, unset, request⟩ := of_mem_exchanged asked
    rw [request]
    exact
      { known
        signed := vouched_iff.1 vouched
        not_future := Bool.eq_false_iff.2 present
        unset
        logId := rfl
        sctTimestamp := rfl
        leafHash := ⟨leafHash, by rw [← hash, Leaf.hash?_eq_ok]; rfl, rfl⟩
        deadline := rfl }

theorem exists_warrants {exchange : Exchange}
    (asked : exchange ∈ c.exchanges watched bytes leaf s) :
    ∃ sct log, Sct.decodeWhole bytes = .ok sct ∧
      c.Warrants watched leaf sct log s exchange.request := by
  unfold exchanges at asked
  cases read : Sct.decodeWhole bytes with
  | error fault => simp [read] at asked
  | ok sct =>
    simp only [read] at asked
    cases known : c.registry.find? sct.logId with
    | none => simp [known] at asked
    | some log =>
      simp only [known] at asked
      split at asked
      · next vouched =>
        exact ⟨sct, log, rfl, warrants_of_mem_exchangedToJudge known vouched asked⟩
      · cases asked

/-- The examination that a check of a timestamp in the state `s` is. -/
def examination (c : Checker σ) (watched : Bool) (origin : Origin) (leaf : Leaf) (bytes : Bytes)
    (s : σ) : Examination σ where
  origin
  leaf
  bytes
  before := s
  asked := (c.exchanges watched bytes leaf s).head?
  code := (c.verdict watched bytes leaf s).1.1
  after := (c.verdict watched bytes leaf s).2

theorem asked_examination (origin : Origin) (leaf : Leaf) (bytes : Bytes) (s : σ) :
    (c.examination watched origin leaf bytes s).asked.toList =
      c.exchanges watched bytes leaf s := by
  have short : (c.exchanges watched bytes leaf s).length ≤ 1 := length_exchanges_le bytes leaf s
  unfold examination
  generalize c.exchanges watched bytes leaf s = exchanged at short
  rcases exchanged with _ | ⟨exchange, _ | ⟨second, rest⟩⟩
  · rfl
  · rfl
  · simp at short

theorem runs_examination (origin : Origin) (leaf : Leaf) (bytes : Bytes) (s : σ) :
    Check.Runs c.surroundings watched (c.checkOne watched bytes leaf) s
      (c.examination watched origin leaf bytes s).asked.toList
      ((c.examination watched origin leaf bytes s).code, (c.verdict watched bytes leaf s).1.2)
      (c.examination watched origin leaf bytes s).after := by
  rw [asked_examination]
  exact c.runs_checkOne watched bytes leaf s

theorem examines_examination (built : c.leafFor origin chain = .ok (.ok leaf)) (bytes : Bytes)
    (s : σ) : c.Examines watched chain (c.examination watched origin leaf bytes s) where
  built := built
  runs := ⟨_, runs_examination origin leaf bytes s⟩
  warranted _ asked := exists_warrants (List.mem_of_mem_head? asked)

/-! ## Courses -/

/-- A course of examinations from one state to another, through the timestamps on offer up to the
first that is accepted. -/
inductive Course (c : Checker σ) (watched : Bool) (chain : List Bytes) :
    σ → List (Origin × Bytes) → List (Examination σ) → Bool → σ → Prop
  | exhausted {s : σ} : Course c watched chain s [] [] false s
  | accepted {e : Examination σ} (examines : c.Examines watched chain e) (good : e.code = .ok)
      (later : List (Origin × Bytes)) :
      Course c watched chain e.before (e.offer :: later) [e] true e.after
  | rejected {e : Examination σ} {offers : List (Origin × Bytes)} {es : List (Examination σ)}
      {accepted : Bool} {t : σ} (examines : c.Examines watched chain e) (bad : e.code ≠ .ok)
      (rest : Course c watched chain e.after offers es accepted t) :
      Course c watched chain e.before (e.offer :: offers) (e :: es) accepted t

namespace Course

theorem append_of_accepted (course : c.Course watched chain s offers es true t)
    (later : List (Origin × Bytes)) : c.Course watched chain s (offers ++ later) es true t := by
  -- The outcome becomes a variable, so that the other endings are cases to refute.
  generalize found : true = outcome at course
  induction course with
  | exhausted => cases found
  | accepted examines good rest => exact .accepted examines good (rest ++ later)
  | rejected examines bad _ ih => exact .rejected examines bad (ih found)

theorem append_of_rejected (first : c.Course watched chain s offers es false t)
    (rest : c.Course watched chain t later es' accepted v) :
    c.Course watched chain s (offers ++ later) (es ++ es') accepted v := by
  generalize found : false = outcome at first
  induction first with
  | exhausted => exact rest
  | accepted => cases found
  | rejected examines bad _ ih => exact .rejected examines bad (ih rest found)

theorem forall_examines (course : c.Course watched chain s offers es accepted t) :
    ∀ e ∈ es, c.Examines watched chain e := by
  induction course with
  | exhausted => simp
  | accepted examines => simpa using examines
  | rejected examines _ _ ih => exact List.forall_mem_cons.2 ⟨examines, ih⟩

theorem offers_prefix (course : c.Course watched chain s offers es accepted t) :
    es.map Examination.offer <+: offers := by
  induction course with
  | exhausted => exact List.prefix_refl []
  | accepted _ _ later => exact ⟨later, rfl⟩
  | rejected _ _ _ ih => exact List.cons_prefix_cons.2 ⟨rfl, ih⟩

theorem begins (course : c.Course watched chain s offers es accepted t) :
    ∀ e ∈ es.head?, e.before = s := by
  cases course <;> simp

theorem linked (course : c.Course watched chain s offers es accepted t) :
    es.IsChain fun a b => a.after = b.before := by
  induction course with
  | exhausted => exact .nil
  | accepted => exact .singleton _
  | rejected _ _ rest ih =>
    exact List.isChain_cons.2 ⟨fun e first => (rest.begins e first).symm, ih⟩

theorem stops (course : c.Course watched chain s offers es accepted t) :
    es.Pairwise fun a _ => a.code ≠ .ok := by
  induction course with
  | exhausted => exact .nil
  | accepted => exact List.pairwise_singleton _ _
  | rejected _ bad _ ih => exact List.pairwise_cons.2 ⟨fun _ _ => bad, ih⟩

theorem exhausts (course : c.Course watched chain s offers es accepted t)
    (bad : ∀ e ∈ es, e.code ≠ .ok) : es.map Examination.offer = offers := by
  induction course with
  | exhausted => rfl
  | accepted _ good => simp [good] at bad
  | rejected _ _ _ ih => exact congrArg (_ :: ·) (ih (List.forall_mem_cons.1 bad).2)

theorem quiet (course : c.Course watched chain s offers es accepted t)
    (latched : c.surroundings.Latched watched)
    (set : (c.surroundings.flagged watched s).1 = true) : ∀ e ∈ es, e.asked = none := by
  induction course with
  | exhausted => simp
  | accepted examines => simpa using (examines.quiet latched set).1
  | rejected examines _ _ ih =>
    obtain ⟨unasked, stays⟩ := examines.quiet latched set
    exact List.forall_mem_cons.2 ⟨unasked, ih stays⟩

theorem quiet_after (course : c.Course watched chain s offers es accepted t)
    (latched : c.surroundings.Latched watched) :
    es.Pairwise fun a b =>
      (c.surroundings.flagged watched a.after).1 = true → b.asked = none := by
  induction course with
  | exhausted => exact .nil
  | accepted => exact List.pairwise_singleton _ _
  | rejected _ _ rest ih =>
    exact List.pairwise_cons.2 ⟨fun e member set => rest.quiet latched set e member, ih⟩

end Course

/-- What holds of the examinations of a check that begins in the state `s` with some timestamps on
offer. -/
structure Disciplined (c : Checker σ) (watched : Bool) (chain : List Bytes)
    (offers : List (Origin × Bytes)) (s : σ) (es : List (Examination σ)) : Prop where
  examines : ∀ e ∈ es, c.Examines watched chain e
  /-- Timestamps are examined in the order in which they are on offer, -/
  order : es.map Examination.offer <+: offers
  /-- each in the state that the one before it left, -/
  begins : ∀ e ∈ es.head?, e.before = s
  linked : es.IsChain fun a b => a.after = b.before
  /-- none after one that was accepted, -/
  stops : es.Pairwise fun a _ => a.code ≠ .ok
  /-- and all of them if none was. -/
  exhausts : (∀ e ∈ es, e.code ≠ .ok) → es.map Examination.offer = offers
  /-- Where the flag stays set while nothing is asked, nothing is asked if it was set before the
  check, -/
  quiet : c.surroundings.Latched watched → (c.surroundings.flagged watched s).1 = true →
    ∀ e ∈ es, e.asked = none
  /-- and nothing after it was set by an answer. -/
  quiet_after : c.surroundings.Latched watched → es.Pairwise fun a b =>
    (c.surroundings.flagged watched a.after).1 = true → b.asked = none

theorem Course.disciplined (course : c.Course watched chain s offers es accepted t) :
    c.Disciplined watched chain offers s es where
  examines := course.forall_examines
  order := course.offers_prefix
  begins := course.begins
  linked := course.linked
  stops := course.stops
  exhausts := course.exhausts
  quiet := course.quiet
  quiet_after := course.quiet_after

/-! ## The search -/

/-- What was exchanged in a course of examinations. -/
def exchangesOf (es : List (Examination σ)) : List Exchange := es.filterMap (·.asked)

@[simp] theorem exchangesOf_nil : exchangesOf ([] : List (Examination σ)) = [] := rfl

theorem exchangesOf_cons (e : Examination σ) (es : List (Examination σ)) :
    exchangesOf (e :: es) = e.asked.toList ++ exchangesOf es := by
  cases asked : e.asked <;> simp [exchangesOf, asked]

theorem exchangesOf_append (es es' : List (Examination σ)) :
    exchangesOf (es ++ es') = exchangesOf es ++ exchangesOf es' :=
  List.filterMap_append

theorem exists_course_checkEach (built : c.leafFor origin chain = .ok (.ok leaf))
    (scts : List Bytes) {last : ResultCode} (failed : last ≠ .ok) (s : σ) :
    ∃ es code sct t,
      Check.Runs c.surroundings watched (c.checkEach watched origin leaf last scts) s
          (exchangesOf es) (code, sct) t ∧
        c.Course watched chain s (scts.map (origin, ·)) es (code = .ok) t := by
  induction scts generalizing last s with
  | nil => exact ⟨[], last, none, s, runs_checkEach_nil last, by simpa [failed] using .exhausted⟩
  | cons bytes scts ih =>
    let e := c.examination watched origin leaf bytes s
    have examines : c.Examines watched chain e := examines_examination built bytes s
    have first : Check.Runs c.surroundings watched (c.checkOne watched bytes leaf) s
        e.asked.toList (e.code, (c.verdict watched bytes leaf s).1.2) e.after :=
      runs_examination origin leaf bytes s
    by_cases good : e.code = .ok
    · have alone : exchangesOf [e] = e.asked.toList := by simp [exchangesOf_cons]
      rw [good, ← alone] at first
      exact ⟨[e], .ok, _, e.after, runs_checkEach_of_ok origin last scts first,
        by simpa using .accepted examines good _⟩
    · obtain ⟨es, code, sct, t, rest, course⟩ := ih good e.after
      refine ⟨e :: es, code, sct, t, ?_, .rejected examines good course⟩
      rw [exchangesOf_cons]
      exact runs_checkEach_of_ne_ok last first good rest

/-- Whether there is a leaf to hold a timestamp against. -/
def examinable (c : Checker σ) (chain : List Bytes) : Origin × Bytes → Bool
  | (origin, _) =>
    match c.leafFor origin chain with
    | .ok (.ok _) => true
    | _ => false

theorem examinable_nil (offer : Origin × Bytes) : c.examinable [] offer = false := by
  obtain ⟨origin, bytes⟩ := offer
  cases origin <;> rfl

theorem exists_course_checkSource (c : Checker σ) (watched : Bool) (place : origin ≠ .unspecified)
    (chain scts : List Bytes) (s : σ) :
    ∃ es code sct t,
      Check.Runs c.surroundings watched (c.checkSource watched origin chain scts) s
          (exchangesOf es) (code, sct) t ∧
        c.Course watched chain s ((scts.map (origin, ·)).filter (c.examinable chain)) es
          (code = .ok) t := by
  by_cases empty : scts = []
  · subst empty
    exact ⟨[], .noEvidenceFound, none, s, runs_checkSource_nil, .exhausted⟩
  · obtain ⟨leaf?, built⟩ := c.exists_leafFor place chain
    cases leaf? with
    | error fault =>
      -- Without a leaf nothing of this place is examined, and nothing of it is on offer.
      have unexaminable : (scts.map (origin, ·)).filter (c.examinable chain) = [] := by
        simp [examinable, built]
      rw [unexaminable]
      exact ⟨[], .chainBuildFailed, none, s, runs_checkSource_of_error built empty, .exhausted⟩
    | ok leaf =>
      have all : (scts.map (origin, ·)).filter (c.examinable chain) = scts.map (origin, ·) := by
        simp [examinable, built]
      have failed : ResultCode.noEvidenceFound ≠ .ok := by decide
      obtain ⟨es, code, sct, t, each, course⟩ := exists_course_checkEach built scts failed s
      rw [all]
      exact ⟨es, code, sct, t, runs_checkSource_of_ok built empty each, course⟩

theorem exists_course_checkSources (chain : List Bytes) (sources : List (Origin × List Bytes))
    (places : ∀ source ∈ sources, source.1 ≠ .unspecified) (result : CheckResult)
    (failed : result.code ≠ .ok) (s : σ) :
    ∃ es r t,
      Check.Runs c.surroundings watched (c.checkSources watched chain result sources) s
          (exchangesOf es) r t ∧
        c.Course watched chain s ((Checker.offers sources).filter (c.examinable chain)) es
          (r.code = .ok) t := by
  induction sources generalizing result s with
  | nil =>
    refine ⟨[], result, s, runs_checkSources_nil result, ?_⟩
    simpa [Checker.offers, failed] using .exhausted
  | cons source sources ih =>
    obtain ⟨origin, scts⟩ := source
    obtain ⟨place, places⟩ := List.forall_mem_cons.1 places
    obtain ⟨es, code, sct, t, first, course⟩ :=
      c.exists_course_checkSource watched place chain scts s
    have split : Checker.offers ((origin, scts) :: sources) =
        scts.map (origin, ·) ++ Checker.offers sources := rfl
    rw [split, List.filter_append]
    let outcomes := result.outcomes ++ [⟨origin, code, scts.length⟩]
    by_cases good : code = .ok
    · subst good
      exact ⟨es, _, t, runs_checkSources_of_ok result sources first, course.append_of_accepted _⟩
    · obtain ⟨es', r, v, rest, later⟩ := ih places { code, origin, outcomes } good t
      rw [decide_eq_false good] at course
      refine ⟨es ++ es', r, v, ?_, course.append_of_rejected later⟩
      rw [exchangesOf_append]
      exact runs_checkSources_of_ne_ok first good rest

theorem exists_course_checkEvidence (c : Checker σ) (watched : Bool)
    (chain tls embedded ocsp : List Bytes) (s : σ) :
    ∃ es r t,
      Check.Runs c.surroundings watched (c.checkEvidence watched chain tls embedded ocsp) s
          (exchangesOf es) r t ∧
        c.Course watched chain s
          ((Checker.offers [(.tlsExtension, tls), (.embedded, embedded),
            (.ocspResponse, ocsp)]).filter (c.examinable chain)) es (r.code = .ok) t := by
  unfold checkEvidence
  split
  · next empty =>
    obtain rfl := List.isEmpty_iff.1 empty
    refine ⟨[], _, s, Check.runs_pure _, ?_⟩
    rw [List.filter_eq_nil_iff.2 fun offer _ => by simp [examinable_nil]]
    exact .exhausted
  · exact exists_course_checkSources chain _ (by simp) {} (by decide) s

/-- Whatever a provider answers and whatever it does to the flag, what a check of a connection asks
is what its examinations ask, in their order: about each timestamp at most once, with warrant, and
never after the flag is set or a timestamp is accepted. -/
theorem requests_disciplined (c : Checker σ) (watched : Bool)
    (chain tls embedded ocsp : List Bytes) (prior : Report) (s : σ) :
    ∃ es r t,
      Check.Runs c.surroundings watched (c.reportEvidence watched chain tls embedded ocsp prior) s
          (exchangesOf es) r t ∧
        c.Disciplined watched chain
          ((Checker.offers [(.tlsExtension, tls), (.embedded, embedded),
            (.ocspResponse, ocsp)]).filter (c.examinable chain)) s es := by
  obtain ⟨es, r, t, runs, course⟩ :=
    c.exists_course_checkEvidence watched chain tls embedded ocsp s
  refine ⟨es, (r.code, .ofResult r), t, ?_, course.disciplined⟩
  rw [reportEvidence_eq]
  exact runs.map _

/-- Two stale timestamps come with the handshake. The provider sets the flag when it is asked about
the first. -/
theorem requests_disciplined_cancelling :
    let log : Log :=
      { id := .zero, key := .rsa 0 0, hash := .sha256, scheme := .rsa, description := "cancelling"
        url := "", mergeDelay := .ofMinutes 1, hash_hashes := rfl }
    let c : Checker Bool :=
      { suite := { Suite.standard with
          digest := fun _ => .zero, verifies := fun _ _ _ _ => true }
        codec := .standard
        registry := ⟨[log], List.pairwise_singleton _ _⟩, config := {}
        surroundings :=
          { now := fun s => (.ofMillis 600000, s), cancelled := fun set => (set, set)
            provider := some fun _ _ _ => (.unavailable, true) } }
    let sct : Bytes := 0 :: log.id.bytes ++ List.replicate 10 0 ++ [4, 1, 0, 0]
    c.surroundings.Latched true ∧ ∃ es r t,
      Check.Runs c.surroundings true (c.reportEvidence true [[42]] [sct, sct] [] [] {}) false
          (exchangesOf es) r t ∧
        c.Disciplined true [[42]] [(.tlsExtension, sct), (.tlsExtension, sct)] false es ∧
          (exchangesOf es).length = 1 := by
  intro log c sct
  obtain ⟨es, r, t, runs, disciplined⟩ :=
    c.requests_disciplined true [[42]] [sct, sct] [] [] {} false
  refine ⟨⟨fun _ set => set, fun _ set => set⟩, es, r, t, runs, disciplined, ?_⟩
  have once : (c.reportEvidence true [[42]] [sct, sct] [] [] {} false).requests.length = 1 := by
    decide +kernel
  simpa [runs.requests] using once

end Checker

end Transparency
