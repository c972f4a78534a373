import Transparency.Check.Report
import Transparency.Proofs.Check.Outcome

/-!
# Checks and the journal

No assumption of a check breaks, not even one in a text that is made only if somebody wants to see
it. So a check ends in the same way and makes the same requests whatever the thresholds are, and
also if whoever is handed the messages moves the thresholds meanwhile.
-/
namespace Transparency

namespace Journal

/-- Somebody who is handed every message. The thresholds are taken from the memory of the handler,
which may change with each message. -/
structure Handler (η : Type) where
  levels : η → Levels
  hear : Message → η → η

/-- A note that can be written at every threshold without an end of the program. -/
def Note.Harmless (n : Note) : Prop :=
  ∃ text, n.text = .ok text ∧ Message.survivable ⟨n.channel.toSeverity, text⟩ = true

theorem Note.harmless_verbose (text : String) : (Note.verbose text).Harmless := ⟨text, rfl, rfl⟩

end Journal

/-! ## Trails -/

namespace Trail

variable {σ α η : Type}

/-- What a check shows to a handler that begins with some memory. -/
def handle (h : Journal.Handler η) (outcome : Except Halt (α × σ)) :
    List Event → η → Observation σ α
  | [], _ => ⟨[], [], outcome⟩
  | .request r watched :: events, memory =>
    let later := handle h outcome events memory
    { later with requests := (r, watched) :: later.requests }
  | .note n :: events, memory =>
    if (h.levels memory).admits n.channel then
      match n.text with
      | .error halt => ⟨[], [], .error halt⟩
      | .ok text =>
        let message : Journal.Message := ⟨n.channel.toSeverity, text⟩
        let later := handle h outcome events (h.hear message memory)
        { later with messages := message :: later.messages }
    else handle h outcome events memory

def handled (h : Journal.Handler η) (memory : η) (t : Trail σ α) : Observation σ α :=
  handle h t.outcome t.events memory

/-- Fixed thresholds are those of a handler that leaves them alone. -/
theorem observed_eq_handled (l : Journal.Levels) (t : Trail σ α) :
    t.observed l = t.handled ⟨fun _ => l, fun _ _ => ()⟩ () := by
  obtain ⟨events, outcome⟩ := t
  unfold observed handled
  dsimp only
  induction events with
  | nil => rfl
  | cons event events ih =>
    cases event with
    | request r watched => simp only [observe, handle, ih]
    | note n => cases text : n.text <;> simp only [observe, handle, ih, text]

/-- An observation of a check that went through, with `requests`, and came to `a`. -/
structure Observation.Through (seen : Observation σ α) (a : α) (s : σ)
    (requests : List (ProofRequest × Bool)) : Prop where
  outcome : seen.outcome = .ok (a, s)
  requests : seen.requests = requests
  survivable : ∀ message ∈ seen.messages, message.survivable = true

/-- A trail that has an end, and no note that could put an end to the program before. -/
structure Sound (t : Trail σ α) : Prop where
  ends : ∃ a s, t.outcome = .ok (a, s)
  harmless : ∀ n, .note n ∈ t.events → n.Harmless

theorem handle_through (h : Journal.Handler η) {outcome : Except Halt (α × σ)} {a : α} {s : σ}
    (ends : outcome = .ok (a, s)) {events : List Event}
    (harmless : ∀ n, .note n ∈ events → n.Harmless) (memory : η) :
    (handle h outcome events memory).Through a s (Trail.requests ⟨events, outcome⟩) := by
  induction events generalizing memory with
  | nil => exact ⟨ends, rfl, by simp [handle]⟩
  | cons event events ih =>
    have tail := ih fun n member => harmless n (List.mem_cons_of_mem _ member)
    cases event with
    | request r watched =>
      exact ⟨(tail memory).outcome, congrArg ((r, watched) :: ·) (tail memory).requests,
        (tail memory).survivable⟩
    | note n =>
      obtain ⟨text, made, survivable⟩ := harmless n List.mem_cons_self
      rw [handle, made]
      dsimp only
      split
      · have later := tail (h.hear ⟨n.channel.toSeverity, text⟩ memory)
        exact ⟨later.outcome, later.requests,
          List.forall_mem_cons.2 ⟨survivable, later.survivable⟩⟩
      · exact tail memory

/-- Nothing about a sound trail but its messages depends on whoever is handed them. -/
theorem Sound.exists_through {t : Trail σ α} (sound : t.Sound) :
    ∃ a s, ∀ {η : Type} (h : Journal.Handler η) (memory : η),
      (t.handled h memory).Through a s t.requests := by
  obtain ⟨a, s, ends⟩ := sound.ends
  exact ⟨a, s, fun h memory => handle_through h ends sound.harmless memory⟩

end Trail

/-! ## Computations -/

namespace Check

variable {σ α β : Type}

/-- A computation whose trails are sound in every state. -/
def Safe (x : Check σ α) : Prop := ∀ s, (x s).Sound

theorem safe_pure (a : α) : Safe (Pure.pure a : Check σ α) := fun s =>
  ⟨⟨a, s, rfl⟩, fun _ member => nomatch member⟩

theorem safe_read (f : σ → α × σ) : Safe (read f) := fun s =>
  ⟨⟨(f s).1, (f s).2, rfl⟩, fun _ member => nomatch member⟩

theorem safe_ofExcept (a : α) : Safe (ofExcept (.ok a) : Check σ α) := fun s =>
  ⟨⟨a, s, rfl⟩, fun _ member => nomatch member⟩

theorem safe_note {n : Journal.Note} (harmless : n.Harmless) : Safe (note n : Check σ Unit) := by
  refine fun s => ⟨⟨(), s, rfl⟩, fun m member => ?_⟩
  obtain rfl : m = n := Event.note.inj (List.mem_singleton.1 member)
  exact harmless

theorem safe_tell (text : String) : Safe (tell text : Check σ Unit) :=
  safe_note (Journal.Note.harmless_verbose text)

theorem safe_tellLazily {text : Except Halt String} (made : ∃ t, text = .ok t) :
    Safe (tellLazily text : Check σ Unit) := by
  obtain ⟨text, rfl⟩ := made
  exact safe_tell text

theorem safe_tellAll (texts : List String) : Safe (tellAll texts : Check σ Unit) := by
  refine fun s => ⟨⟨(), s, rfl⟩, fun n member => ?_⟩
  obtain ⟨text, -, told⟩ := List.mem_map.1 member
  obtain rfl := Event.note.inj told
  exact Journal.Note.harmless_verbose text

theorem safe_ask (provider : Provider σ) (r : ProofRequest) (watched : Bool) :
    Safe (ask provider r watched) := fun _ =>
  ⟨⟨_, _, rfl⟩, fun _ member => nomatch List.mem_singleton.1 member⟩

theorem Safe.bind {x : Check σ α} {f : α → Check σ β} (first : Safe x)
    (rest : ∀ a, Safe (f a)) : Safe (x >>= f) := by
  intro s
  obtain ⟨a, t, ends⟩ := (first s).ends
  rw [bind_eq_of_ends ends]
  refine ⟨(rest a t).ends, fun n member => ?_⟩
  obtain member | member := List.mem_append.1 member
  · exact (first s).harmless n member
  · exact (rest a t).harmless n member

end Check

/-! ## Names in texts -/

theorem exists_ok_bind {α β : Type} {x : Except Halt α} {f : α → Except Halt β}
    (first : ∃ a, x = .ok a) (rest : ∀ a, ∃ b, f a = .ok b) : ∃ b, (x >>= f) = .ok b := by
  obtain ⟨a, rfl⟩ := first
  exact rest a

theorem Origin.exists_name {origin : Origin} (place : origin ≠ .unspecified) :
    ∃ name, origin.name = .ok name := by
  cases origin with
  | unspecified => exact absurd rfl place
  | embedded | tlsExtension | ocspResponse => exact ⟨_, rfl⟩

theorem ResultCode.exists_text (code : ResultCode) :
    ∃ text, ResultCode.text code.toInt = .ok text := by
  simp [text, shortText, Except.map]

/-! ## Checks -/

namespace Checker

variable {σ : Type} (c : Checker σ) (watched : Bool)

open Check (Safe safe_pure safe_read safe_ofExcept safe_tell safe_tellLazily safe_tellAll
  safe_ask)

theorem safe_judgeReply (log : Log) (sct : Sct) (leafHash : Digest) (reply : ProofReply) :
    Safe (c.judgeReply log sct leafHash reply) := by
  have failed (how : String) : Safe (σ := σ) (do
      Check.tell ("Inclusion proof from " ++ log.description ++ " " ++ how)
      return false) :=
    (safe_tell _).bind fun _ => safe_pure false
  cases reply with
  | unavailable => exact failed "unavailable"
  | timedOut => exact failed "timed out"
  | cancelled => exact failed "cancelled"
  | available head proof =>
    obtain ⟨verdict, judged⟩ :=
      log.exists_checkInclusion c.suite sct.timestamp leafHash head proof
    unfold judgeReply
    dsimp only
    rw [judged]
    refine (safe_ofExcept verdict).bind fun verdict => ?_
    cases verdict with
    | ok => exact safe_pure true
    | error fault => exact (safe_tellAll _).bind fun _ => safe_pure false

theorem safe_requestProof (provider : Provider σ) (log : Log) (sct : Sct) (leafHash : Digest) :
    Safe (c.requestProof provider watched log sct leafHash) :=
  (safe_read _).bind fun _ => (safe_ask provider _ watched).bind fun reply =>
    c.safe_judgeReply log sct leafHash reply

theorem safe_proveInclusion (log : Log) (sct : Sct) (leafHash : Digest) :
    Safe (c.proveInclusion watched log sct leafHash) := by
  unfold proveInclusion
  cases c.surroundings.provider with
  | none => exact safe_pure false
  | some provider =>
    refine (safe_read _).bind fun flagged => ?_
    split
    · exact safe_pure false
    · exact c.safe_requestProof watched provider log sct leafHash

theorem safe_judge (log : Log) (leaf : Leaf) (sct : Sct) :
    Safe (c.judge watched log leaf sct) := by
  refine (safe_read _).bind fun now => ?_
  split
  · exact (safe_tell _).bind fun _ => safe_pure _
  rw [Leaf.hash?_eq_ok]
  refine (safe_ofExcept _).bind fun leafHash? => ?_
  have settle (included : Bool) : Safe (σ := σ) (do
      if included || isFresh log now sct then return ResultCode.ok
      Check.tell ("Inclusion unverifiable and SCT from " ++ log.description ++
        " is older than the maximum merge delay of " ++ log.mergeDelay.text)
      return ResultCode.inclusionFailedStale) := by
    split
    · exact safe_pure _
    · exact (safe_tell _).bind fun _ => safe_pure _
  cases leafHash? with
  | none => exact (safe_pure false).bind settle
  | some leafHash => exact (c.safe_proveInclusion watched log sct leafHash).bind settle

theorem safe_checkKnown (log : Log) (leaf : Leaf) (sct : Sct) :
    Safe (c.checkKnown watched log leaf sct) := by
  obtain ⟨verdict, judged⟩ := log.exists_verifySct c.suite leaf.entry sct
  unfold checkKnown
  rw [judged]
  refine (safe_ofExcept verdict).bind fun verdict => ?_
  cases verdict with
  | ok => exact c.safe_judge watched log leaf sct
  | error rejection => exact (safe_tellAll _).bind fun _ => safe_pure _

theorem safe_checkOne (bytes : Bytes) (leaf : Leaf) : Safe (c.checkOne watched bytes leaf) := by
  unfold checkOne
  cases Sct.decodeWhole bytes with
  | error fault => exact (safe_tellAll _).bind fun _ => safe_pure _
  | ok sct =>
    dsimp only
    cases c.registry.find? sct.logId with
    | none => exact (safe_tell _).bind fun _ => safe_pure _
    | some log => exact (c.safe_checkKnown watched log leaf _).bind fun _ => safe_pure _

variable {origin : Origin} {chain : List Bytes}

theorem safe_checkEach (place : origin ≠ .unspecified) (leaf : Leaf) (last : ResultCode)
    (scts : List Bytes) : Safe (c.checkEach watched origin leaf last scts) := by
  induction scts generalizing last with
  | nil => exact safe_pure _
  | cons bytes scts ih =>
    rw [checkEach_cons]
    refine (c.safe_checkOne watched bytes leaf).bind fun (code, sct) => ?_
    dsimp only
    split
    · exact safe_pure _
    · refine (safe_tellLazily ?_).bind fun _ => ih code
      exact exists_ok_bind (origin.exists_name place) fun _ =>
        exists_ok_bind code.exists_text fun _ => ⟨_, rfl⟩

theorem safe_checkSource (place : origin ≠ .unspecified) (chain scts : List Bytes) :
    Safe (c.checkSource watched origin chain scts) := by
  obtain ⟨leaf, built⟩ := c.exists_leafFor place chain
  unfold checkSource
  rw [built]
  split
  · exact safe_pure _
  refine (safe_ofExcept leaf).bind fun leaf => ?_
  cases leaf with
  | ok leaf => exact c.safe_checkEach watched place leaf _ scts
  | error fault =>
    refine (safe_tellAll _).bind fun _ => (safe_tellLazily ?_).bind fun _ => safe_pure _
    exact exists_ok_bind (origin.exists_name place) fun _ => ⟨_, rfl⟩

/-- A search names the place that decided, so there has to be one if no place is left. -/
theorem safe_reportSources (chain : List Bytes) (sources : List (Origin × List Bytes))
    (places : ∀ source ∈ sources, source.1 ≠ .unspecified) (report : Report)
    (searched : sources = [] → report.origin ≠ .unspecified) :
    Safe (c.reportSources watched chain report sources) := by
  induction sources generalizing report with
  | nil =>
    refine (safe_tellLazily ?_).bind fun _ => safe_pure _
    exact exists_ok_bind report.code.exists_text fun _ =>
      exists_ok_bind (report.origin.exists_name (searched rfl)) fun _ => ⟨_, rfl⟩
  | cons source sources ih =>
    obtain ⟨origin, scts⟩ := source
    obtain ⟨place, places⟩ := List.forall_mem_cons.1 places
    refine (c.safe_checkSource watched place chain scts).bind fun (code, sct) => ?_
    dsimp only
    split
    · refine (safe_tellLazily ?_).bind fun _ => safe_pure _
      exact exists_ok_bind (origin.exists_name place) fun _ => ⟨_, rfl⟩
    · exact ih places _ fun _ => place

theorem safe_reportEvidence (chain tls embedded ocsp : List Bytes) (prior : Report) :
    Safe (c.reportEvidence watched chain tls embedded ocsp prior) := by
  unfold reportEvidence
  split
  · exact safe_pure _
  · exact c.safe_reportSources watched chain _ (by simp) _ (fun none => nomatch none)

theorem safe_reportState (prior : Report) (state : Option ConnectionState) :
    Safe (c.reportState watched prior state) := by
  unfold reportState
  cases state with
  | none => exact safe_pure _
  | some state =>
    dsimp only
    cases state.certificates with
    | nil => exact safe_pure _
    | cons certificate chain =>
      have evidence (embedded : List Bytes) : Safe (c.reportEvidence watched (certificate :: chain)
          state.tlsScts embedded state.ocspScts prior.reset) :=
        c.safe_reportEvidence watched _ _ _ _ _
      dsimp only
      cases c.codec.embeddedScts certificate with
      | ok scts => exact (safe_pure ()).bind fun _ => evidence _
      | error fault => exact (safe_tellAll _).bind fun _ => evidence _

/-- The check of a connection breaks no assumption and says nothing fatal. Neither its result nor
its requests depend on the thresholds or on whoever is handed the messages. -/
theorem reportState_undisturbed (prior : Report) (state : Option ConnectionState) (s : σ) :
    ∃ result t requests,
      (∀ l : Journal.Levels,
        ((c.reportState watched prior state s).observed l).Through result t requests) ∧
      ∀ {η : Type} (h : Journal.Handler η) (memory : η),
        ((c.reportState watched prior state s).handled h memory).Through result t requests := by
  obtain ⟨result, t, through⟩ := (c.safe_reportState watched prior state s).exists_through
  refine ⟨result, t, _, fun l => ?_, through⟩
  rw [Trail.observed_eq_handled]
  exact through _ ()

end Checker

end Transparency
