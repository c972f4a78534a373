import Mathlib.Data.List.Sort
import Transparency.Key.Reader
import Transparency.Proofs.Certificate.Canonical
import Transparency.Registry

/-!
# Registries as indexes

A list of logs makes a registry just if each listing is usable and no two have one id. The registry
then has one log for each listing and finds it by its id. The order of the listings decides at most
which fault is found first, and so neither whether there is a registry nor what is in it.
-/
namespace Transparency

variable {suite : Suite} {l : Listing} {listings : List Listing} {log : Log} {key : PublicKey}
  {scheme scheme' : SignatureScheme}

/-! ## Keys -/

/-- Which keys logs may have, and the schemes that they then sign with. It is no matter on which
curve a key is. -/
inductive PublicKey.SignsWith : PublicKey → SignatureScheme → Prop
  | rsa {modulus exponent : Nat} (long : 2048 ≤ Rsa.bits modulus) :
      SignsWith (.rsa modulus exponent) .rsa
  | elliptic {parameters point : Bytes} : SignsWith (.elliptic parameters point) .ecdsa

theorem PublicKey.SignsWith.unique (signs : key.SignsWith scheme) (signs' : key.SignsWith scheme') :
    scheme = scheme' := by
  cases signs <;> cases signs' <;> rfl

theorem Log.schemeOf_eq_ok_iff : Log.schemeOf key = .ok scheme ↔ key.SignsWith scheme := by
  constructor
  · intro signs
    cases key with
    | rsa modulus exponent =>
      rw [schemeOf] at signs
      split at signs
      · cases signs
      next long =>
        obtain rfl := Except.ok.inj signs
        exact .rsa (Nat.not_lt.1 long)
    | elliptic parameters point =>
      obtain rfl := Except.ok.inj signs
      exact .elliptic
    | other kind => cases signs
  · rintro (long | _)
    · exact if_neg (Nat.not_lt.2 long)
    · rfl

/-- The small key is one on P-256. -/
theorem SubjectKey.readKey_small : Suite.standard.readKey small.write =
    some (.elliptic Oid.p256.write small.key.bytes, []) := by decide +kernel

/-! ## Listings -/

/-- What is asked of a listing by itself: time to merge, exactly one key, which a log may sign with,
and no other id than that of the key. -/
structure Listing.Usable (suite : Suite) (l : Listing) : Prop where
  mergeDelay : 0 < l.mergeDelay.micros.toInt
  key : ∃ key scheme, suite.readKey l.key = some (key, []) ∧ key.SignsWith scheme
  logId : l.logId = [] ∨ l.logId = (suite.digest l.key).bytes

/-- Whether a log is the one that a listing describes. -/
structure Listing.Describes (suite : Suite) (l : Listing) (log : Log) : Prop where
  id : log.id = suite.digest l.key
  key : suite.readKey l.key = some (log.key, [])
  hash : log.hash = .sha256
  scheme : log.key.SignsWith log.scheme
  description : log.description = l.description
  url : log.url = l.url
  mergeDelay : log.mergeDelay = l.mergeDelay

theorem Listing.exists_describes (read : suite.readKey l.key = some (key, []))
    (signs : key.SignsWith scheme) : ∃ log, l.Describes suite log :=
  ⟨{ id := suite.digest l.key, key, hash := .sha256, scheme, description := l.description,
     url := l.url, mergeDelay := l.mergeDelay, hash_hashes := rfl },
    ⟨rfl, read, rfl, signs, rfl, rfl, rfl⟩⟩

theorem Log.create_eq_ok_iff :
    create suite l = .ok log ↔ 0 < l.mergeDelay.micros.toInt ∧ l.Describes suite log := by
  have delay : l.mergeDelay ≤ .zero ↔ ¬ 0 < l.mergeDelay.micros.toInt := by
    rw [Int.not_lt]
    exact Int64.le_iff_toInt_le
  unfold create
  simp only [delay]
  constructor
  · intro created
    split at created
    · cases created
    next positive =>
    split at created
    next key read =>
      cases signs : schemeOf key with
      | error fault =>
        rw [signs] at created
        cases created
      | ok scheme =>
        rw [signs] at created
        obtain rfl := Except.ok.inj created
        exact ⟨not_not.1 positive,
          ⟨rfl, read, rfl, schemeOf_eq_ok_iff.1 signs, rfl, rfl, rfl⟩⟩
    · cases created
  · rintro ⟨positive, described⟩
    obtain ⟨id, key, hash, scheme, description, url, mergeDelay, _⟩ := log
    obtain ⟨id_eq, read, hash_eq, signs, description_eq, url_eq, mergeDelay_eq⟩ := described
    dsimp only at *
    subst id_eq hash_eq description_eq url_eq mergeDelay_eq
    rw [if_neg (not_not.2 positive), read]
    simp only [schemeOf_eq_ok_iff.2 signs]
    rfl

theorem Listing.usable_iff :
    l.Usable suite ↔ (∃ log, Log.create suite l = .ok log) ∧
      (l.logId = [] ∨ l.logId = (suite.digest l.key).bytes) := by
  simp only [Log.create_eq_ok_iff]
  constructor
  · rintro ⟨positive, ⟨key, scheme, read, signs⟩, logId⟩
    obtain ⟨log, described⟩ := Listing.exists_describes read signs
    exact ⟨⟨log, positive, described⟩, logId⟩
  · rintro ⟨⟨log, positive, described⟩, logId⟩
    exact ⟨positive, ⟨log.key, log.scheme, described.key, described.scheme⟩, logId⟩

theorem Listing.Usable.create_eq_ok_iff (usable : l.Usable suite) :
    Log.create suite l = .ok log ↔ l.Describes suite log := by
  rw [Log.create_eq_ok_iff]
  exact and_iff_right usable.mergeDelay

namespace Registry

variable {r r' : Registry} {q : Bytes}

/-! ## Finding and inserting -/

theorem nodup_ids (r : Registry) : (r.logs.map (·.id)).Nodup := by
  refine List.pairwise_map.2 (r.ordered.imp fun {a b} less same => ?_)
  rw [same] at less
  exact List.lt_irrefl _ less

theorem find?_eq_some_iff : r.find? q = some log ↔ log ∈ r.logs ∧ log.id.bytes = q := by
  constructor
  · intro found
    exact ⟨List.mem_of_find?_eq_some found, id_of_find? found⟩
  · rintro ⟨member, rfl⟩
    cases found : r.find? log.id.bytes with
    | none => simpa using List.find?_eq_none.1 found log member
    | some other =>
      have same : other.id = log.id := Digest.ext_bytes (id_of_find? found)
      rw [List.inj_on_of_nodup_map r.nodup_ids (List.mem_of_find?_eq_some found) member same]

/-- Logs in the order of their ids are told by which they are. -/
theorem eq_of_mem_iff (same : ∀ log, log ∈ r.logs ↔ log ∈ r'.logs) : r = r' := by
  obtain ⟨logs, ordered⟩ := r
  obtain ⟨logs', ordered'⟩ := r'
  have asymm : Std.Antisymm fun a b : Log => a.id.bytes < b.id.bytes :=
    ⟨fun _ _ less greater => absurd greater (List.lt_asymm less)⟩
  have irrefl : Std.Irrefl fun a b : Log => a.id.bytes < b.id.bytes :=
    ⟨fun _ => List.lt_irrefl _⟩
  obtain rfl : logs = logs' := ordered.eq_of_mem_iff ordered' same
  rfl

theorem length_insertById (log : Log) (logs : List Log) :
    (insertById log logs).length = logs.length + 1 := by
  induction logs with
  | nil => rfl
  | cons first logs ih =>
    unfold insertById
    split <;> simp [ih]

theorem insert?_eq_some_iff :
    r.insert? log = some r' ↔
      (∀ a ∈ r.logs, a.id ≠ log.id) ∧ r'.logs = insertById log r.logs := by
  have fresh_iff : (r.find? log.id.bytes).isNone ↔ ∀ a ∈ r.logs, a.id ≠ log.id := by
    have same_iff : ∀ a : Log, a.id.bytes = log.id.bytes ↔ a.id = log.id :=
      fun a => ⟨Digest.ext_bytes, fun same => by rw [same]⟩
    simp [find?, same_iff]
  unfold insert?
  rw [← fresh_iff]
  constructor
  · intro inserted
    split at inserted
    next fresh =>
      obtain rfl := Option.some.inj inserted
      exact ⟨fresh, rfl⟩
    · cases inserted
  · rintro ⟨fresh, logs⟩
    rw [dif_pos fresh]
    obtain ⟨_, ordered⟩ := r'
    dsimp only at logs
    subst logs
    rfl

/-! ## Adding listings -/

theorem add_eq_ok_iff :
    add suite r l = .ok (log, r') ↔
      l.Usable suite ∧ l.Describes suite log ∧ r.insert? log = some r' := by
  unfold add
  constructor
  · intro added
    split at added
    · cases added
    next log' created =>
    split at added
    · cases added
    next declared =>
    split at added
    · cases added
    next r'' inserted =>
    obtain ⟨rfl, rfl⟩ := Prod.mk.inj (Except.ok.inj added)
    have described := (Log.create_eq_ok_iff.1 created).2
    refine ⟨Listing.usable_iff.2 ⟨⟨_, created⟩, ?_⟩, described, inserted⟩
    rw [← described.id]
    by_cases empty : l.logId = []
    · exact .inl empty
    · exact .inr (by simpa [empty] using declared)
  · rintro ⟨usable, described, inserted⟩
    have declared : l.logId = [] ∨ l.logId = log.id.bytes := described.id ▸ usable.logId
    rw [usable.create_eq_ok_iff.2 described]
    rcases declared with declared | declared <;> simp [declared, inserted]

theorem exists_add_iff :
    (∃ log r', add suite r l = .ok (log, r')) ↔
      l.Usable suite ∧ ∀ log ∈ r.logs, log.id ≠ suite.digest l.key := by
  simp only [add_eq_ok_iff, insert?_eq_some_iff]
  constructor
  · rintro ⟨log, r', usable, described, fresh, -⟩
    exact ⟨usable, described.id ▸ fresh⟩
  · rintro ⟨usable, fresh⟩
    obtain ⟨key, scheme, read, signs⟩ := usable.key
    obtain ⟨log, described⟩ := Listing.exists_describes read signs
    rw [← described.id] at fresh
    exact ⟨log, ⟨insertById log r.logs, ordered_insertById r.ordered fun a member same =>
      fresh a member (Digest.ext_bytes same)⟩, usable, described, fresh, rfl⟩

theorem extend_cons_of_ok (added : add suite r l = .ok (log, r')) (listings : List Listing) :
    (extend suite r (l :: listings)).2 = (extend suite r' listings).2 := by
  simp [extend, added]

/-- What is asked of a list of logs. -/
structure Acceptable (suite : Suite) (listings : List Listing) : Prop where
  usable : ∀ l ∈ listings, l.Usable suite
  distinct : (listings.map fun l => suite.digest l.key).Nodup

theorem acceptable_cons_iff :
    Acceptable suite (l :: listings) ↔
      l.Usable suite ∧ (∀ l' ∈ listings, suite.digest l.key ≠ suite.digest l'.key) ∧
        Acceptable suite listings := by
  constructor
  · rintro ⟨usable, distinct⟩
    obtain ⟨first, rest⟩ := List.forall_mem_cons.1 usable
    obtain ⟨apart, nodup⟩ := List.nodup_cons.1 distinct
    refine ⟨first, fun l' member same => apart ?_, rest, nodup⟩
    exact List.mem_map.2 ⟨l', member, same.symm⟩
  · rintro ⟨first, apart, rest, nodup⟩
    refine ⟨List.forall_mem_cons.2 ⟨first, rest⟩, List.nodup_cons.2 ⟨fun member => ?_, nodup⟩⟩
    obtain ⟨l', member, same⟩ := List.mem_map.1 member
    exact apart l' member same.symm

theorem Acceptable.of_perm {other : List Listing} (acceptable : Acceptable suite listings)
    (perm : listings.Perm other) : Acceptable suite other :=
  ⟨fun l member => acceptable.usable l (perm.mem_iff.2 member),
    (perm.map _).nodup_iff.1 acceptable.distinct⟩

/-- Listings can be added just if they are acceptable and none has the id of a log that is there. -/
theorem exists_extend_iff :
    (∃ r', (extend suite r listings).2 = .ok r') ↔
      Acceptable suite listings ∧ ∀ l ∈ listings, ∀ log ∈ r.logs, log.id ≠ suite.digest l.key := by
  induction listings generalizing r with
  | nil =>
    refine iff_of_true ⟨r, rfl⟩ ⟨⟨?_, List.nodup_nil⟩, ?_⟩ <;> simp
  | cons l listings ih =>
    cases added : add suite r l with
    | error fault =>
      refine iff_of_false ?_ fun ⟨acceptable, fresh⟩ => ?_
      · simp [extend, added]
      · obtain ⟨log, r', ok⟩ := exists_add_iff.2
          ⟨acceptable.usable l List.mem_cons_self, fresh l List.mem_cons_self⟩
        cases added.symm.trans ok
    | ok grown =>
      obtain ⟨log, r₁⟩ := grown
      obtain ⟨usable, described, inserted⟩ := add_eq_ok_iff.1 added
      obtain ⟨fresh, logs⟩ := insert?_eq_some_iff.1 inserted
      rw [described.id] at fresh
      rw [extend_cons_of_ok added, ih, acceptable_cons_iff, List.forall_mem_cons]
      simp only [logs, mem_insertById, forall_eq_or_imp, described.id, forall_and]
      tauto

/-- What adding listings leaves: the logs that were there and one for each listing. -/
theorem extend_eq_ok (extended : (extend suite r listings).2 = .ok r') :
    r'.size = r.size + listings.length ∧
      ∀ log, log ∈ r'.logs ↔ log ∈ r.logs ∨ ∃ l ∈ listings, l.Describes suite log := by
  induction listings generalizing r with
  | nil =>
    obtain rfl := Except.ok.inj extended
    simp
  | cons l listings ih =>
    cases added : add suite r l with
    | error fault => simp [extend, added] at extended
    | ok grown =>
      obtain ⟨log, r₁⟩ := grown
      obtain ⟨usable, described, inserted⟩ := add_eq_ok_iff.1 added
      obtain ⟨-, logs⟩ := insert?_eq_some_iff.1 inserted
      have only : ∀ log', l.Describes suite log' ↔ log' = log := by
        intro log'
        have created := usable.create_eq_ok_iff.2 described
        rw [← usable.create_eq_ok_iff, created]
        exact ⟨fun same => (Except.ok.inj same).symm, fun same => same ▸ rfl⟩
      obtain ⟨size, mem⟩ := ih (extend_cons_of_ok added listings ▸ extended)
      refine ⟨?_, fun log' => ?_⟩
      · simp only [Registry.size, logs, length_insertById, List.length_cons] at size ⊢
        omega
      · simp only [mem, logs, mem_insertById, List.exists_mem_cons_iff, only]
        tauto

/-! ## Whole lists -/

theorem create_of_extend (extended : (extend suite {} listings).2 = .ok r) :
    (create suite listings).code = .ok ∧ (create suite listings).registry = some r := by
  unfold create
  split
  next same => simpa [same] using extended
  next same => simp [same] at extended

theorem create_of_not_acceptable (faulty : ¬ Acceptable suite listings) :
    (create suite listings).code = .invalidLogList ∧
      (create suite listings).registry = none := by
  unfold create
  split
  next notes r same =>
    have extended : (extend suite {} listings).2 = .ok r := by rw [same]
    exact absurd (exists_extend_iff.1 ⟨r, extended⟩).1 faulty
  next => exact ⟨rfl, rfl⟩

/-- What a registry of a list holds. -/
structure Indexes (suite : Suite) (listings : List Listing) (r : Registry) : Prop where
  size_eq : r.size = listings.length
  ordered : r.logs.Pairwise fun a b => a.id.bytes < b.id.bytes
  mem_iff : ∀ log, log ∈ r.logs ↔ ∃ l ∈ listings, l.Describes suite log
  isSome_find?_iff : ∀ q, (r.find? q).isSome ↔ ∃ l ∈ listings, (suite.digest l.key).bytes = q
  describes : ∀ q log, r.find? q = some log → log.id.bytes = q ∧
    ∀ l ∈ listings, (suite.digest l.key).bytes = q → l.Describes suite log

theorem Acceptable.exists_indexes (acceptable : Acceptable suite listings) :
    ∃ r, (create suite listings).code = .ok ∧ (create suite listings).registry = some r ∧
      Indexes suite listings r := by
  obtain ⟨r, extended⟩ :=
    (exists_extend_iff (r := {})).2 ⟨acceptable, fun _ _ _ member => absurd member List.not_mem_nil⟩
  obtain ⟨code, registry⟩ := create_of_extend extended
  obtain ⟨size, mem⟩ := extend_eq_ok extended
  have mem_iff : ∀ log, log ∈ r.logs ↔ ∃ l ∈ listings, l.Describes suite log := by
    simpa using mem
  refine ⟨r, code, registry, by simpa [Registry.size] using size, r.ordered, mem_iff, ?_, ?_⟩
  · intro q
    constructor
    · intro some
      obtain ⟨log, found⟩ := Option.isSome_iff_exists.1 some
      obtain ⟨member, rfl⟩ := find?_eq_some_iff.1 found
      obtain ⟨l, listed, described⟩ := (mem_iff log).1 member
      exact ⟨l, listed, by rw [described.id]⟩
    · rintro ⟨l, listed, rfl⟩
      obtain ⟨key, scheme, read, signs⟩ := (acceptable.usable l listed).key
      obtain ⟨log, described⟩ := Listing.exists_describes read signs
      have found : r.find? (suite.digest l.key).bytes = some log :=
        find?_eq_some_iff.2 ⟨(mem_iff log).2 ⟨l, listed, described⟩, by rw [described.id]⟩
      rw [found, Option.isSome_some]
  · intro q log found
    obtain ⟨member, rfl⟩ := find?_eq_some_iff.1 found
    obtain ⟨l, listed, described⟩ := (mem_iff log).1 member
    refine ⟨rfl, fun l' listed' same => ?_⟩
    have keys : suite.digest l'.key = suite.digest l.key := by rw [← described.id, Digest.ext_bytes same]
    rwa [List.inj_on_of_nodup_map acceptable.distinct listed' listed keys]

theorem indexes_of_create (built : (create suite listings).registry = some r) :
    Indexes suite listings r := by
  by_cases acceptable : Acceptable suite listings
  · obtain ⟨r', -, registry, indexes⟩ := acceptable.exists_indexes
    obtain rfl := Option.some.inj (built.symm.trans registry)
    exact indexes
  · rw [(create_of_not_acceptable acceptable).2] at built
    cases built

/-- Which lists make a registry, what it then holds, and that the order of the list is no matter. -/
theorem create_indexes (suite : Suite) (listings : List Listing) :
    ((create suite listings).code = .ok ↔ Acceptable suite listings) ∧
      (Acceptable suite listings →
        ∃ r, (create suite listings).registry = some r ∧ Indexes suite listings r) ∧
      (¬ Acceptable suite listings →
        (create suite listings).code = .invalidLogList ∧
          (create suite listings).registry = none) ∧
      ∀ other, listings.Perm other →
        (create suite other).code = (create suite listings).code ∧
          (create suite other).registry = (create suite listings).registry := by
  refine ⟨⟨fun code => ?_, fun acceptable => ?_⟩, fun acceptable => ?_, create_of_not_acceptable,
    fun other perm => ?_⟩
  · by_contra faulty
    rw [(create_of_not_acceptable faulty).1] at code
    cases code
  · obtain ⟨_, code, -⟩ := acceptable.exists_indexes
    exact code
  · obtain ⟨r, -, registry, indexes⟩ := acceptable.exists_indexes
    exact ⟨r, registry, indexes⟩
  · by_cases acceptable : Acceptable suite listings
    · obtain ⟨r, code, registry, indexes⟩ := acceptable.exists_indexes
      obtain ⟨r', code', registry', indexes'⟩ := (acceptable.of_perm perm).exists_indexes
      obtain rfl : r' = r := eq_of_mem_iff fun log => by
        simp only [indexes.mem_iff, indexes'.mem_iff, perm.mem_iff]
      exact ⟨code'.trans code.symm, registry'.trans registry.symm⟩
    · have faulty' : ¬ Acceptable suite other := fun acceptable' =>
        acceptable (acceptable'.of_perm perm.symm)
      obtain ⟨code, registry⟩ := create_of_not_acceptable acceptable
      obtain ⟨code', registry'⟩ := create_of_not_acceptable faulty'
      exact ⟨code'.trans code.symm, registry'.trans registry.symm⟩

/-- Two logs with keys on different curves, the one with the greater id first. Only the second
listing declares its id. -/
theorem create_indexes_two_curves :
    let suite : Suite :=
      { Suite.standard with digest := fun bytes => ⟨List.replicate 32 (.ofNat bytes.length), rfl⟩ }
    let key : SubjectKey := .ofPoint .p521 <| Bytes.bigEndian 133
      0x040067ddbbac376b551fffc5f0e56f2222ae7bfbb59f1977a89cf99c383e028d6fe9ea674188e18e8199d41695569d922ca17226804d24421b4b0439b16daf7f31b37f0036a106d8dfd0ea4e5eff4720f6eaffcffe00e4e656fe41c217f3edbe0030f7daade5c9e5d82796c4d7037a813cc56e607eb57541e5c7742900f992f03aabcf290d
    let first : Listing := { key := key.write, description := "P-521", mergeDelay := .ofHours 24 }
    let second : Listing :=
      { key := SubjectKey.small.write, description := "P-256", mergeDelay := .longest
        logId := List.replicate 32 91 }
    Acceptable suite [first, second] ∧ [first, second].Perm [second, first] ∧
      ∃ r, (create suite [first, second]).registry = some r ∧ Indexes suite [first, second] r ∧
        (create suite [second, first]).registry = some r ∧
          r.logs.map (·.description) = ["P-256", "P-521"] := by
  intro suite key first second
  have read : suite.readKey first.key = some (.elliptic Oid.p521.write key.key.bytes, []) := by
    decide +kernel
  have usable₁ : first.Usable suite := ⟨by decide, ⟨_, _, read, .elliptic⟩, .inl rfl⟩
  have usable₂ : second.Usable suite :=
    ⟨by decide, ⟨_, _, SubjectKey.readKey_small, .elliptic⟩, .inr (by decide +kernel)⟩
  have acceptable : Acceptable suite [first, second] :=
    ⟨List.forall_mem_cons.2 ⟨usable₁, List.forall_mem_singleton.2 usable₂⟩, by decide +kernel⟩
  have perm : [first, second].Perm [second, first] := .swap _ _ _
  obtain ⟨-, indexed, -, permuted⟩ := create_indexes suite [first, second]
  obtain ⟨r, registry, indexes⟩ := indexed acceptable
  have order : (create suite [first, second]).registry.map (·.logs.map (·.description)) =
      some ["P-256", "P-521"] := by decide +kernel
  rw [registry] at order
  exact ⟨acceptable, perm, r, registry, indexes, (permuted _ perm).2.trans registry,
    Option.some.inj order⟩

end Registry

end Transparency
