import Transparency.Key.Reader
import Transparency.Proofs.Certificate.Embedded
import Transparency.Proofs.Registry.Index
import Transparency.Validation

/-!
# Nothing may follow

Whatever takes a certificate takes the whole of its input for one, and a log takes the whole of a
listed key. What reads them is only relied on to tell where they end. So neither is taken with
anything behind it, and no two that are taken differ only in that one of them goes on.
-/
namespace Transparency

variable {codec : Codec} {suite : Suite} {digest : Bytes → Digest} {bs bs' more : Bytes}

theorem Ber.ReadsElement.rest_eq {α : Type} {reader : Ber.Reader α} {a b : α} {rest : Bytes}
    (reads : Ber.ReadsElement reader) (whole : reader bs = some (a, []))
    (goesOn : reader (bs ++ more) = some (b, rest)) : rest = more :=
  reads bs [] a (by rwa [List.append_nil]) more b rest goesOn

/-! ## Certificates -/

theorem Codec.decode_append_ne_ok (reads : Ber.ReadsElement codec.read) {c c' : codec.Object}
    (decoded : codec.decode bs = .ok c) (nonempty : more ≠ []) :
    codec.decode (bs ++ more) ≠ .ok c' := by
  intro decoded'
  exact nonempty (reads.rest_eq (decode_eq_ok_iff.1 decoded).2 (decode_eq_ok_iff.1 decoded').2).symm

theorem Entry.exists_decode_of_ofMarked {marker : Marker} {certificate issuer : Bytes}
    {entry : Entry} (made : ofMarked codec digest marker certificate issuer = .ok entry) :
    (∃ c, codec.decode certificate = .ok c) ∧ ∃ i, codec.decode issuer = .ok i := by
  obtain ⟨body, hash, unmarked, hashed, -⟩ := ofMarked_eq_ok_iff.1 made
  obtain ⟨c, _, _, _, decoded, -⟩ := unmarkedBody_eq_ok_iff.1 unmarked
  obtain ⟨i, _, issued, -⟩ := hashIssuerKey_eq_ok_iff.1 hashed
  exact ⟨⟨c, decoded⟩, i, issued⟩

theorem SubjectInfo.exists_decode_of_read (faultless : (read codec bs).fault = none) :
    ∃ c, codec.decode bs = .ok c := by
  rw [read] at faultless
  split at faultless
  · cases faultless
  next c decoded => exact ⟨c, decoded⟩

/-- What a certificate is given for, with what is given beside it. -/
inductive CertificateUse
  | timestamps
  | entry (marker : Marker) (issuer : Bytes)
  | issuerOf (marker : Marker) (certificate : Bytes)
  | subject

namespace CertificateUse

/-- Whether `bs` are taken as a certificate for that use. -/
def Accepts (codec : Codec) (digest : Bytes → Digest) (bs : Bytes) : CertificateUse → Prop
  | timestamps => ∃ list, codec.timestampList bs = .ok list
  | entry marker issuer => ∃ entry, Entry.ofMarked codec digest marker bs issuer = .ok entry
  | issuerOf marker certificate =>
    ∃ entry, Entry.ofMarked codec digest marker certificate bs = .ok entry
  | subject => (SubjectInfo.read codec bs).fault = none

variable {use use' : CertificateUse}

theorem Accepts.exists_decode (accepted : use.Accepts codec digest bs) :
    ∃ c, codec.decode bs = .ok c := by
  cases use with
  | timestamps =>
    obtain ⟨list, found⟩ := accepted
    obtain ⟨c, _, decoded, -⟩ := Codec.timestampList_eq_ok_iff.1 found
    exact ⟨c, decoded⟩
  | entry marker issuer =>
    obtain ⟨entry, made⟩ := accepted
    exact (Entry.exists_decode_of_ofMarked made).1
  | issuerOf marker certificate =>
    obtain ⟨entry, made⟩ := accepted
    exact (Entry.exists_decode_of_ofMarked made).2
  | subject => exact SubjectInfo.exists_decode_of_read accepted

/-- What is a certificate for one use is with more behind it none for any use. -/
theorem Accepts.not_append (reads : Ber.ReadsElement codec.read)
    (accepted : use.Accepts codec digest bs) (nonempty : more ≠ []) :
    ¬ use'.Accepts codec digest (bs ++ more) := by
  intro accepted'
  obtain ⟨c, decoded⟩ := accepted.exists_decode
  obtain ⟨c', decoded'⟩ := accepted'.exists_decode
  exact Codec.decode_append_ne_ok reads decoded nonempty decoded'

end CertificateUse

/-! ## Keys -/

theorem PublicKey.readsElement_read : Ber.ReadsElement read := by
  refine SubjectKey.framed_read.withBytes.readsElement.of_reads fun bs key rest found => ?_
  obtain ⟨⟨⟨bytes, k⟩, left⟩, framed, found⟩ := Option.bind_eq_some_iff.1 found
  dsimp only at found
  split at found
  · cases found
  · obtain ⟨_, -, same⟩ := Option.bind_eq_some_iff.1 found
    obtain ⟨-, rfl⟩ := Prod.mk.inj (Option.some.inj same)
    exact ⟨_, framed⟩

theorem Log.create_append_ne_ok (reads : Ber.ReadsElement suite.readKey) {l l' : Listing}
    {log log' : Log} (created : create suite l = .ok log) (nonempty : more ≠ [])
    (goesOn : l'.key = l.key ++ more) : create suite l' ≠ .ok log' := by
  intro created'
  have read : suite.readKey l.key = some (log.key, []) := (create_eq_ok_iff.1 created).2.key
  have read' : suite.readKey l'.key = some (log'.key, []) := (create_eq_ok_iff.1 created').2.key
  rw [goesOn] at read'
  exact nonempty (reads.rest_eq read read').symm

/-! ## Both -/

theorem eq_of_prefix (front : bs <+: bs') (ends : ∀ more, more ≠ [] → bs' ≠ bs ++ more) :
    bs = bs' := by
  obtain ⟨more, rfl⟩ := front
  by_cases none : more = []
  · rw [none, List.append_nil]
  · exact absurd rfl (ends more none)

/-- What is taken as a certificate or as the key of a log is not taken with more behind it, and so
is no proper beginning of another one that is. -/
theorem accepted_whole (codec : Codec) (suite : Suite)
    (readsCertificates : Ber.ReadsElement codec.read) (readsKeys : Ber.ReadsElement suite.readKey) :
    (∀ (use : CertificateUse) bs more, use.Accepts codec suite.digest bs → more ≠ [] →
      ∀ use' : CertificateUse, ¬ use'.Accepts codec suite.digest (bs ++ more)) ∧
    (∀ (use use' : CertificateUse) bs bs', use.Accepts codec suite.digest bs →
      use'.Accepts codec suite.digest bs' → bs <+: bs' → bs = bs') ∧
    (∀ l log more, Log.create suite l = .ok log → more ≠ [] →
      ∀ l' log', l'.key = l.key ++ more → Log.create suite l' ≠ .ok log') ∧
    ∀ l log l' log', Log.create suite l = .ok log → Log.create suite l' = .ok log' →
      l.key <+: l'.key → l.key = l'.key := by
  refine ⟨?_, ?_, ?_, ?_⟩
  · intro use bs more accepted nonempty use'
    exact accepted.not_append readsCertificates nonempty
  · intro use use' bs bs' accepted accepted' front
    refine eq_of_prefix front fun more nonempty goesOn => ?_
    exact accepted.not_append readsCertificates nonempty (goesOn ▸ accepted')
  · intro l log more created nonempty l' log' goesOn
    exact Log.create_append_ne_ok readsKeys created nonempty goesOn
  · intro l log l' log' created created' front
    refine eq_of_prefix front fun more nonempty goesOn => ?_
    exact Log.create_append_ne_ok readsKeys created nonempty goesOn created'

/-- A certificate that carries a list serves as its own issuer, and its key is that of a log. Of
both, a single zero byte is too much. -/
theorem accepted_whole_zero :
    let timestamps := Extension.timestamps ([0, 120, 0, 118] ++ smallSct)
    let bs := (Certificate.small [timestamps]).write
    let l : Listing := { key := SubjectKey.small.write, mergeDelay := .ofHours 24 }
    let issued := CertificateUse.issuerOf .timestampList bs
    (Ber.ReadsElement Codec.standard.read ∧ Ber.ReadsElement Suite.standard.readKey ∧
        CertificateUse.timestamps.Accepts .standard Sha256.digest bs ∧
          issued.Accepts .standard Sha256.digest bs ∧ ∃ log, Log.create .standard l = .ok log) ∧
      ¬ issued.Accepts .standard Sha256.digest (bs ++ [0]) ∧
        ∀ log, Log.create .standard { l with key := l.key ++ [0] } ≠ .ok log := by
  intro timestamps bs l issued
  have readsCertificates : Ber.ReadsElement Codec.standard.read := Certificate.readsElement_readBelow
  have readsKeys : Ber.ReadsElement Suite.standard.readKey := PublicKey.readsElement_read
  have listed : CertificateUse.timestamps.Accepts .standard Sha256.digest bs :=
    ⟨[0, 120, 0, 118] ++ smallSct, by decide +kernel⟩
  have accepted : issued.Accepts .standard Sha256.digest bs := by
    obtain ⟨c, decoded⟩ := listed.exists_decode
    have marked : (CertificateBody.small []).Marked .timestampList bs :=
      @CertificateBody.Marked.intro _ .timestampList [] [] timestamps .ecdsa .small rfl rfl
        Algorithm.canonical_ecdsa (BitString.canonical_whole _) (by decide +kernel)
    have unmarked : (CertificateBody.small []).Unmarked := fun e member => nomatch member
    exact ⟨_, Entry.ofMarked_of_marked Codec.faithful_standard Sha256.digest
      (CertificateBody.canonical_small (by simp)) unmarked marked decoded⟩
  obtain ⟨log, described⟩ : ∃ log, l.Describes .standard log :=
    Listing.exists_describes SubjectKey.readKey_small .elliptic
  have created : Log.create .standard l = .ok log := Log.create_eq_ok_iff.2 ⟨by decide, described⟩
  have some : ([0] : Bytes) ≠ [] := by decide
  obtain ⟨certificates, -, keys, -⟩ :=
    accepted_whole .standard .standard readsCertificates readsKeys
  exact ⟨⟨readsCertificates, readsKeys, listed, accepted, log, created⟩,
    certificates _ _ _ listed some _, fun log' => keys _ _ _ created some _ log' rfl⟩

end Transparency
