import Transparency.Certificate.Reader
import Transparency.Proofs.Certificate.Name

/-!
# Certificates that are read again

A certificate all of whose parts are in their one form, and that is written with the bytes of its
body, is read as it was. Names, lengths and the identifier of the key's algorithm have to keep
within what can be read.
-/
namespace Transparency

open Ber (Tag Reads ReadsItem IsElement Lacks lengthLimit)

/-! ## Parts -/

structure Algorithm.Canonical (a : Algorithm) : Prop where
  id : Oid.isWellFormed a.id.contents = true
  parameters : ∀ value ∈ a.parameters, value.Canonical

theorem Algorithm.Canonical.reads {a : Algorithm} (canonical : a.Canonical)
    (short : a.write.length < lengthLimit) : Reads read a.write a := by
  have id := Oid.reads canonical.id (Der.length_lt_of_mem short (by simp))
  have parameters := AnyValue.readOptional_getD canonical.parameters
    (Der.length_lt_of_mem short (by simp))
  refine Ber.reads_sequence short ?_
  simp [id ((a.parameters.map AnyValue.write).getD []), parameters]

/-- A key whose algorithm has a text, which is asked for when it is read. -/
structure SubjectKey.Canonical (k : SubjectKey) : Prop where
  algorithm : k.algorithm.Canonical
  text : k.algorithm.id.contents.length ≤ Oid.longestText
  key : k.key.Canonical

theorem SubjectKey.Canonical.reads {k : SubjectKey} (canonical : k.Canonical)
    (short : k.write.length < lengthLimit) : Reads read k.write k := by
  have algorithm := canonical.algorithm.reads (Der.length_lt_of_mem short (by simp))
  have key := canonical.key.reads .bitString (by decide) (Der.length_lt_of_mem short (by simp))
  have text : k.algorithm.id.text?.isSome = true := by simp [Oid.text?, canonical.text]
  refine Ber.reads_sequence short ?_
  simp [algorithm (k.key.write .bitString), key.eq_some, text]

/-- A key on a curve with a name. -/
def SubjectKey.ofPoint (curve : Oid) (point : Bytes) : SubjectKey :=
  ⟨⟨.ecPublicKey, some (.primitive .objectId curve.contents)⟩, ⟨0, point⟩⟩

theorem SubjectKey.canonical_ofPoint {curve : Oid}
    (formed : Oid.isWellFormed curve.contents = true) (point : Bytes) :
    (ofPoint curve point).Canonical := by
  have named : Oid.isWellFormed Oid.ecPublicKey.contents = true := by decide +kernel
  have short : Oid.ecPublicKey.contents.length ≤ Oid.longestText := by decide +kernel
  refine ⟨⟨named, fun value member => ?_⟩, short, BitString.canonical_whole point⟩
  obtain rfl := Option.mem_some_iff.1 member
  exact .primitive rfl (by decide) (by decide) (.inl (by decide)) (if_pos formed)

/-- A time under one of its two tags. -/
def Moment.Canonical (m : Moment) : Prop := m.tag = .utcTime ∨ m.tag = .generalizedTime

theorem Moment.Canonical.reads {m : Moment} (canonical : m.Canonical)
    (short : m.write.length < lengthLimit) : Reads read m.write m := by
  have readable : m.tag.number < Tag.limit := by
    obtain tag | tag := canonical <;> rw [tag] <;> decide
  intro rest
  have header := Ber.readHeader?_element readable short rest
  have tag : m.tag = .utcTime ∨ m.tag = .generalizedTime := canonical
  simp [read, write, Der.primitive, header, tag, Ber.stringContents_append]

theorem Extension.readsItem {e : Extension} (formed : Oid.isWellFormed e.id.contents = true)
    (short : e.write.length < lengthLimit) : ReadsItem read e.write e where
  reads := by
    have id := Oid.reads formed (Der.length_lt_of_mem short (by simp))
    have element : IsElement .octetString (Der.primitive .octetString e.value) :=
      ⟨by decide, Der.length_lt_of_mem short (by simp), false, e.value, rfl⟩
    have value := Ber.reads_string (by decide) element.short
    have critical : Ber.optional .boolean Ber.boolean
        ((e.critical.map fun b => Der.primitive .boolean [b]).getD [] ++
          Der.primitive .octetString e.value) =
        some (e.critical, Der.primitive .octetString e.value) := by
      refine Ber.optional_getD (fun b _ => ⟨Ber.isElement_boolean b, Ber.reads_boolean b⟩) ?_
      simpa using Lacks.other element (by decide) []
    refine Ber.reads_sequence short ?_
    simp only [List.flatten_cons, List.flatten_nil, List.append_nil, id _, Option.bind_eq_bind,
      Option.bind_some, critical, value.eq_some]
    rfl
  goes_on := Ber.atEnd_element (by decide) short (.inl (by decide))

/-! ## Bodies -/

namespace CertificateBody

/-- A body all of whose parts are in their one form. -/
structure Canonical (b : CertificateBody) : Prop where
  version : ∀ version ∈ b.version, Ber.isInteger version = true
  serial : Ber.isInteger b.serial = true
  algorithm : b.algorithm.Canonical
  issuer : b.issuer.Canonical
  notBefore : b.notBefore.Canonical
  notAfter : b.notAfter.Canonical
  subject : b.subject.Canonical
  key : b.key.Canonical
  issuerId : ∀ id ∈ b.issuerId, id.Canonical
  subjectId : ∀ id ∈ b.subjectId, id.Canonical
  extensions : ∀ e ∈ b.extensions, Oid.isWellFormed e.id.contents = true

theorem optional_version {version : Option Bytes}
    (formed : ∀ contents ∈ version, Ber.isInteger contents = true)
    (short : ((version.map writeVersion).getD []).length < lengthLimit) {rest : Bytes}
    (lacks : Lacks (.context 0) rest) :
    Ber.optional (.context 0) (Ber.constructed (.context 0) Ber.integer)
      ((version.map writeVersion).getD [] ++ rest) = some (version, rest) := by
  refine Ber.optional_getD ?_ lacks
  rintro contents rfl
  have written : (writeVersion contents).length < lengthLimit := short
  have integer := Ber.reads_integer (formed contents rfl) (Der.length_lt_of_mem written (by simp))
  refine ⟨⟨by decide, written, true, _, rfl⟩, Ber.reads_constructed (by decide) written ?_⟩
  simpa using integer.eq_some

theorem isElement_writeExtensions {extensions : List Extension} (nonempty : extensions ≠ [])
    (short : (writeExtensions extensions).length < lengthLimit) :
    IsElement (.context 3) (writeExtensions extensions) := by
  refine ⟨by decide, short, true, [Der.sequence (extensions.map (·.write))].flatten, ?_⟩
  rw [writeExtensions, if_neg (by simpa using nonempty)]
  rfl

theorem lacks_writeExtensions {extensions : List Extension} {tag : Tag} (differs : tag ≠ .context 3)
    (short : (writeExtensions extensions).length < lengthLimit) :
    Lacks tag (writeExtensions extensions) := by
  by_cases empty : extensions = []
  · rw [empty]
    exact .nil
  · simpa using Lacks.other (isElement_writeExtensions empty short) differs.symm []

theorem reads_extensions {extensions : List Extension} (nonempty : extensions ≠ [])
    (formed : ∀ e ∈ extensions, Oid.isWellFormed e.id.contents = true)
    (short : (writeExtensions extensions).length < lengthLimit) :
    Reads (Ber.constructed (.context 3) (Ber.listOf .sequence Extension.read))
      (writeExtensions extensions) extensions := by
  rw [writeExtensions, if_neg (by simpa using nonempty)] at short ⊢
  have inner : (Der.sequence (extensions.map (·.write))).length < lengthLimit :=
    Der.length_lt_of_mem short (by simp)
  have items : List.Forall₂ (ReadsItem Extension.read) (extensions.map (·.write))
      (extensions.map id) :=
    ReadsItem.forall₂_map fun e member => Extension.readsItem (formed e member)
      (Der.length_lt_of_mem inner (List.mem_map_of_mem member))
  rw [List.map_id] at items
  refine Ber.reads_constructed (by decide) short ?_
  simp only [List.flatten_cons, List.flatten_nil, List.append_nil]
  exact (Ber.reads_listOf (by decide) inner items).eq_some

/-- No list of extensions stands for an empty one. -/
theorem exists_optional_writeExtensions {extensions : List Extension}
    (formed : ∀ e ∈ extensions, Oid.isWellFormed e.id.contents = true)
    (short : (writeExtensions extensions).length < lengthLimit) :
    ∃ list, Ber.optional (.context 3)
        (Ber.constructed (.context 3) (Ber.listOf .sequence Extension.read))
        (writeExtensions extensions) = some (list, []) ∧ list.getD [] = extensions := by
  by_cases empty : extensions = []
  · rw [empty]
    exact ⟨none, rfl, rfl⟩
  · have element := isElement_writeExtensions empty short
    have read := Ber.optional_of_reads element (reads_extensions empty formed short) []
    rw [List.append_nil] at read
    exact ⟨some extensions, read, rfl⟩

theorem reads_validity {notBefore notAfter : Moment} (before : notBefore.Canonical)
    (after : notAfter.Canonical)
    (short : (Der.sequence [notBefore.write, notAfter.write]).length < lengthLimit) :
    Reads (Ber.sequence fun bs => do
        let (notBefore, bs) ← Moment.read bs
        let (notAfter, bs) ← Moment.read bs
        return ((notBefore, notAfter), bs))
      (Der.sequence [notBefore.write, notAfter.write]) (notBefore, notAfter) := by
  have first := before.reads (Der.length_lt_of_mem short (by simp)) notAfter.write
  have second := (after.reads (Der.length_lt_of_mem short (by simp))).eq_some
  refine Ber.reads_sequence short ?_
  simp [first, second]

theorem isElement_uniqueId {id : Option BitString} {tag : Tag} (readable : tag.number < Tag.limit)
    (short : ((id.map (·.write tag)).getD []).length < lengthLimit) :
    ∀ s ∈ id, IsElement tag (s.write tag) := by
  rintro s rfl
  exact ⟨readable, short, false, s.contents, rfl⟩

theorem optional_uniqueId {id : Option BitString} (canonical : ∀ s ∈ id, s.Canonical) {tag : Tag}
    (readable : tag.number < Tag.limit)
    (short : ((id.map (·.write tag)).getD []).length < lengthLimit) {rest : Bytes}
    (lacks : Lacks tag rest) :
    Ber.optional tag (BitString.read tag) ((id.map (·.write tag)).getD [] ++ rest) =
      some (id, rest) := by
  refine Ber.optional_getD (fun s member => ?_) lacks
  have element := isElement_uniqueId readable short s member
  exact ⟨element, (canonical s member).reads tag readable element.short⟩

theorem Canonical.reads {b : CertificateBody} (canonical : b.Canonical)
    (short : b.write.length < lengthLimit) : Reads read b.write b := by
  have part {x : Bytes} (member : x ∈ [(b.version.map writeVersion).getD [],
      Der.primitive .integer b.serial, b.algorithm.write, b.issuer.bytes,
      Der.sequence [b.notBefore.write, b.notAfter.write], b.subject.bytes, b.key.write,
      (b.issuerId.map (·.write (.context 1))).getD [],
      (b.subjectId.map (·.write (.context 2))).getD [], writeExtensions b.extensions]) :
      x.length < lengthLimit := Der.length_lt_of_mem short member
  have serial := Ber.reads_integer canonical.serial (part (by simp))
  have algorithm := canonical.algorithm.reads (part (by simp))
  have validity := reads_validity canonical.notBefore canonical.notAfter (part (by simp))
  have key := canonical.key.reads (part (by simp))
  have versionShort : ((b.version.map writeVersion).getD []).length < lengthLimit :=
    part (by simp)
  have issuerShort : ((b.issuerId.map (·.write (.context 1))).getD []).length < lengthLimit :=
    part (by simp)
  have subjectShort : ((b.subjectId.map (·.write (.context 2))).getD []).length < lengthLimit :=
    part (by simp)
  have extensionsShort : (writeExtensions b.extensions).length < lengthLimit := part (by simp)
  -- What follows an optional part has another tag, so the part is taken for nothing else.
  have serialElement : IsElement .integer (Der.primitive .integer b.serial) :=
    ⟨by decide, part (by simp), false, b.serial, rfl⟩
  have version (rest : Bytes) := optional_version canonical.version versionShort
    (Lacks.other serialElement (by decide) rest)
  have noIssuerId : Lacks (.context 1) ((b.subjectId.map (·.write (.context 2))).getD [] ++
      writeExtensions b.extensions) :=
    .getD (isElement_uniqueId (by decide) subjectShort) (by decide)
      (lacks_writeExtensions (by decide) extensionsShort)
  have issuerId := optional_uniqueId canonical.issuerId (by decide) issuerShort noIssuerId
  have subjectId := optional_uniqueId canonical.subjectId (by decide) subjectShort
    (lacks_writeExtensions (by decide) extensionsShort)
  obtain ⟨list, extensions, whole⟩ :=
    exists_optional_writeExtensions canonical.extensions extensionsShort
  refine Ber.reads_sequence short ?_
  simp only [List.flatten_cons, List.flatten_nil, List.append_nil]
  simp only [Option.bind_eq_bind] at validity ⊢
  simp only [version, serial _, algorithm _, canonical.issuer.reads _, validity _,
    canonical.subject.reads _, key _, issuerId, subjectId, extensions, whole, Option.bind_some]
  rfl

end CertificateBody

/-! ## Certificates -/

namespace Certificate

/-- A certificate that is written as it was signed, all of whose parts are in their one form. -/
structure Canonical (c : Certificate) : Prop where
  body : c.body.Canonical
  signed : c.signed = c.body.write
  algorithm : c.algorithm.Canonical
  signature : c.signature.Canonical

theorem Canonical.reads {c : Certificate} (canonical : c.Canonical)
    (short : c.write.length < lengthLimit) : Reads read c.write c := by
  have signed := canonical.signed
  have signedShort : c.signed.length < lengthLimit := Der.length_lt_of_mem short (by simp)
  rw [signed] at signedShort
  have body := (canonical.body.reads signedShort).withBytes
  rw [← signed] at body
  have algorithm := canonical.algorithm.reads (Der.length_lt_of_mem short (by simp))
  have signature := canonical.signature.reads .bitString (by decide)
    (Der.length_lt_of_mem short (by simp))
  refine Ber.reads_sequence short ?_
  simp only [List.flatten_cons, List.flatten_nil, List.append_nil, Option.bind_eq_bind, body _,
    algorithm _, signature.eq_some, Option.bind_some]
  rfl

theorem canonical_ofBody {body : CertificateBody} (canonical : body.Canonical)
    {algorithm : Algorithm} (algorithmCanonical : algorithm.Canonical) {signature : BitString}
    (signatureCanonical : signature.Canonical) :
    (ofBody body algorithm signature).Canonical :=
  ⟨canonical, rfl, algorithmCanonical, signatureCanonical⟩

end Certificate

/-! ## A small certificate -/

/-- What is signed with on a curve, over SHA-256. -/
def Algorithm.ecdsa : Algorithm := ⟨.ofArcs 1 2 [840, 10045, 4, 3, 2], none⟩

theorem Algorithm.canonical_ecdsa : ecdsa.Canonical := ⟨by decide +kernel, fun _ none => nomatch none⟩

/-- A signature on P-256. -/
def BitString.small : BitString :=
  ⟨0, Bytes.bigEndian 71 0x30450220606e10ae5c2d5a1b0aed49dc4937f48de71a4e9784e9c208dfbfe9ef536cf7f2022100beb29c72d7d06d61d06bdb38a069469aa86fe12e18bb7cc45689a2c0187ef5a5⟩

/-- A timestamp with that signature, as it is written. -/
def smallSct : Bytes :=
  0 :: Bytes.bigEndian 32 0xdf1c2ec11500945247a96168325ddc5c7959e8f7c6d388fc002e0bbd3f74d764 ++
    Bytes.bigEndian 8 0x13ddb27ded9 ++ [0, 0, 4, 3, 0, 71] ++ BitString.small.bytes

/-- The extension for a list of timestamps, as that is written. -/
def Extension.timestamps (list : Bytes) : Extension :=
  ⟨.timestampList, none, Der.primitive .octetString list⟩

/-- A key on P-256. -/
def SubjectKey.small : SubjectKey :=
  .ofPoint .p256 <| Bytes.bigEndian 65
    0x0499783cb14533c0161a5ab45bf95d08a29cd0ea8dd4c84274e2be59ad15c676960cf0afa1074a57ac644b23479e5b3fb7b245eb4b420ef370210371a944beaceb

/-- A body of a certificate with some extensions. -/
def CertificateBody.small (extensions : List Extension) : CertificateBody where
  version := some [2]
  serial := [7]
  algorithm := .ecdsa
  issuer := .ofPrintables [(.organization, Bytes.ofText "Certificate Transparency CA"),
    (.province, Bytes.ofText "Wales"), (.locality, Bytes.ofText "Erw Wen")]
  notBefore := ⟨.utcTime, Bytes.ofText "120601000000Z"⟩
  notAfter := ⟨.utcTime, Bytes.ofText "220601000000Z"⟩
  subject := .ofPrintables [(.organization, Bytes.ofText "Certificate Transparency"),
    (.commonName, Bytes.ofText "example.com")]
  key := .small
  issuerId := none
  subjectId := none
  extensions := extensions

theorem CertificateBody.canonical_small {extensions : List Extension}
    (formed : ∀ e ∈ extensions, Oid.isWellFormed e.id.contents = true) :
    (small extensions).Canonical where
  version := by simp [small, Ber.isInteger]
  serial := rfl
  algorithm := Algorithm.canonical_ecdsa
  issuer := Name.canonical_ofPrintables (by decide +kernel) (by decide +kernel)
  notBefore := .inl rfl
  notAfter := .inl rfl
  subject := Name.canonical_ofPrintables (by decide +kernel) (by decide +kernel)
  key := SubjectKey.canonical_ofPoint (by decide +kernel) _
  issuerId := by simp [small]
  subjectId := by simp [small]
  extensions := formed

/-- A certificate with some extensions. -/
def Certificate.small (extensions : List Extension) : Certificate :=
  ofBody (.small extensions) .ecdsa .small

theorem Certificate.canonical_small {extensions : List Extension}
    (formed : ∀ e ∈ extensions, Oid.isWellFormed e.id.contents = true) :
    (small extensions).Canonical :=
  canonical_ofBody (CertificateBody.canonical_small formed) Algorithm.canonical_ecdsa
    (BitString.canonical_whole _)

end Transparency
