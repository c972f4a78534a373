import Transparency.Certificate.Codec
import Transparency.Proofs.Ber.Pieces

/-!
# Certificates among other bytes

A certificate and each of its parts is taken the same whatever follows, as long as something does.
So the body of a certificate does not change when its bytes are put between others, as they are in a
copy.
-/
namespace Transparency

open Ber

/-! ## Names -/

namespace Name

def readValueAt (seen : Glance) : Ber.Reader (Option String) :=
  match seen.header with
  | none => fun _ => none
  | some h =>
    if isText h.tag then fun bs => do
      let ((h, contents), rest) ← headed bs
      return (some (String.ofList (← characters? h.tag contents)), rest)
    else if isTextless h.tag then fun bs => (AnyValue.read bs).map fun (_, rest) => (none, rest)
    else fun _ => none

theorem readValue_eq : readValue = fun bs => readValueAt (glance bs) bs := by
  funext bs
  rw [readValue, readValueAt, glance]
  cases header : readHeader? bs with
  | none => rfl
  | some found =>
    obtain ⟨h, inner⟩ := found
    simp only [Option.bind_eq_bind, Option.bind_some, Option.map_some]
    split
    · simp only [headed, header, Option.bind_eq_bind, Option.bind_some]
      cases stringContents h inner <;> rfl
    · split <;> rfl

theorem framed_readValue : Framed readValue := by
  rw [readValue_eq]
  refine framed_byGlance readValueAt fun seen => ?_
  unfold readValueAt
  split
  · exact framed_none
  split
  · refine framed_headed.of_iff
      (fun x text => ∃ chars, characters? x.1.tag x.2 = some chars ∧ some (String.ofList chars) = text)
      fun bs text rest => ?_
    simp [Option.bind_eq_some_iff]
  split
  · exact AnyValue.framed_read.map fun _ => none
  · exact framed_none

theorem framed_readAttribute : Framed readAttribute := by
  refine framed_sequence (.bind Oid.framed_read.local fun kind => ?_)
  exact .bind framed_readValue.local fun text => local_pure _

theorem framed_read : Framed read := by
  intro bs name rest found
  obtain ⟨⟨⟨bytes, sets⟩, cut⟩, list, same⟩ := Option.bind_eq_some_iff.1 found
  obtain ⟨rfl, rfl⟩ := Prod.mk.inj (Option.some.inj same)
  have framed := framed_listOf .sequence (framed_listOf .set framed_readAttribute)
  obtain ⟨parts, h, two, again⟩ := framed.of_withBytes list
  have short : bytes.length ≤ longest := by
    have length := congrArg List.length parts
    rw [List.length_take, List.length_append] at length
    omega
  -- The limit cuts only what follows the name.
  have limited : ∀ rest : Bytes, (bytes ++ rest).take longest =
      bytes ++ rest.take (longest - bytes.length) := fun rest => by
    rw [List.take_append, List.take_of_length_le short]
  obtain ⟨rest, rfl⟩ : ∃ rest, bs = bytes ++ rest := by
    have front := congrArg (List.take bytes.length) parts
    rw [List.take_take, Nat.min_eq_left short, List.take_left] at front
    exact ⟨_, (List.take_append_drop bytes.length bs).symm.trans (congrArg (· ++ _) front)⟩
  rw [limited, List.append_cancel_left_eq] at parts
  rw [List.drop_left]
  refine ⟨bytes, h, two, rfl, fun rest' goesOn => ?_⟩
  have goesOn' : rest'.take (longest - bytes.length) = [] → cut = [] := by
    rw [← parts, List.take_eq_nil_iff, List.take_eq_nil_iff]
    exact Or.imp_right goesOn
  obtain ⟨list', inner, header⟩ := again _ goesOn'
  constructor
  · simp [read, limited, withBytes, list']
  · have header' := readHeader?_append header (rest'.drop (longest - bytes.length))
    rw [List.append_assoc, List.take_append_drop] at header'
    exact ⟨_, header'⟩

end Name

/-! ## Certificates -/

theorem Algorithm.framed_read : Framed read := by
  refine framed_sequence (.bind Oid.framed_read.local fun id => ?_)
  exact .bind AnyValue.local_readOptional fun parameters => local_pure _

theorem SubjectKey.framed_read : Framed read := by
  refine framed_sequence (.bind Algorithm.framed_read.local fun algorithm => ?_)
  refine .bind (BitString.framed_read _).local fun key => ?_
  dsimp only
  by_cases text : algorithm.id.text?.isSome = true
  · simpa only [if_pos text] using local_pure _
  · simpa only [if_neg text] using local_none

theorem Moment.framed_read : Framed read := by
  refine framed_headed.of_iff
    (fun x m => (x.1.tag = .utcTime ∨ x.1.tag = .generalizedTime) ∧ ⟨x.1.tag, x.2⟩ = m)
    fun bs m rest => ?_
  constructor
  · intro found
    obtain ⟨⟨h, inner⟩, header, contents⟩ := Option.bind_eq_some_iff.1 found
    dsimp only at contents
    split at contents
    · next type =>
      obtain ⟨⟨bytes, rest₀⟩, string, same⟩ := Option.map_eq_some_iff.1 contents
      obtain ⟨made, rfl⟩ := Prod.mk.inj same
      exact ⟨(h, bytes), headed_eq_some_iff.2 ⟨inner, header, string⟩, type, made⟩
    · cases contents
  · rintro ⟨⟨h, bytes⟩, found, type, rfl⟩
    obtain ⟨inner, header, contents⟩ := headed_eq_some_iff.1 found
    simp [read, header, type, contents]

theorem Extension.framed_read : Framed read := by
  refine framed_sequence (.bind Oid.framed_read.local fun id => ?_)
  refine .bind (local_optional _ framed_boolean) fun critical => ?_
  exact .bind (framed_string _).local fun value => local_pure _

theorem CertificateBody.framed_read : Framed read := by
  have version := local_optional (.context 0) (framed_constructed (.context 0) framed_integer.local)
  have extensions := local_optional (.context 3)
    (framed_constructed (.context 3) (framed_listOf .sequence Extension.framed_read).local)
  have id (n : Nat) := local_optional (.context n) (BitString.framed_read (.context n))
  refine framed_sequence (.bind version fun version => ?_)
  refine .bind framed_integer.local fun serial => ?_
  refine .bind Algorithm.framed_read.local fun algorithm => ?_
  refine .bind Name.framed_read.local fun issuer => ?_
  refine .bind (Framed.local (framed_sequence (.bind Moment.framed_read.local fun notBefore =>
    .bind Moment.framed_read.local fun notAfter => local_pure _))) fun times => ?_
  refine .bind Name.framed_read.local fun subject => ?_
  refine .bind SubjectKey.framed_read.local fun key => ?_
  refine .bind (id 1) fun issuerId => ?_
  refine .bind (id 2) fun subjectId => ?_
  exact .bind extensions fun extensions => local_pure _

theorem Certificate.framed_read : Framed read := by
  refine framed_sequence (.bind CertificateBody.framed_read.withBytes.local fun body => ?_)
  refine .bind Algorithm.framed_read.local fun algorithm => ?_
  exact .bind (BitString.framed_read _).local fun signature => local_pure _

namespace Certificate

variable {bs more rest : Bytes} {c : Certificate}

/-- Reads the contents of a certificate. -/
def readParts : Ber.Reader Certificate := fun bs => do
  let ((signed, body), bs) ← withBytes CertificateBody.read bs
  let (algorithm, bs) ← Algorithm.read bs
  let (signature, bs) ← BitString.read .bitString bs
  return ({ body, signed, algorithm, signature }, bs)

theorem read_eq : read = Ber.sequence readParts := rfl

theorem withBytes_of_readParts {rest : Bytes} (found : readParts bs = some (c, rest)) :
    ∃ later, withBytes CertificateBody.read bs = some ((c.signed, c.body), later) := by
  obtain ⟨⟨⟨signed, body⟩, later⟩, readBody, found⟩ := Option.bind_eq_some_iff.1 found
  obtain ⟨⟨algorithm, later'⟩, -, found⟩ := Option.bind_eq_some_iff.1 found
  obtain ⟨⟨signature, left⟩, -, same⟩ := Option.bind_eq_some_iff.1 found
  obtain ⟨rfl, -⟩ := Prod.mk.inj (Option.some.inj same)
  exact ⟨later, readBody⟩

/-- The bytes that are signed tell the body by themselves, as long as something follows. -/
theorem read_signed (found : read bs = some (c, rest)) (nonempty : more ≠ []) :
    CertificateBody.read (c.signed ++ more) = some (c.body, more) := by
  rw [read_eq] at found
  obtain ⟨inner, left, parts⟩ := exists_contents found
  obtain ⟨later, body⟩ := withBytes_of_readParts parts
  obtain ⟨-, _, -, again⟩ := CertificateBody.framed_read.of_withBytes body
  exact (again more fun none => absurd none nonempty).1

theorem readBelow_eq_some_iff :
    readBelow bs = some (c, rest) ↔ bs.length < lengthLimit ∧ read bs = some (c, rest) := by
  by_cases short : bs.length < lengthLimit <;> simp [readBelow, short]

/-- What is copied is the body that was read, even if it is not written from its values. -/
theorem body_copy? {copy : Certificate} (found : readBelow bs = some (c, rest))
    (copied : c.copy? = some copy) : copy.body = c.body := by
  obtain ⟨⟨_, left⟩, readAgain, rfl⟩ := Option.map_eq_some_iff.1 copied
  obtain ⟨short, again⟩ := readBelow_eq_some_iff.1 readAgain
  rw [read_eq] at again
  obtain ⟨later, body⟩ := withBytes_of_readParts (contents_of_element (by decide) short again)
  have nonempty : [c.algorithm.write, c.signature.write .bitString].flatten ≠ [] := by
    have positive := Der.length_contents_lt .sequence true
      [c.algorithm.id.write, (c.algorithm.parameters.map AnyValue.write).getD []].flatten
    have written : c.algorithm.write ≠ [] := List.length_pos_iff.1 (Nat.zero_lt_of_lt positive)
    simp [written]
  rw [List.flatten_cons, withBytes, read_signed (readBelow_eq_some_iff.1 found).2 nonempty] at body
  exact (Prod.mk.inj (Prod.mk.inj (Option.some.inj body)).1).2.symm

theorem readsElement_readBelow : ReadsElement readBelow :=
  framed_read.readsElement.of_reads fun _ c _ found => ⟨c, (readBelow_eq_some_iff.1 found).2⟩

end Certificate

end Transparency
