import Mathlib.Control.Monad.Basic
import Transparency.Proofs.Certificate.Entries
import Transparency.Proofs.Wire.Intake

/-!
# Building leaves in place

A leaf is made up apart and replaces the one that is there once it is whole. The entry of a marked
certificate is cleared before anything is looked at and filled in after everything was. So wherever
building stops, a leaf is left as it was and an entry is left empty.
-/
namespace Transparency

open Wire (bind_of_ok bind_of_error)

namespace Filling

variable {ε α : Type} {part : Filling ε α Unit} {made : Except ε α} {start left : α}

/-- Whether a part stores what is made, or what `otherwise` keeps of the prior value if making it
fails. -/
def Stores (part : Filling ε α Unit) (made : Except ε α) (otherwise : α → α) : Prop :=
  ∀ prior, part prior = (made.map fun _ => (), (store (otherwise prior) made.toOption).value)

/-- Whether a part stores a `whole` value that owes nothing to the prior one, or fails and leaves
what `otherwise` keeps of that. -/
structure WholeOr (part : Filling ε α Unit) (made : Except ε α) (whole : α → Prop)
    (otherwise : α → α) : Prop where
  failure : ∀ prior fault left, part prior = (.error fault, left) →
    left = otherwise prior ∧ made = .error fault
  success : ∀ prior left, part prior = (.ok (), left) →
    made = .ok left ∧ whole left ∧ ∀ prior', part prior' = (.ok (), left)

theorem stores_staged (ends : part start = (made.map fun _ => (), left))
    (whole : ∀ a, made = .ok a → left = a) : Stores (staged start part) made id := by
  intro prior
  have ran : part.run.run start = (made.map fun _ => (), left) := ends
  rw [staged, ran]
  cases made with
  | error fault => rfl
  | ok a => rw [whole a rfl]; rfl

theorem Stores.wholeOr {otherwise : α → α} {whole : α → Prop}
    (stores : Stores part made otherwise) (good : ∀ a, made = .ok a → whole a) :
    WholeOr part made whole otherwise := by
  cases made with
  | error fault =>
    refine ⟨fun prior fault' left fails => ?_, fun prior left ends => ?_⟩
    · obtain ⟨same, rfl⟩ := Prod.mk.inj ((stores prior).symm.trans fails)
      exact ⟨rfl, congrArg Except.error (Except.error.inj same)⟩
    · cases (Prod.mk.inj ((stores prior).symm.trans ends)).1
  | ok a =>
    refine ⟨fun prior fault left fails => ?_, fun prior left ends => ?_⟩
    · cases (Prod.mk.inj ((stores prior).symm.trans fails)).1
    · obtain ⟨-, rfl⟩ := Prod.mk.inj ((stores prior).symm.trans ends)
      exact ⟨rfl, good _ rfl, stores⟩

end Filling

open Filling (Stores WholeOr)

/-! ## Entries -/

namespace Entry

variable {codec : Codec} {entry : Entry} {digest : Bytes → Digest} {marker : Marker}
  {certificate issuer : Bytes}

/-- Whether an entry is of a kind, and the fields that its kind does not select are empty. -/
structure OnlyOf (k : EntryKind) (e : Entry) : Prop where
  kind : e.kind = k
  certificate : k = .precertificate → e.certificate = []
  issuerKeyHash : k = .certificate → e.issuerKeyHash = .zero
  body : k = .certificate → e.body = []

/-- The entry of a certificate as it was presented, or the one reason why there is none. -/
def presented (certificate : Bytes) : Except Unit Entry :=
  (ofPresented? certificate).elim (.error ()) .ok

theorem stores_fillPresented (certificate : Bytes) :
    Stores (fillPresented certificate) (presented certificate) id := by
  intro prior
  cases certificate <;> rfl

theorem onlyOf_of_presented (made : presented certificate = .ok entry) :
    entry.OnlyOf .certificate := by
  cases certificate with
  | nil => cases made
  | cons byte bytes =>
    rw [← Except.ok.inj made]
    exact ⟨rfl, by simp, fun _ => rfl, fun _ => rfl⟩

/-- Whatever is held is cleared, and stays so at each place where making fails. -/
theorem stores_fillMarked (codec : Codec) (digest : Bytes → Digest) (marker : Marker)
    (certificate issuer : Bytes) :
    Stores (fillMarked codec digest marker certificate issuer)
      (ofMarked codec digest marker certificate issuer) fun _ => {} := by
  intro prior
  have cleared : (set ({} : Entry) : Filling Fault Entry PUnit) prior = (.ok ⟨⟩, {}) := rfl
  rw [fillMarked, ofMarked, bind_of_ok cleared]
  cases unmarkedBody codec marker certificate with
  | error fault => rfl
  | ok body => cases hashIssuerKey codec digest issuer <;> rfl

theorem onlyOf_of_ofMarked (made : ofMarked codec digest marker certificate issuer = .ok entry) :
    entry.OnlyOf .precertificate := by
  obtain ⟨body, hash, -, -, rfl⟩ := ofMarked_eq_ok_iff.1 made
  exact ⟨rfl, fun _ => rfl, by simp, by simp⟩

end Entry

/-! ## Leaves -/

namespace Leaf

variable {ε : Type} {kind : EntryKind} {timestamp : Instant} {part : Filling ε Entry Unit}
  {made : Except ε Entry}

/-- Whether a leaf has a time, no extensions, and an entry that is only of one kind. -/
structure Fresh (kind : EntryKind) (timestamp : Instant) (leaf : Leaf) : Prop where
  timestamp : leaf.timestamp = timestamp
  extensions : leaf.extensions = []
  entry : leaf.entry.OnlyOf kind

/-- Whether a part puts a leaf in place of the one that is there if it is made, and only fresh ones
are made. -/
structure Builds (kind : EntryKind) (timestamp : Instant) (part : Filling Fault Leaf Unit)
    (made : Except Fault Leaf) : Prop where
  stores : Stores part made id
  fresh : ∀ leaf, made = .ok leaf → leaf.Fresh kind timestamp

/-- The leaf with an entry, if that is made. -/
def around (wrap : ε → Fault) (timestamp : Instant) (made : Except ε Entry) : Except Fault Leaf :=
  (made.mapError wrap).map fun entry => { entry, timestamp }

theorem around_ofMarked (timestamp : Instant) (made : Except Entry.Fault Entry) :
    around .entry timestamp made = ofEntry timestamp made := by
  cases made <;> rfl

theorem around_presented (codec : Codec) (digest : Bytes → Digest) (certificate : Bytes)
    (issuers : List Bytes) (timestamp : Instant) :
    around (fun _ => .emptyCertificate) timestamp (Entry.presented certificate) =
      ofChain codec digest (certificate :: issuers) .certificate timestamp := by
  cases certificate <;> rfl

theorem builds_of_fails {building : Filling Fault Leaf Unit} {fault : Fault}
    (fails : ∀ prior, building prior = (.error fault, prior)) :
    Builds kind timestamp building (.error fault) :=
  ⟨fails, fun leaf none => by cases none⟩

/-- The entry is filled in while the leaf is still apart, so what is left of it is of no account. -/
theorem builds_staged_fillEntry {otherwise : Entry → Entry} (stores : Stores part made otherwise)
    (only : ∀ entry, made = .ok entry → entry.OnlyOf kind) (wrap : ε → Fault)
    (timestamp : Instant) :
    Builds kind timestamp
      (Filling.staged {} do
        fillEntry wrap part
        modify fun leaf => { leaf with timestamp })
      (around wrap timestamp made) := by
  have filled := stores {}
  cases made with
  | error fault =>
    have first : fillEntry wrap part {} = (.error (wrap fault), { entry := otherwise {} }) := by
      rw [fillEntry, filled]
      rfl
    refine ⟨?_, fun leaf none => by cases none⟩
    exact Filling.stores_staged (bind_of_error first _) fun a none => by cases none
  | ok entry =>
    have first : fillEntry wrap part {} = (.ok (), { entry }) := by
      rw [fillEntry, filled]
      rfl
    refine ⟨?_, fun leaf same => ?_⟩
    · exact Filling.stores_staged (bind_of_ok first _) fun a same => Except.ok.inj same
    · rw [← Except.ok.inj same]
      exact ⟨rfl, rfl, only entry rfl⟩

theorem builds_fillFromChain (codec : Codec) (digest : Bytes → Digest) (chain : List Bytes) (kind : EntryKind)
    (timestamp : Instant) :
    Builds kind timestamp (fillFromChain codec digest chain kind timestamp)
      (ofChain codec digest chain kind timestamp) := by
  cases chain with
  | nil => cases kind <;> exact builds_of_fails fun prior => rfl
  | cons certificate issuers =>
    cases kind with
    | certificate =>
      rw [← around_presented]
      exact builds_staged_fillEntry (Entry.stores_fillPresented certificate)
        (fun entry => Entry.onlyOf_of_presented) _ timestamp
    | precertificate =>
      cases issuers with
      | nil => exact builds_of_fails fun prior => rfl
      | cons issuer _ =>
        rw [ofChain, ← around_ofMarked]
        exact builds_staged_fillEntry (Entry.stores_fillMarked codec digest _ _ _)
          (fun entry => Entry.onlyOf_of_ofMarked) _ timestamp

theorem builds_fillForEmbedded (codec : Codec) (digest : Bytes → Digest) (chain : List Bytes)
    (timestamp : Instant) :
    Builds .precertificate timestamp (fillForEmbedded codec digest chain timestamp)
      (ofEmbedded codec digest chain timestamp) := by
  cases chain with
  | nil => exact builds_of_fails fun prior => rfl
  | cons certificate issuers =>
    cases issuers with
    | nil => exact builds_of_fails fun prior => rfl
    | cons issuer _ =>
      rw [ofEmbedded, ← around_ofMarked]
      exact builds_staged_fillEntry (Entry.stores_fillMarked codec digest _ _ _)
        (fun entry => Entry.onlyOf_of_ofMarked) _ timestamp

theorem Builds.wholeOr {building : Filling Fault Leaf Unit} {built : Except Fault Leaf}
    (builds : Builds kind timestamp building built) :
    WholeOr building built (Fresh kind timestamp) id :=
  builds.stores.wholeOr builds.fresh

end Leaf

/-- A leaf is replaced by a whole one, which owes nothing to it, or is left as it was. An entry is
filled in likewise, or is left empty. -/
theorem fill_whole_or_nothing (codec : Codec) (digest : Bytes → Digest) (chain : List Bytes)
    (timestamp : Instant) :
    (∀ kind, WholeOr (Leaf.fillFromChain codec digest chain kind timestamp)
      (Leaf.ofChain codec digest chain kind timestamp) (Leaf.Fresh kind timestamp) id) ∧
    WholeOr (Leaf.fillForEmbedded codec digest chain timestamp)
      (Leaf.ofEmbedded codec digest chain timestamp) (Leaf.Fresh .precertificate timestamp) id ∧
    ∀ marker certificate issuer, WholeOr (Entry.fillMarked codec digest marker certificate issuer)
      (Entry.ofMarked codec digest marker certificate issuer) (Entry.OnlyOf .precertificate)
      fun _ => {} := by
  refine ⟨fun kind => ?_, ?_, fun marker certificate issuer => ?_⟩
  · exact (Leaf.builds_fillFromChain codec digest chain kind timestamp).wholeOr
  · exact (Leaf.builds_fillForEmbedded codec digest chain timestamp).wholeOr
  · exact (Entry.stores_fillMarked codec digest marker certificate issuer).wholeOr fun _ =>
      Entry.onlyOf_of_ofMarked

/-- The certificate is marked and read, and its issuer, cut off before its last byte, is not. -/
theorem fill_whole_or_nothing_unissued :
    let digest : Bytes → Digest := fun _ => .zero
    let bs := (Certificate.small [.timestamps [0, 0]]).write
    let prior : Leaf :=
      { entry := { certificate := bs }, timestamp := .ofMillis 1338508800000, extensions := [4] }
    (∃ left, Leaf.fillForEmbedded .standard digest [bs, bs.dropLast] .epoch prior =
        (.error (.entry (.issuer .unreadable)), left) ∧ left = prior) ∧
      (∃ left, Leaf.fillForEmbedded .standard digest [bs, bs] .epoch prior = (.ok (), left) ∧
        left.Fresh .precertificate .epoch) ∧
      ∃ left, Entry.fillMarked .standard digest .timestampList bs bs.dropLast prior.entry =
        (.error (.issuer .unreadable), left) ∧ left = {} := by
  intro digest bs prior
  have unissued : Entry.ofMarked .standard digest .timestampList bs bs.dropLast =
      .error (.issuer .unreadable) := by decide +kernel
  have issued : Entry.ofMarked .standard digest .timestampList bs bs =
      .ok { kind := .precertificate, body := (CertificateBody.small []).write } := by
    decide +kernel
  have fails := (Leaf.builds_fillForEmbedded .standard digest [bs, bs.dropLast] .epoch).stores prior
  have ends := (Leaf.builds_fillForEmbedded .standard digest [bs, bs] .epoch).stores prior
  have cleared := Entry.stores_fillMarked .standard digest .timestampList bs bs.dropLast prior.entry
  rw [Leaf.ofEmbedded, unissued] at fails
  rw [Leaf.ofEmbedded, issued] at ends
  rw [unissued] at cleared
  obtain ⟨-, kept, entries⟩ := fill_whole_or_nothing .standard digest [bs, bs.dropLast] .epoch
  obtain ⟨-, built, -⟩ := fill_whole_or_nothing .standard digest [bs, bs] .epoch
  exact ⟨⟨_, fails, (kept.failure _ _ _ fails).1⟩, ⟨_, ends, (built.success _ _ ends).2.1⟩,
    ⟨_, cleared, ((entries _ _ _).failure _ _ _ cleared).1⟩⟩

end Transparency
