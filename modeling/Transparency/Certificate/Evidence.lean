import Transparency.Codec
import Transparency.Leaf
import Transparency.Sct.List
import Transparency.Stored

/-!
# Log entries and timestamps of certificates

A final certificate carries its timestamps in an extension, and a precertificate is marked by
another. Without that extension both have the same body, which is what a log signs together with
the key of the issuer.
-/
namespace Transparency

/-! ## Embedded timestamps -/

namespace Codec

inductive ListFault
  | certificate (fault : Fault)
  | absent
  | wrapping
  | list (fault : SctList.Fault)
deriving DecidableEq

/-- The contents of the one octet string in the first extension for timestamps. -/
def timestampList (codec : Codec) (bs : Bytes) : Except ListFault Bytes :=
  match codec.decode bs with
  | .error fault => .error (.certificate fault)
  | .ok c =>
    match codec.extension? c .timestampList with
    | none => .error .absent
    | some value =>
      match codec.octets? value with
      | some (list, []) => .ok list
      | _ => .error .wrapping

/-- The serialized timestamps that a certificate carries. -/
def embeddedScts (codec : Codec) (bs : Bytes) : Except ListFault (List Bytes) :=
  match codec.timestampList bs with
  | .error fault => .error fault
  | .ok list =>
    match SctList.decode list with
    | .error fault => .error (.list fault)
    | .ok scts => .ok scts

/-- Puts the serialized timestamps that a certificate carries in place of those that are held. -/
def collectScts (codec : Codec) (bs : Bytes) : ExceptT ListFault (StateM (List Bytes)) Unit := do
  set ([] : List Bytes)
  let list ← MonadExcept.ofExcept (codec.timestampList bs)
  match (SctList.receive list).run [] with
  | (.ok _, scts) => set scts
  | (.error fault, _) => throw (.list fault)

def ListFault.messages : ListFault → List String
  | certificate fault => fault.message?.toList
  | absent => []
  | wrapping => []
  | list fault => fault.message?.toList ++ ["Malformed embedded SCT list."]

end Codec

/-! ## Log entries -/

/-- The extension that is left out of an entry. -/
inductive Marker
  | timestampList
  | poison
deriving DecidableEq

namespace Marker

def id : Marker → Oid
  | timestampList => .timestampList
  | poison => .poison

def shortName : Marker → String
  | timestampList => "ct_precert_scts"
  | poison => "ct_precert_poison"

end Marker

namespace Entry

/-- Why there is no entry: `uncopied`, `unremoved` and `unwritten` say at which step the extension
could not be taken off. -/
inductive Fault
  | certificate (fault : Codec.Fault)
  | unmarked (marker : Marker)
  | uncopied
  | unremoved
  | unwritten
  | issuer (fault : Codec.Fault)
  | issuerKey
deriving DecidableEq

def Fault.messages : Fault → List String
  | certificate fault => fault.message?.toList
  | unmarked marker => ["Certificate lacks extension " ++ marker.shortName]
  | uncopied | unremoved | unwritten => []
  | issuer fault => fault.message?.toList ++ ["Unable to extract the issuer's public key."]
  | issuerKey => ["Unable to extract the issuer's public key."]

/-- What a step yields, or the reason why it yields nothing. -/
def expect {α : Type} (fault : Fault) : Option α → Except Fault α
  | some a => .ok a
  | none => .error fault

/-- The body of a certificate without its first extension for `marker`, which is looked for in the
certificate and taken off a copy. -/
def unmarkedBody (codec : Codec) (marker : Marker) (certificate : Bytes) : Except Fault Bytes := do
  let c ← (codec.decode certificate).mapError .certificate
  let i ← expect (.unmarked marker) (codec.find? c marker.id)
  let copy ← expect .uncopied (codec.copy? c)
  let left ← expect .unremoved (codec.remove? copy i)
  expect .unwritten (codec.body? left)

def hashIssuerKey (codec : Codec) (digest : Bytes → Digest) (issuer : Bytes) :
    Except Fault Digest := do
  let c ← (codec.decode issuer).mapError .issuer
  let key ← expect .issuerKey (codec.key? c)
  return digest key

/-- The entry for a certificate without its first extension for `marker`. -/
def ofMarked (codec : Codec) (digest : Bytes → Digest) (marker : Marker)
    (certificate issuer : Bytes) : Except Fault Entry := do
  let body ← unmarkedBody codec marker certificate
  let issuerKeyHash ← hashIssuerKey codec digest issuer
  return { kind := .precertificate, issuerKeyHash, body }

/-- Clears an entry, and fills it in for a certificate without its first extension for `marker`
when all that goes into it is there. -/
def fillMarked (codec : Codec) (digest : Bytes → Digest) (marker : Marker)
    (certificate issuer : Bytes) : Filling Fault Entry Unit := do
  set ({} : Entry)
  let body ← MonadExcept.ofExcept (unmarkedBody codec marker certificate)
  let issuerKeyHash ← MonadExcept.ofExcept (hashIssuerKey codec digest issuer)
  modify fun e => { e with kind := .precertificate, body, issuerKeyHash }

end Entry

/-! ## Leaves -/

namespace Leaf

inductive Fault
  | noCertificates
  | emptyCertificate
  | noIssuerForPrecertificate
  | noIssuerForEmbedded (n : Nat)
  | entry (fault : Entry.Fault)
deriving DecidableEq

def Fault.messages : Fault → List String
  | noCertificates => []
  | emptyCertificate => []
  | noIssuerForPrecertificate => ["Precertificate leaf requires the issuer certificate."]
  | noIssuerForEmbedded n =>
    [s!"Embedded SCTs require the issuer certificate, chain has {n} certificate(s)."]
  | entry fault => fault.messages

def ofEntry (timestamp : Instant) (entry : Except Entry.Fault Entry) : Except Fault Leaf :=
  match entry with
  | .ok entry => .ok { entry, timestamp }
  | .error fault => .error (.entry fault)

/-- The leaf for a chain that was submitted to a log, the certificate first and its issuer next. -/
def ofChain (codec : Codec) (digest : Bytes → Digest) (chain : List Bytes) (kind : EntryKind)
    (timestamp : Instant) : Except Fault Leaf :=
  match kind, chain with
  | _, [] => .error .noCertificates
  | .certificate, certificate :: _ =>
    match Entry.ofPresented? certificate with
    | some entry => .ok { entry, timestamp }
    | none => .error .emptyCertificate
  | .precertificate, [_] => .error .noIssuerForPrecertificate
  | .precertificate, certificate :: issuer :: _ =>
    ofEntry timestamp (Entry.ofMarked codec digest .poison certificate issuer)

/-- The leaf for the timestamps that the first certificate carries. -/
def ofEmbedded (codec : Codec) (digest : Bytes → Digest) (chain : List Bytes)
    (timestamp : Instant) : Except Fault Leaf :=
  match chain with
  | certificate :: issuer :: _ =>
    ofEntry timestamp (Entry.ofMarked codec digest .timestampList certificate issuer)
  | chain => .error (.noIssuerForEmbedded chain.length)

/-! ### In place -/

/-- Fills in the entry of a leaf. -/
def fillEntry {ε : Type} (wrap : ε → Fault) (part : Filling ε Entry Unit) :
    Filling Fault Leaf Unit :=
  fun leaf =>
    let (outcome, entry) := part leaf.entry
    (outcome.mapError wrap, { leaf with entry })

/-- Puts the leaf for a chain that was submitted to a log in place of one that is there. -/
def fillFromChain (codec : Codec) (digest : Bytes → Digest) (chain : List Bytes) (kind : EntryKind)
    (timestamp : Instant) : Filling Fault Leaf Unit :=
  match chain with
  | [] => throw .noCertificates
  | certificate :: issuers =>
    Filling.staged {} do
      match kind, issuers with
      | .certificate, _ => fillEntry (fun _ => .emptyCertificate) (Entry.fillPresented certificate)
      | .precertificate, [] => throw .noIssuerForPrecertificate
      | .precertificate, issuer :: _ =>
        fillEntry .entry (Entry.fillMarked codec digest .poison certificate issuer)
      modify fun leaf => { leaf with timestamp }

/-- Puts the leaf for the timestamps of the first certificate in place of one that is there. -/
def fillForEmbedded (codec : Codec) (digest : Bytes → Digest) (chain : List Bytes)
    (timestamp : Instant) : Filling Fault Leaf Unit :=
  match chain with
  | certificate :: issuer :: _ =>
    Filling.staged {} do
      fillEntry .entry (Entry.fillMarked codec digest .timestampList certificate issuer)
      modify fun leaf => { leaf with timestamp }
  | chain => throw (.noIssuerForEmbedded chain.length)

end Leaf

end Transparency
