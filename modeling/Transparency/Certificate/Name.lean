import Transparency.Ber.Value
import Transparency.Codec
import Transparency.Text.Unicode

/-!
# Distinguished names

A name is a list of sets of attributes. It is kept as it was read, since it is written again byte
for byte; its attributes are kept in the order in which they stand. A bit string, a sequence and
values of unknown types have no text. The length of a name is limited.
-/
namespace Transparency

structure Name where
  bytes : Bytes
  attributes : List Attribute
deriving DecidableEq, Inhabited

namespace Name

/-- The characters of a text with the given tag; a missing text is one that cannot be read. -/
def characters? (tag : Ber.Tag) (contents : Bytes) : Option (List Char) :=
  if tag = .utf8String then Unicode.ofUtf8? contents
  else if tag = .bmpString then Unicode.ofPairs? contents
  else if tag = .universalString then Unicode.ofQuads? contents
  else some (Unicode.ofBytes contents)

def isText (tag : Ber.Tag) : Bool :=
  [.utf8String, .numericString, .printableString, .t61String, .ia5String, .universalString,
    .bmpString].contains tag

/-- Universal types that may stand in a name and have no text. -/
def isTextless (tag : Ber.Tag) : Bool :=
  [3, 7, 8, 9, 11, 13, 14, 15, 16, 29].contains tag.number && tag.cls = .universal

/-- Reads the value of an attribute as its text, if its type has one. -/
def readValue : Ber.Reader (Option String) := fun bs => do
  let (h, inner) ← Ber.readHeader? bs
  if isText h.tag then
    let (contents, rest) ← Ber.stringContents h inner
    return (some (String.ofList (← characters? h.tag contents)), rest)
  else if isTextless h.tag then (AnyValue.read bs).map fun (_, rest) => (none, rest)
  else none

def readAttribute : Ber.Reader Attribute :=
  Ber.sequence fun bs => do
    let (kind, bs) ← Oid.read bs
    let (text, bs) ← readValue bs
    return (⟨kind, text⟩, bs)

/-- The most bytes that a name may take. -/
def longest : Nat := 1048576

def read : Ber.Reader Name := fun bs => do
  let reader := Ber.listOf .sequence (Ber.listOf .set readAttribute)
  let ((bytes, sets), _) ← Ber.withBytes reader (bs.take longest)
  return (⟨bytes, sets.flatten⟩, bs.drop bytes.length)

end Name

end Transparency
