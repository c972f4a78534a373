import Transparency.Ber.Reader
import Transparency.Der
import Transparency.Oid

/-!
# Values

Contents of the types that certificates are made of. What is written again is what was read, except
that bits which a bit string does not use are cleared.
-/
namespace Transparency

/-- Whether contents are an integer in the fewest bytes, of either sign. -/
def Ber.isInteger : Bytes → Bool
  | [] => false
  | [_] => true
  | 0 :: b :: _ => 0x80 ≤ b
  | 0xff :: b :: _ => b < 0x80
  | _ => true

/-- Reads the contents of an integer. -/
def Ber.integer : Ber.Reader Bytes := fun bs => do
  let (contents, rest) ← Ber.primitive .integer bs
  if Ber.isInteger contents then some (contents, rest) else none

/-- Reads a truth value as its byte. -/
def Ber.boolean : Ber.Reader UInt8 := fun bs => do
  match ← Ber.primitive .boolean bs with
  | ([b], rest) => some (b, rest)
  | _ => none

/-! ## Bit strings -/

structure BitString where
  /-- How many bits of the last byte are not used. -/
  unused : UInt8
  bytes : Bytes
deriving DecidableEq, Inhabited

namespace BitString

/-- Clears the low `n` bits of the last byte. -/
def clear (n : UInt8) : Bytes → Bytes
  | [] => []
  | [b] => [b &&& (0xff <<< n)]
  | b :: bs => b :: clear n bs

def ofContents? : Bytes → Option BitString
  | [] => none
  | unused :: bs => if unused ≤ 7 then some ⟨unused, clear unused bs⟩ else none

def contents (s : BitString) : Bytes :=
  if s.bytes.isEmpty then [0] else s.unused :: s.bytes

/-- Reads a bit string with the given tag. -/
def read (tag : Ber.Tag) : Ber.Reader BitString := fun bs => do
  let (contents, rest) ← Ber.string tag bs
  return (← ofContents? contents, rest)

def write (tag : Ber.Tag) (s : BitString) : Bytes := Der.primitive tag s.contents

end BitString

/-! ## Values of any type -/

/-- A value whose type is told by its tag. -/
inductive AnyValue
  /-- Contents that are written under their tag. -/
  | primitive (tag : Ber.Tag) (contents : Bytes)
  /-- An element that is written as it was read. -/
  | element (bytes : Bytes)
deriving DecidableEq, Inhabited

namespace AnyValue

/-- The contents of a primitive type as they are written, if they are well formed. -/
def contents? (tag : Ber.Tag) (contents : Bytes) : Option Bytes :=
  if tag = .boolean then if contents.length = 1 then some contents else none
  else if tag = .null then if contents.isEmpty then some contents else none
  else if tag = .integer ∨ tag = .enumerated then
    if Ber.isInteger contents then some contents else none
  else if tag = .objectId then if Oid.isWellFormed contents then some contents else none
  else if tag = .bitString then (BitString.ofContents? contents).map (·.contents)
  else if tag = .bmpString then if contents.length % 2 = 0 then some contents else none
  else if tag = .universalString then if contents.length % 4 = 0 then some contents else none
  else some contents

/-- The types that cannot be sent in pieces. -/
def isAtomic (tag : Ber.Tag) : Bool :=
  tag = .boolean || tag = .null || tag = .integer || tag = .enumerated || tag = .objectId

/-- Reads one value. Elements of other classes, sequences and sets are taken as they stand. -/
def read : Ber.Reader AnyValue := fun bs =>
  if Ber.atEnd bs then none
  else do
    let (h, inner) ← Ber.readHeader? bs
    if h.tag.cls ≠ .universal then
      (Ber.raw bs).map fun (bytes, rest) => (element bytes, rest)
    else if h.tag = .sequence ∨ h.tag = .set then
      if h.constructed then (Ber.raw bs).map fun (bytes, rest) => (element bytes, rest) else none
    else if h.constructed && isAtomic h.tag then none
    else
      let (contents, rest) ← Ber.stringContents h inner
      return (primitive h.tag (← contents? h.tag contents), rest)

/-- Reads a value unless the input ends. -/
def readOptional : Ber.Reader (Option AnyValue) := fun bs =>
  if Ber.atEnd bs then some (none, bs)
  else (read bs).map fun (value, rest) => (some value, rest)

def write : AnyValue → Bytes
  | primitive tag contents => Der.primitive tag contents
  | element bytes => bytes

end AnyValue

end Transparency
