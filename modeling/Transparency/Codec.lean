import Transparency.Oid

/-!
# Codecs of certificates

Certificates are read, looked into and written again by a codec, and the rest of the library takes
that as a parameter. A codec works on objects of its own. Each of its functions may fail; one that
writes nothing fails as well.
-/
namespace Transparency

/-- A part of a name: what it is, and its text if it has one. -/
structure Attribute where
  kind : Oid
  text : Option String
deriving DecidableEq, Inhabited

/-- What the extension for policies holds, if there is just one. -/
inductive PolicyList
  | absent
  | malformed
  | policies (ids : List Oid)
deriving DecidableEq, Inhabited

structure Codec where
  Object : Type
  /-- Reads a certificate off the front of its input. -/
  read : Bytes → Option (Object × Bytes)
  /-- The place of the first extension with the given identifier. -/
  find? : Object → Oid → Option Nat
  /-- What the extension at a place holds. -/
  value? : Object → Nat → Option Bytes
  /-- Reads an octet string off the front of its input. -/
  octets? : Bytes → Option (Bytes × Bytes)
  copy? : Object → Option Object
  /-- Takes off the extension at a place. -/
  remove? : Object → Nat → Option Object
  /-- Writes the body to be signed from its values. -/
  body? : Object → Option Bytes
  /-- Writes the key. -/
  key? : Object → Option Bytes
  policies : Object → PolicyList
  /-- The dotted form of an identifier. -/
  dotted? : Oid → Option String
  subject? : Object → Option (List Attribute)
  issuer? : Object → Option (List Attribute)

namespace Codec

inductive Fault
  | empty
  | unreadable
deriving DecidableEq

def Fault.message? : Fault → Option String
  | empty => none
  | unreadable => some "Unable to parse certificate."

/-- The certificate that is the whole of `bs`. -/
def decode (codec : Codec) (bs : Bytes) : Except Fault codec.Object :=
  if bs.isEmpty then .error .empty
  else
    match codec.read bs with
    | some (c, []) => .ok c
    | _ => .error .unreadable

/-- The value of the first extension with the given identifier. -/
def extension? (codec : Codec) (c : codec.Object) (id : Oid) : Option Bytes :=
  (codec.find? c id).bind (codec.value? c)

end Codec

end Transparency
