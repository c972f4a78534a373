import Transparency.Ber.Reader
import Transparency.Der

/-!
# Object identifiers

An identifier is kept as its contents: arcs in groups of seven bits, the first two arcs in one
number. Identifiers of more than 586 bytes have no text.
-/
namespace Transparency

structure Oid where
  contents : Bytes
deriving DecidableEq, Inhabited

namespace Oid

/-- Whether contents are arcs, each without leading zero groups. -/
def isWellFormed (contents : Bytes) : Bool :=
  contents.getLastD 0x80 < 0x80 && starts contents
where
  /-- Whether no arc starts with an empty group. -/
  starts : Bytes → Bool
    | [] => true
    | b :: bs => b ≠ 0x80 && within b bs
  within (before : UInt8) : Bytes → Bool
    | [] => true
    | b :: bs => (b ≠ 0x80 || 0x80 ≤ before) && within b bs

def ofContents? (contents : Bytes) : Option Oid :=
  if isWellFormed contents then some ⟨contents⟩ else none

def read : Ber.Reader Oid := fun bs => do
  let (contents, rest) ← Ber.primitive .objectId bs
  return (← ofContents? contents, rest)

def write (oid : Oid) : Bytes := Der.primitive .objectId oid.contents

/-- The identifier `first.second.rest…`. -/
def ofArcs (first second : Nat) (rest : List Nat) : Oid :=
  ⟨((first * 40 + second) :: rest).flatMap fun arc => Ber.Tag.groups arc []⟩

/-! ## Text -/

/-- The numbers that the groups spell, the first arcs joined. -/
def numbers (n : Nat) : Bytes → List Nat
  | [] => []
  | b :: bs =>
    let n := n * 128 + (b &&& 0x7f).toNat
    if b < 0x80 then n :: numbers 0 bs else numbers n bs

/-- Splits the first number; second arcs are below 40 unless the first arc is 2. -/
def arcs (oid : Oid) : List Nat :=
  match numbers 0 oid.contents with
  | [] => []
  | n :: rest => if n < 40 then 0 :: n :: rest else if n < 80 then 1 :: (n - 40) :: rest
    else 2 :: (n - 80) :: rest

/-- The longest contents that have a text. -/
def longestText : Nat := 586

def text? (oid : Oid) : Option String :=
  if oid.contents.length ≤ longestText then
    some (String.intercalate "." (oid.arcs.map toString))
  else none

/-! ## Registered identifiers -/

def commonName : Oid := ofArcs 2 5 [4, 3]
def locality : Oid := ofArcs 2 5 [4, 7]
def province : Oid := ofArcs 2 5 [4, 8]
def organization : Oid := ofArcs 2 5 [4, 10]
def organizationalUnit : Oid := ofArcs 2 5 [4, 11]
def postalCode : Oid := ofArcs 2 5 [4, 17]
def certificatePolicies : Oid := ofArcs 2 5 [29, 32]
def practiceStatement : Oid := ofArcs 1 3 [6, 1, 5, 5, 7, 2, 1]
def userNotice : Oid := ofArcs 1 3 [6, 1, 5, 5, 7, 2, 2]
/-- The extension that carries a list of timestamps. -/
def timestampList : Oid := ofArcs 1 3 [6, 1, 4, 1, 11129, 2, 4, 2]
/-- The extension that marks a precertificate. -/
def poison : Oid := ofArcs 1 3 [6, 1, 4, 1, 11129, 2, 4, 3]
/-- An older identifier of RSA. -/
def rsa : Oid := ofArcs 2 5 [8, 1, 1]
def rsaEncryption : Oid := ofArcs 1 2 [840, 113549, 1, 1, 1]
def rsaPss : Oid := ofArcs 1 2 [840, 113549, 1, 1, 10]
def ecPublicKey : Oid := ofArcs 1 2 [840, 10045, 2, 1]
def p256 : Oid := ofArcs 1 2 [840, 10045, 3, 1, 7]
def p384 : Oid := ofArcs 1 3 [132, 0, 34]
def p521 : Oid := ofArcs 1 3 [132, 0, 35]
def secp256k1 : Oid := ofArcs 1 3 [132, 0, 10]
def x25519 : Oid := ofArcs 1 3 [101, 110]
def x448 : Oid := ofArcs 1 3 [101, 111]
def ed25519 : Oid := ofArcs 1 3 [101, 112]
def ed448 : Oid := ofArcs 1 3 [101, 113]

end Oid

end Transparency
