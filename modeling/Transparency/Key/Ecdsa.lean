import Transparency.Ber.Reader
import Transparency.Der
import Transparency.Digest
import Transparency.Key.Curve

/-!
# ECDSA

A signature is a sequence of two positive integers below the order of the curve, in the one form
that writing gives it.
-/
namespace Transparency.Ecdsa

/-- A natural number as an integer, which has a sign bit. -/
def writeNatural (n : Nat) : Bytes :=
  let digits := Der.digits n []
  Der.primitive .integer (if digits.headD 0x80 < 0x80 then digits else 0 :: digits)

def write (r s : Nat) : Bytes := Der.sequence [writeNatural r, writeNatural s]

def read? (signature : Bytes) : Option (Nat × Nat) := do
  let ((r, s), _) ← Ber.sequence (fun bs => do
    let (r, bs) ← Ber.primitive .integer bs
    let (s, bs) ← Ber.primitive .integer bs
    return ((Bytes.toNat r, Bytes.toNat s), bs)) signature
  if write r s = signature then some (r, s) else none

/-- The leading bits of a digest, no more than the order has. -/
def challenge (c : Curve) (d : Digest) : Nat :=
  Bytes.toNat d.bytes / 2 ^ (256 - (c.order.log2 + 1))

def verifies (c : Curve) (key : Point) (d : Digest) (signature : Bytes) : Bool :=
  match read? signature with
  | none => false
  | some (r, s) =>
    if 0 < r && r < c.order && 0 < s && s < c.order then
      let w := Modular.inverse s c.order
      let u := challenge c d * w % c.order
      let v := r * w % c.order
      match ((Point.base c).scale c u |>.add c (key.scale c v)).x? c with
      | none => false
      | some x => x % c.order = r
    else false

end Transparency.Ecdsa
