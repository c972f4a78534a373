import Transparency.Bytes
import Transparency.Key.Modular

/-!
# Elliptic curves

Curves `y² = x³ + a x + b` over prime fields whose number of points is prime. Points are added in
Jacobian coordinates, where `(x, y, z)` stands for `(x / z², y / z³)` and `z = 0` for infinity.
-/
namespace Transparency

structure Curve where
  /-- How many bytes a coordinate takes. -/
  width : Nat
  modulus : Nat
  a : Nat
  b : Nat
  baseX : Nat
  baseY : Nat
  order : Nat
deriving DecidableEq, Inhabited

structure Point where
  x : Nat
  y : Nat
  z : Nat
deriving DecidableEq, Inhabited

namespace Curve

def p256 : Curve where
  width := 32
  modulus := 0xffffffff00000001000000000000000000000000ffffffffffffffffffffffff
  a := 0xffffffff00000001000000000000000000000000fffffffffffffffffffffffc
  b := 0x5ac635d8aa3a93e7b3ebbd55769886bc651d06b0cc53b0f63bce3c3e27d2604b
  baseX := 0x6b17d1f2e12c4247f8bce6e563a440f277037d812deb33a0f4a13945d898c296
  baseY := 0x4fe342e2fe1a7f9b8ee7eb4a7c0f9e162bce33576b315ececbb6406837bf51f5
  order := 0xffffffff00000000ffffffffffffffffbce6faada7179e84f3b9cac2fc632551

def p384 : Curve where
  width := 48
  modulus := 0xfffffffffffffffffffffffffffffffffffffffffffffffffffffffffffffffeffffffff0000000000000000ffffffff
  a := 0xfffffffffffffffffffffffffffffffffffffffffffffffffffffffffffffffeffffffff0000000000000000fffffffc
  b := 0xb3312fa7e23ee7e4988e056be3f82d19181d9c6efe8141120314088f5013875ac656398d8a2ed19d2a85c8edd3ec2aef
  baseX := 0xaa87ca22be8b05378eb1c71ef320ad746e1d3b628ba79b9859f741e082542a385502f25dbf55296c3a545e3872760ab7
  baseY := 0x3617de4a96262c6f5d9e98bf9292dc29f8f41dbd289a147ce9da3113b5f0b8c00a60b1ce1d7e819d7a431d7c90ea0e5f
  order := 0xffffffffffffffffffffffffffffffffffffffffffffffffc7634d81f4372ddf581a0db248b0a77aecec196accc52973

def p521 : Curve where
  width := 66
  modulus := 0x1ffffffffffffffffffffffffffffffffffffffffffffffffffffffffffffffffffffffffffffffffffffffffffffffffffffffffffffffffffffffffffffffffff
  a := 0x1fffffffffffffffffffffffffffffffffffffffffffffffffffffffffffffffffffffffffffffffffffffffffffffffffffffffffffffffffffffffffffffffffc
  b := 0x51953eb9618e1c9a1f929a21a0b68540eea2da725b99b315f3b8b489918ef109e156193951ec7e937b1652c0bd3bb1bf073573df883d2c34f1ef451fd46b503f00
  baseX := 0xc6858e06b70404e9cd9e3ecb662395b4429c648139053fb521f828af606b4d3dbaa14b5e77efe75928fe1dc127a2ffa8de3348b3c1856a429bf97e7e31c2e5bd66
  baseY := 0x11839296a789a3bc0045c8a5fb42c7d1bd998f54449579b446817afbd17273e662c97ee72995ef42640c550b9013fad0761353c7086a272c24088be94769fd16650
  order := 0x1fffffffffffffffffffffffffffffffffffffffffffffffffffffffffffffffffa51868783bf2f966b7fcc0148f709a5d03bb5c9b8899c47aebb6fb71e91386409

def secp256k1 : Curve where
  width := 32
  modulus := 0xfffffffffffffffffffffffffffffffffffffffffffffffffffffffefffffc2f
  a := 0
  b := 7
  baseX := 0x79be667ef9dcbbac55a06295ce870b07029bfcdb2dce28d959f2815b16f81798
  baseY := 0x483ada7726a3c4655da4fbfc0e1108a8fd17b448a68554199c47d08ffb10d4b8
  order := 0xfffffffffffffffffffffffffffffffebaaedce6af48a03bbfd25e8cd0364141

end Curve

namespace Point

def infinity : Point := ⟨1, 1, 0⟩

def affine (x y : Nat) : Point := ⟨x, y, 1⟩

def base (c : Curve) : Point := affine c.baseX c.baseY

def double (c : Curve) (p : Point) : Point :=
  let m := c.modulus
  let yy := p.y * p.y % m
  let s := 4 * p.x * yy % m
  let zz := p.z * p.z % m
  let t := (3 * p.x * p.x + c.a * zz * zz) % m
  let x := Modular.sub (t * t) (2 * s) m
  ⟨x, Modular.sub (t * Modular.sub s x m) (8 * yy * yy) m, 2 * p.y * p.z % m⟩

def add (c : Curve) (p q : Point) : Point :=
  if p.z = 0 then q
  else if q.z = 0 then p
  else
    let m := c.modulus
    let pzz := p.z * p.z % m
    let qzz := q.z * q.z % m
    let px := p.x * qzz % m
    let qx := q.x * pzz % m
    let py := p.y * qzz * q.z % m
    let qy := q.y * pzz * p.z % m
    if px = qx then if py = qy then double c p else infinity
    else
      let h := Modular.sub qx px m
      let r := Modular.sub qy py m
      let hh := h * h % m
      let hhh := hh * h % m
      let v := px * hh % m
      let x := Modular.sub (r * r) (hhh + 2 * v) m
      ⟨x, Modular.sub (r * Modular.sub v x m) (py * hhh) m, h * p.z * q.z % m⟩

/-- The sum of `k` times `p`. -/
def scale (c : Curve) (k : Nat) (p : Point) : Point :=
  if k = 0 then infinity
  else
    let twice := double c (scale c (k / 2) p)
    if k % 2 = 0 then twice else add c twice p
termination_by k
decreasing_by omega

/-- The first coordinate, unless the point is infinity. -/
def x? (c : Curve) (p : Point) : Option Nat :=
  if p.z = 0 then none
  else
    let i := Modular.inverse p.z c.modulus
    some (p.x * (i * i % c.modulus) % c.modulus)

end Point

namespace Curve

/-- The right side of the equation at `x`. -/
def cubic (c : Curve) (x : Nat) : Nat := (x * x * x + c.a * x + c.b) % c.modulus

def contains (c : Curve) (x y : Nat) : Bool :=
  x < c.modulus && y < c.modulus && y * y % c.modulus = c.cubic x

/-- The point at `x` whose second coordinate has the given parity. The moduli are three modulo
four, so that a root is a power. -/
def lift? (c : Curve) (odd : Bool) (x : Nat) : Option Point :=
  let root := Modular.pow (c.cubic x) ((c.modulus + 1) / 4) c.modulus
  let y := if (root % 2 = 1) = odd then root else c.modulus - root
  if c.contains x y then some (.affine x y) else none

/-- Reads a point: infinity is a zero byte, and a first byte tells the form of all others. A form
with both coordinates may also tell the parity of the second, which then has to match. -/
def point? (c : Curve) : Bytes → Option Point
  | [] => none
  | form :: bs =>
    let x := Bytes.toNat (bs.take c.width)
    let y := Bytes.toNat (bs.drop c.width)
    let whole := bs.length = 2 * c.width && c.contains x y
    match form with
    | 0 => if bs.isEmpty then some .infinity else none
    | 2 => if bs.length = c.width then c.lift? false x else none
    | 3 => if bs.length = c.width then c.lift? true x else none
    | 4 => if whole then some (.affine x y) else none
    | 6 => if whole && y % 2 = 0 then some (.affine x y) else none
    | 7 => if whole && y % 2 = 1 then some (.affine x y) else none
    | _ => none

end Curve

end Transparency
