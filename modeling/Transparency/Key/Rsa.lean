import Transparency.Bytes
import Transparency.Digest
import Transparency.Key.Modular

/-!
# RSA signatures with fixed padding

The power of a signature must be the one block that pads the digest: a one, bytes of ones, a zero
and the digest after the name of its algorithm.
-/
namespace Transparency.Rsa

/-- How many bits a number has. -/
def bits (n : Nat) : Nat := if n = 0 then 0 else n.log2 + 1

/-- What precedes a digest in a block. -/
def algorithmName : Bytes :=
  [0x30, 0x31, 0x30, 0x0d, 0x06, 0x09, 0x60, 0x86, 0x48, 0x01, 0x65, 0x03, 0x04, 0x02, 0x01,
    0x05, 0x00, 0x04, 0x20]

def block (width : Nat) (d : Digest) : Bytes :=
  let tail := algorithmName ++ d.bytes
  [0x00, 0x01] ++ List.replicate (width - tail.length - 3) 0xff ++ [0x00] ++ tail

/-- Whether signatures are computed with a key: moduli are odd and have at most 16384 bits, and
exponents are below them and short for moduli of more than 3072 bits. -/
def isUsable (modulus exponent : Nat) : Bool :=
  bits modulus ≤ 16384 && modulus % 2 = 1 && exponent < modulus &&
    (bits modulus ≤ 3072 || bits exponent ≤ 64)

def verifies (modulus exponent : Nat) (d : Digest) (signature : Bytes) : Bool :=
  let width := (bits modulus + 7) / 8
  let s := Bytes.toNat signature
  isUsable modulus exponent && signature.length = width && s < modulus &&
    Bytes.bigEndian width (Modular.pow s exponent modulus) = block width d

end Transparency.Rsa
