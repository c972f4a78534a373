import Transparency.Digest

/-!
# SHA-256

Whole blocks of sixteen words are absorbed from the message as it stands; what is left is padded
with a one bit, zeros and the bit length, which makes one or two more blocks.
-/
namespace Transparency.Sha256

structure State where
  a : UInt32
  b : UInt32
  c : UInt32
  d : UInt32
  e : UInt32
  f : UInt32
  g : UInt32
  h : UInt32

def initial : State :=
  ⟨0x6a09e667, 0xbb67ae85, 0x3c6ef372, 0xa54ff53a, 0x510e527f, 0x9b05688c, 0x1f83d9ab, 0x5be0cd19⟩

def roundConstants : Array UInt32 := #[
  0x428a2f98, 0x71374491, 0xb5c0fbcf, 0xe9b5dba5, 0x3956c25b, 0x59f111f1, 0x923f82a4, 0xab1c5ed5,
  0xd807aa98, 0x12835b01, 0x243185be, 0x550c7dc3, 0x72be5d74, 0x80deb1fe, 0x9bdc06a7, 0xc19bf174,
  0xe49b69c1, 0xefbe4786, 0x0fc19dc6, 0x240ca1cc, 0x2de92c6f, 0x4a7484aa, 0x5cb0a9dc, 0x76f988da,
  0x983e5152, 0xa831c66d, 0xb00327c8, 0xbf597fc7, 0xc6e00bf3, 0xd5a79147, 0x06ca6351, 0x14292967,
  0x27b70a85, 0x2e1b2138, 0x4d2c6dfc, 0x53380d13, 0x650a7354, 0x766a0abb, 0x81c2c92e, 0x92722c85,
  0xa2bfe8a1, 0xa81a664b, 0xc24b8b70, 0xc76c51a3, 0xd192e819, 0xd6990624, 0xf40e3585, 0x106aa070,
  0x19a4c116, 0x1e376c08, 0x2748774c, 0x34b0bcb5, 0x391c0cb3, 0x4ed8aa4a, 0x5b9cca4f, 0x682e6ff3,
  0x748f82ee, 0x78a5636f, 0x84c87814, 0x8cc70208, 0x90befffa, 0xa4506ceb, 0xbef9a3f7, 0xc67178f2]

def rotate (x n : UInt32) : UInt32 := x >>> n ||| x <<< (32 - n)

def round (s : State) (constant word : UInt32) : State :=
  let choice := s.e &&& s.f ^^^ ~~~s.e &&& s.g
  let majority := s.a &&& s.b ^^^ s.a &&& s.c ^^^ s.b &&& s.c
  let t := s.h + (rotate s.e 6 ^^^ rotate s.e 11 ^^^ rotate s.e 25) + choice + constant + word
  let u := (rotate s.a 2 ^^^ rotate s.a 13 ^^^ rotate s.a 22) + majority
  ⟨t + u, s.a, s.b, s.c, s.d + t, s.e, s.f, s.g⟩

/-- Extends the words of a block by `n` words. -/
def schedule : Nat → Array UInt32 → Array UInt32
  | 0, w => w
  | n + 1, w =>
    let x := w.getD (w.size - 15) 0
    let y := w.getD (w.size - 2) 0
    schedule n <| w.push <|
      (rotate y 17 ^^^ rotate y 19 ^^^ y >>> 10) + w.getD (w.size - 7) 0 +
        (rotate x 7 ^^^ rotate x 18 ^^^ x >>> 3) + w.getD (w.size - 16) 0

/-- The last `n` of the 64 rounds. -/
def rounds (w : Array UInt32) : Nat → State → State
  | 0, s => s
  | n + 1, s => rounds w n (round s (roundConstants.getD (63 - n) 0) (w.getD (63 - n) 0))

def compress (s : State) (block : Array UInt32) : State :=
  let r := rounds (schedule 48 block) 64 s
  ⟨s.a + r.a, s.b + r.b, s.c + r.c, s.d + r.d, s.e + r.e, s.f + r.f, s.g + r.g, s.h + r.h⟩

/-- Reads `n` words after those of `w`. -/
def words : Nat → Bytes → Array UInt32 → Array UInt32 × Bytes
  | n + 1, b₀ :: b₁ :: b₂ :: b₃ :: rest, w =>
    words n rest <| w.push <|
      b₀.toUInt32 <<< 24 ||| b₁.toUInt32 <<< 16 ||| b₂.toUInt32 <<< 8 ||| b₃.toUInt32
  | _, rest, w => (w, rest)

/-- Absorbs `n` blocks and returns the bytes after them. -/
def absorb : Nat → State → Bytes → State × Bytes
  | 0, s, bs => (s, bs)
  | n + 1, s, bs =>
    let (block, rest) := words 16 bs #[]
    absorb n (compress s block) rest

/-- What follows a message of `n` bytes. -/
def padding (n : Nat) : Bytes :=
  0x80 :: List.replicate ((119 - n % 64) % 64) 0 ++ Bytes.bigEndian 8 (8 * n)

def State.bytes (s : State) : Bytes :=
  [s.a, s.b, s.c, s.d, s.e, s.f, s.g, s.h].flatMap fun w => Bytes.bigEndian 4 w.toNat

def digest (message : Bytes) : Digest :=
  let n := message.length
  let (s, tail) := absorb (n / 64) initial message
  let last := tail ++ padding n
  ⟨(absorb (last.length / 64) s last).1.bytes, by simp [State.bytes]⟩

/-- `buffer` with its first `n` bytes replaced by those of the digest, of which there are 32. -/
def overwrite (message : Bytes) (n : Nat) (buffer : Bytes) : Bytes :=
  let head := (digest message).bytes.take n
  head ++ buffer.drop head.length

end Transparency.Sha256
