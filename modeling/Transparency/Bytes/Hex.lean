import Transparency.Bytes

/-!
# Hexadecimal text

Text is a byte string of ASCII codes. Writing uses capitals; reading takes both cases, refuses the
empty text, and keeps what it read before the first pair that is not a byte. What is read is added
to an output.
-/
namespace Transparency.Hex

/-- The capital digit of a value below sixteen. -/
def digit (v : UInt8) : UInt8 :=
  if v < 10 then 48 + v else 55 + v

def encode (bs : Bytes) : Bytes :=
  bs.flatMap fun (b : UInt8) => [digit (b >>> 4), digit (b &&& 15)]

/-- `encode` as printed in messages. -/
def text (bs : Bytes) : String :=
  String.ofList ((encode bs).map fun c => Char.ofNat c.toNat)

/-- The value of a digit, of either case. -/
def value? (c : UInt8) : Option UInt8 :=
  if 48 ≤ c ∧ c ≤ 57 then some (c - 48)
  else if 97 ≤ c ∧ c ≤ 102 then some (c - 87)
  else if 65 ≤ c ∧ c ≤ 70 then some (c - 55)
  else none

/-- The byte that a pair of digits spells. -/
def pair? (high low : UInt8) : Option UInt8 :=
  match value? high, value? low with
  | some h, some l => some (h <<< 4 ||| l)
  | _, _ => none

/-- The bytes of the leading whole pairs of digits, and whether nothing else follows them. -/
def pairs : Bytes → Bytes × Bool
  | [] => ([], true)
  | [_] => ([], false)
  | high :: low :: rest =>
    match pair? high low with
    | none => ([], false)
    | some b =>
      let (bs, whole) := pairs rest
      (b :: bs, whole)

/-- The bytes that reading `text` yields, and whether all of it was read. -/
def decode (text : Bytes) : Bytes × Bool :=
  if text.isEmpty || text.length % 2 ≠ 0 then ([], false) else pairs text

/-! ## Adding to an output -/

/-- Adds the bytes of the leading whole pairs one by one, and tells whether nothing else follows
them. -/
def appendPairs : Bytes → StateM Bytes Bool
  | [] => return true
  | [_] => return false
  | high :: low :: rest => do
    match pair? high low with
    | none => return false
    | some b =>
      modify (· ++ [b])
      appendPairs rest

/-- Adds what reading `text` yields to the end of an output. -/
def append (text : Bytes) : StateM Bytes Bool := do
  if text.isEmpty || text.length % 2 ≠ 0 then return false else appendPairs text

end Transparency.Hex
