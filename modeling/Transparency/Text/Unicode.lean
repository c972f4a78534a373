import Transparency.Bytes

/-!
# Unicode text from bytes

Four forms of text: UTF-8, and one, two or four bytes per character, most significant byte first.
Every form refuses surrogates and numbers above `10FFFF`.
-/
namespace Transparency.Unicode

/-- The character with a number, if there is one. -/
def char? (n : Nat) : Option Char :=
  if h : n.isValidChar then some (.ofNatAux n h) else none

/-- Characters of one byte each. -/
def ofBytes (bs : Bytes) : List Char := bs.map fun b => Char.ofNat b.toNat

/-- Characters of two bytes each. -/
def ofPairs? : Bytes → Option (List Char)
  | [] => some []
  | b₀ :: b₁ :: bs => do return (← char? (Bytes.toNat [b₀, b₁])) :: (← ofPairs? bs)
  | _ => none

/-- Characters of four bytes each. -/
def ofQuads? : Bytes → Option (List Char)
  | [] => some []
  | b₀ :: b₁ :: b₂ :: b₃ :: bs => do
    return (← char? (Bytes.toNat [b₀, b₁, b₂, b₃])) :: (← ofQuads? bs)
  | _ => none

/-- The low six bits of bytes that all continue a character, after `n`. -/
def extend? (n : Nat) : Bytes → Option Nat
  | [] => some n
  | b :: bs => if b &&& 0xc0 = 0x80 then extend? (n * 64 + (b &&& 0x3f).toNat) bs else none

/-- A character that takes more than one byte, and would not fit fewer. -/
def long? (least lead : Nat) (tail : Bytes) : Option Char := do
  let n ← extend? lead tail
  if least ≤ n then char? n else none

/-- Characters in UTF-8, each in the fewest bytes. -/
def ofUtf8? : Bytes → Option (List Char)
  | [] => some []
  | b₀ :: bs =>
    if b₀ < 0x80 then do return Char.ofNat b₀.toNat :: (← ofUtf8? bs)
    else if b₀ &&& 0xe0 = 0xc0 then
      match bs with
      | b₁ :: bs => do
        return (← long? 0x80 (b₀ &&& 0x1f).toNat [b₁]) :: (← ofUtf8? bs)
      | _ => none
    else if b₀ &&& 0xf0 = 0xe0 then
      match bs with
      | b₁ :: b₂ :: bs => do
        return (← long? 0x800 (b₀ &&& 0x0f).toNat [b₁, b₂]) :: (← ofUtf8? bs)
      | _ => none
    else if b₀ &&& 0xf8 = 0xf0 then
      match bs with
      | b₁ :: b₂ :: b₃ :: bs => do
        return (← long? 0x10000 (b₀ &&& 0x07).toNat [b₁, b₂, b₃]) :: (← ofUtf8? bs)
      | _ => none
    else none

end Transparency.Unicode
