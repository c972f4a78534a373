import Transparency.Bytes

/-!
# Tags

A tag has a class and a number. Numbers above 30 are written in groups of seven bits after the
first byte; reading takes that form for every number.
-/
namespace Transparency.Ber

inductive TagClass
  | universal
  | application
  | context
  | privateUse
deriving DecidableEq, Inhabited

namespace TagClass

def bits : TagClass → UInt8
  | universal => 0x00
  | application => 0x40
  | context => 0x80
  | privateUse => 0xc0

def ofByte (b : UInt8) : TagClass :=
  if b < 0x40 then universal else if b < 0x80 then application
  else if b < 0xc0 then context else privateUse

end TagClass

structure Tag where
  cls : TagClass
  number : Nat
deriving DecidableEq, Inhabited

namespace Tag

def universal (number : Nat) : Tag := ⟨.universal, number⟩
def context (number : Nat) : Tag := ⟨.context, number⟩

def boolean : Tag := universal 1
def integer : Tag := universal 2
def bitString : Tag := universal 3
def octetString : Tag := universal 4
def null : Tag := universal 5
def objectId : Tag := universal 6
def enumerated : Tag := universal 10
def utf8String : Tag := universal 12
def sequence : Tag := universal 16
def set : Tag := universal 17
def numericString : Tag := universal 18
def printableString : Tag := universal 19
def t61String : Tag := universal 20
def ia5String : Tag := universal 22
def utcTime : Tag := universal 23
def generalizedTime : Tag := universal 24
def visibleString : Tag := universal 26
def universalString : Tag := universal 28
def bmpString : Tag := universal 30

/-- The groups of seven bits of `n` before `later`; all but the last are marked as followed. -/
def groups (n : Nat) (later : Bytes) : Bytes :=
  let group := UInt8.ofNat (n % 128) ||| if later.isEmpty then 0 else 0x80
  if n < 128 then group :: later else groups (n / 128) (group :: later)
termination_by n
decreasing_by omega

/-- The identifier bytes of an element. -/
def identifier (tag : Tag) (constructed : Bool) : Bytes :=
  let first := tag.cls.bits ||| if constructed then 0x20 else 0
  if tag.number < 31 then [first ||| UInt8.ofNat tag.number]
  else (first ||| 31) :: groups tag.number []

end Tag

/-- Reads a number in groups of seven bits; all but the last must leave it below 2²⁴. -/
def readGroups? (n : Nat) : Bytes → Option (Nat × Bytes)
  | [] => none
  | b :: bs =>
    let n := n * 128 + (b &&& 0x7f).toNat
    if b < 0x80 then some (n, bs) else if n < 0x1000000 then readGroups? n bs else none

/-- Reads a tag and whether its element is constructed. -/
def readIdentifier? : Bytes → Option ((Tag × Bool) × Bytes)
  | [] => none
  | b :: bs =>
    let number? :=
      if b &&& 31 = 31 then readGroups? 0 bs else some ((b &&& 31).toNat, bs)
    number?.map fun (number, rest) => ((⟨.ofByte b, number⟩, b &&& 0x20 ≠ 0), rest)

end Transparency.Ber
