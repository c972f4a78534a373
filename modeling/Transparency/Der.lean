import Transparency.Ber.Tag

/-!
# Writing elements

Elements are written with the shortest length there is.
-/
namespace Transparency.Der

/-- The bytes of `n` without leading zeros, before `later`. -/
def digits (n : Nat) (later : Bytes) : Bytes :=
  if n = 0 then later else digits (n / 256) (UInt8.ofNat (n % 256) :: later)
termination_by n
decreasing_by omega

def length (n : Nat) : Bytes :=
  if n < 128 then [UInt8.ofNat n]
  else
    let ds := digits n []
    (0x80 ||| UInt8.ofNat ds.length) :: ds

def element (tag : Ber.Tag) (constructed : Bool) (contents : Bytes) : Bytes :=
  tag.identifier constructed ++ length contents.length ++ contents

def primitive (tag : Ber.Tag) (contents : Bytes) : Bytes := element tag false contents

/-- A constructed element around elements. -/
def constructed (tag : Ber.Tag) (elements : List Bytes) : Bytes :=
  element tag true elements.flatten

def sequence (elements : List Bytes) : Bytes := constructed .sequence elements

end Transparency.Der
