import Transparency.Ber.Reader

/-!
# Elements in a stream

A stream shows no more than eight bytes ahead, and each header has to be known from them. Elements
of known length are skipped; one of open length is followed up to its end, where nothing may remain
beyond what is shown.
-/
namespace Transparency.Ber

/-- How many bytes are shown. -/
def window : Nat := 8

/-- Reads a header from the bytes that are shown. -/
def readShown? (bs : Bytes) : Option (Header × Bytes) := do
  let shown := bs.take window
  let (h, rest) ← readPreamble? shown
  return (h, bs.drop (shown.length - rest.length))

/-- Whether the next element can be followed inside `opened` elements of open length. An empty
element with number zero closes one of them. -/
def isFollowed : (fuel opened : Nat) → Bytes → Bool
  | 0, _, _ => false
  | fuel + 1, opened, bs =>
    match readShown? bs with
    | none => false
    | some (⟨_, _, none⟩, rest) => isFollowed fuel (opened + 1) rest
    | some (⟨tag, _, some n⟩, rest) =>
      if opened = 0 then Bytes.hasAtLeast n rest
      else if n = 0 && tag.number = 0 then
        if opened = 1 then !Bytes.hasAtLeast (window + 1) bs
        else isFollowed fuel (opened - 1) rest
      else Bytes.hasAtLeast n rest && isFollowed fuel opened (rest.drop n)

/-- Whether a stream of these bytes yields an element. -/
def isStreamed (bs : Bytes) : Bool := isFollowed (bs.length + 1) 0 bs

end Transparency.Ber
