import Transparency.Ber.Tag

/-!
# Reading elements

A reader takes one value off the front of its input. Lengths may be longer than need be, and a
constructed element may leave its length open and end with two zero bytes.
-/
namespace Transparency.Ber

abbrev Reader (α : Type) := Bytes → Option (α × Bytes)

/-- What stands before the contents of an element; no length means that it is left open. -/
structure Header where
  tag : Tag
  constructed : Bool
  length : Option Nat
deriving DecidableEq, Inhabited

/-- All lengths are below this. -/
def lengthLimit : Nat := 0x8000000000000000

/-- Reads a length. One of several bytes must be followed by something. -/
def readLength? : Bytes → Option (Option Nat × Bytes)
  | [] => none
  | b :: bs =>
    if b = 0x80 then some (none, bs)
    else if b < 0x80 then some (some b.toNat, bs)
    else
      let count := (b &&& 0x7f).toNat
      if Bytes.hasAtLeast (count + 1) bs then
        let n := Bytes.toNat (bs.take count)
        if n < lengthLimit then some (some n, bs.drop count) else none
      else none

/-- Reads a header. Only a constructed element may leave its length open. -/
def readPreamble? (bs : Bytes) : Option (Header × Bytes) := do
  let ((tag, constructed), bs) ← readIdentifier? bs
  let (length, bs) ← readLength? bs
  if length.isNone && !constructed then none else some (⟨tag, constructed, length⟩, bs)

/-- Reads the header of an element whose contents are all there. -/
def readHeader? (bs : Bytes) : Option (Header × Bytes) := do
  let (h, bs) ← readPreamble? bs
  if Bytes.hasAtLeast (h.length.getD 0) bs then some (h, bs) else none

/-- Whether an element may end here: at the end of the input or at two zero bytes. -/
def atEnd : Bytes → Bool
  | [] => true
  | 0 :: 0 :: _ => true
  | _ => false

/-- Reads the contents of an element and its end. -/
def delimited {α : Type} (length : Option Nat) (contents : Reader α) : Reader α := fun bs =>
  match length with
  | some n => do
    let (inner, rest) ← Bytes.split? n bs
    match ← contents inner with
    | (a, []) => some (a, rest)
    | _ => none
  | none => do
    match ← contents bs with
    | (a, 0 :: 0 :: rest) => some (a, rest)
    | _ => none

/-- Reads an element with the given tag, which has to be constructed. -/
def constructed {α : Type} (tag : Tag) (contents : Reader α) : Reader α := fun bs => do
  let (h, bs) ← readHeader? bs
  if h.tag = tag && h.constructed then delimited h.length contents bs else none

def sequence {α : Type} (contents : Reader α) : Reader α := constructed .sequence contents

/-- Reads nothing if the input ends or the next element has another tag. -/
def optional {α : Type} (tag : Tag) (reader : Reader α) : Reader (Option α) := fun bs =>
  if bs.isEmpty then some (none, bs)
  else do
    let (h, _) ← readHeader? bs
    if h.tag = tag then (reader bs).map fun (a, rest) => (some a, rest) else some (none, bs)

/-- Reads items up to the end, at most `fuel` of them. -/
def many {α : Type} (item : Reader α) : Nat → Reader (List α)
  | 0, bs => some ([], bs)
  | fuel + 1, bs =>
    if atEnd bs then some ([], bs)
    else do
      let (a, bs) ← item bs
      let (as, bs) ← many item fuel bs
      return (a :: as, bs)

/-- Reads an element with the given tag that consists of items; it need not be constructed. -/
def listOf {α : Type} (tag : Tag) (item : Reader α) : Reader (List α) := fun bs => do
  let (h, bs) ← readHeader? bs
  if h.tag = tag then delimited h.length (fun bs => many item bs.length bs) bs else none

/-- Reads a value together with the bytes that it takes. -/
def withBytes {α : Type} (reader : Reader α) : Reader (Bytes × α) := fun bs => do
  let (a, rest) ← reader bs
  return ((bs.take (bs.length - rest.length), a), rest)

/-! ## Strings -/

/-- Reads an element that must not be constructed. -/
def primitive (tag : Tag) : Reader Bytes := fun bs => do
  let (h, bs) ← readHeader? bs
  if h.tag = tag && !h.constructed then Bytes.split? (h.length.getD 0) bs else none

/-- Reads the pieces of a constructed string, of any tags, at most `depth` levels below. -/
def pieces : (fuel depth : Nat) → Reader Bytes
  | 0, _, bs => some ([], bs)
  | fuel + 1, depth, bs =>
    if atEnd bs then some ([], bs)
    else do
      let (h, bs) ← readHeader? bs
      let (piece, bs) ←
        if h.constructed then
          if depth = 0 then none else delimited h.length (pieces fuel (depth - 1)) bs
        else Bytes.split? (h.length.getD 0) bs
      let (more, bs) ← pieces fuel depth bs
      return (piece ++ more, bs)

/-- The depth to which the pieces of a string may be nested. -/
def stringDepth : Nat := 5

/-- Reads the contents of a string, whose header has been read. -/
def stringContents (h : Header) : Reader Bytes := fun bs =>
  if h.constructed then delimited h.length (fun bs => pieces bs.length stringDepth bs) bs
  else Bytes.split? (h.length.getD 0) bs

/-- Reads a string, which may be sent in pieces. -/
def string (tag : Tag) : Reader Bytes := fun bs => do
  let (h, bs) ← readHeader? bs
  if h.tag = tag then stringContents h bs else none

/-! ## Skipping -/

/-- What follows the end of `opened` elements of open length. -/
def skipOpen : (fuel opened : Nat) → Bytes → Option Bytes
  | 0, _, _ => none
  | fuel + 1, opened, bs =>
    match bs with
    | 0 :: 0 :: rest => if opened = 1 then some rest else skipOpen fuel (opened - 1) rest
    | bs => do
      let (h, rest) ← readHeader? bs
      match h.length with
      | none => skipOpen fuel (opened + 1) rest
      | some n => skipOpen fuel opened (rest.drop n)

/-- Reads one element of any kind as it stands. -/
def raw : Reader Bytes := fun bs => do
  let (h, rest) ← readHeader? bs
  let rest ← match h.length with
    | some n => some (rest.drop n)
    | none => skipOpen (rest.length + 1) 1 rest
  return (bs.take (bs.length - rest.length), rest)

end Transparency.Ber
