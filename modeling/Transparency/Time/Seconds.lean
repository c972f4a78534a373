import Transparency.Power

/-!
# Seconds with six significant digits

A count of microseconds is divided by a million in binary floating point with 53 bits; the quotient
is written with six significant digits, without trailing zeros, and with an exponent when that is
below -4 or above 5.
-/
namespace Transparency.Seconds

/-- `num / den` to the nearest whole number, a half to the even one. -/
def roundDiv (num den : Nat) : Nat :=
  let q := num / den
  let r := 2 * (num % den)
  if den < r then q + 1 else if r < den then q else q + q % 2

/-- The exponent `e` for which `num / den` lies in `[base ^ e, base ^ (e + 1))`, for a positive
quotient, from an estimate `digits` of how many places it can have. -/
def exponent (base num den digits : Nat) : Int :=
  let places := fun n d => ((List.range digits).filter fun i => d * base ^ (i + 1) ≤ n).length
  if den ≤ num then places num den
  else -(((List.range digits).filter fun i => num * base ^ i < den).length : Int)

/-- The quotient `num / den * base ^ k` as a fraction. -/
def shift (base : Nat) (k : Int) (num den : Nat) : Nat × Nat :=
  if 0 ≤ k then (num * base ^ k.toNat, den) else (num, den * base ^ (-k).toNat)

/-- The binary floating-point number with 53 bits nearest to `num / den`, as a fraction. -/
def nearest (num den : Nat) : Nat × Nat :=
  if num = 0 then (0, 1)
  else
    let k := 52 - exponent 2 num den 80
    let (n, d) := shift 2 k num den
    shift 2 (-k) (roundDiv n d) 1

/-- The digits of `n`, at least `width` of them. -/
def padded (width n : Nat) : String :=
  let digits := toString n
  String.ofList (List.replicate (width - digits.length) '0') ++ digits

/-- `digits` after a point, without trailing zeros. -/
def fraction (digits : List Char) : String :=
  match (digits.reverse.dropWhile (· = '0')).reverse with
  | [] => ""
  | ds => "." ++ String.ofList ds

/-- A positive fraction with six significant digits. -/
def sixDigits (num den : Nat) : String :=
  let e := exponent 10 num den 20
  let (n, d) := shift 10 (5 - e) num den
  let rounded := roundDiv n d
  -- Rounding up to a seventh digit moves the point.
  let (m, e) := if rounded = 1000000 then (100000, e + 1) else (rounded, e)
  let digits := (toString m).toList
  if e < -4 || 5 < e then
    let sign := if e < 0 then "-" else "+"
    String.ofList (digits.take 1) ++ fraction (digits.drop 1) ++ "e" ++ sign ++ padded 2 e.natAbs
  else if e < 0 then
    "0" ++ fraction (List.replicate (e.natAbs - 1) '0' ++ digits)
  else
    String.ofList (digits.take (e.toNat + 1)) ++ fraction (digits.drop (e.toNat + 1))

def text (micros : Int) : String :=
  if micros = 0 then "0"
  else
    let (n, d) := nearest micros.natAbs 1
    let (num, den) := nearest n (d * 1000000)
    (if micros < 0 then "-" else "") ++ sixDigits num den

end Transparency.Seconds
