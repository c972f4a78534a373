/-!
# Modular arithmetic

Powers by squaring, on natural numbers.
-/
namespace Transparency.Modular

def pow (base exponent modulus : Nat) : Nat :=
  if exponent = 0 then 1 % modulus
  else
    let half := pow base (exponent / 2) modulus
    let square := half * half % modulus
    if exponent % 2 = 0 then square else square * base % modulus
termination_by exponent
decreasing_by omega

/-- The difference of two residues. -/
def sub (a b modulus : Nat) : Nat := (a + (modulus - b % modulus)) % modulus

/-- The inverse of a residue other than zero, for a prime modulus. -/
def inverse (a modulus : Nat) : Nat := pow a (modulus - 2) modulus

end Transparency.Modular
