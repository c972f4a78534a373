/-!
# Powers

Powers of natural numbers are those of the core library, also where another library brings an
instance of its own.
-/
namespace Transparency

instance (priority := 10000) natPow : Pow Nat Nat := instPowNat

end Transparency
