/-!
Powers and sums of numbers are those of the core library in every module, whatever other instances
a module sees besides.
-/

namespace CilWeaver

@[default_instance 20000]
instance (priority := 10000) powNat : Pow Nat Nat := @instPowNat Nat instNatPowNat

@[default_instance 15000]
instance (priority := 10000) powInt : Pow Int Nat := @instPowNat Int Int.instNatPow

instance (priority := 10000) zeroNat : Zero Nat := Zero.ofOfNat0

end CilWeaver
