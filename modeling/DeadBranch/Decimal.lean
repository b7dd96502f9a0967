/-!
# Decimals

Numbers with finitely many decimal places, kept as they were written: zeros at
the end count, and zero has a sign.
-/
namespace DeadBranch

/-- The number `mantissa / 10 ^ exponent`, or its opposite. -/
structure Decimal where
  negative : Bool := false
  mantissa : Nat
  exponent : Nat := 0
deriving Repr, DecidableEq

/-- A whole number as a decimal. -/
def Decimal.ofInt (n : Int) : Decimal := { negative := n < 0, mantissa := n.natAbs }

end DeadBranch
