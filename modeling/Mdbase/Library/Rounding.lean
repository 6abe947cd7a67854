import Mathlib

/-!
# Rounding to a number of significant bits

The nearest natural number with a given number of significant bits, ties going
to the even one, as the conversion of an integer to a binary floating-point
number does. Rounding keeps the order of numbers but not their difference.
-/

namespace Mdbase.Library

/-- The spacing of the numbers with `bits` significant bits around a number. -/
def spacing (bits number : Nat) : Nat := 2 ^ (number.log2 + 1 - bits)

/-- Round to a multiple of `unit`, ties to the even multiple. -/
def roundTo (unit number : Nat) : Nat :=
  if 2 * (number % unit) < unit ∨ (2 * (number % unit) = unit ∧ number / unit % 2 = 0) then
    number / unit * unit
  else (number / unit + 1) * unit

/-- Round to `bits` significant bits. -/
def roundBits (bits number : Nat) : Nat := roundTo (spacing bits number) number

end Mdbase.Library
