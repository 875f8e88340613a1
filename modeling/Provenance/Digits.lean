/-!
# Digits

The values of digits in bases up to sixteen, and the numbers that lists of them write.
-/

namespace Provenance.Digits

/-- The value of a digit in a base of at most sixteen. Letters of either case follow the nine. -/
def value? (base : Nat) (c : Char) : Option Nat :=
  let value :=
    if '0' ≤ c ∧ c ≤ '9' then some (c.toNat - '0'.toNat)
    else if 'a' ≤ c ∧ c ≤ 'f' then some (c.toNat - 'a'.toNat + 10)
    else if 'A' ≤ c ∧ c ≤ 'F' then some (c.toNat - 'A'.toNat + 10)
    else none
  value.filter (· < base)

/-- The number that some digits write; what is no digit counts as zero. -/
def toNat (base : Nat) (digits : List Char) : Nat :=
  digits.foldl (fun n c ↦ n * base + (value? base c).getD 0) 0

/-- The number that some characters write, if all of them are digits. -/
def toNat? (base : Nat) (digits : List Char) : Option Nat :=
  if digits.all (fun c ↦ (value? base c).isSome) then some (toNat base digits) else none

/-- The last hexadecimal digit of a number, in lower case. -/
def hex (n : Nat) : Char :=
  Nat.digitChar (n % 16)

end Provenance.Digits
