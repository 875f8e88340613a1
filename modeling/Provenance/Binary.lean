/-!
# Double-precision numbers

The magnitudes that a double-precision number can have, in exact arithmetic. `nearest?` rounds a
quotient to the closest of them, `times?` and `over?` are the product and the quotient rounded in
this way, and `shortest` gives the fewest digits that identify a number among its neighbours.
-/

namespace Provenance

/-- The number `significand * 2 ^ exponent`. The significand has 53 binary digits, except that
numbers with the least exponent may have fewer. -/
structure Binary where
  significand : Nat
  exponent : Int
  deriving DecidableEq, Repr, Inhabited

namespace Binary

/-- The significand from which on a number is normal. -/
def hiddenBit : Nat := Nat.pow 2 52

/-- The exponent of the numbers closest to zero. -/
def leastExponent : Int := -1074

/-- The exponent of the largest numbers. -/
def greatestExponent : Int := 971

def zero : Binary := ⟨0, leastExponent⟩

/-- The value as a fraction. -/
def fraction (b : Binary) : Nat × Nat :=
  (b.significand * Nat.pow 2 b.exponent.toNat, Nat.pow 2 (-b.exponent).toNat)

/-! ## Rounding -/

/-- The integer next to a quotient, of two that are equally near the even one. -/
def roundEven (num den : Nat) : Nat :=
  let below := num / den
  let remainder := num % den
  if 2 * remainder < den ∨ (2 * remainder = den ∧ below % 2 = 0) then below else below + 1

/-- The power of two of the first binary digit of a positive quotient. -/
def leadingBit (num den : Nat) : Int :=
  let guess : Int := (num.log2 : Int) - den.log2
  if den * Nat.pow 2 guess.toNat ≤ num * Nat.pow 2 (-guess).toNat then guess else guess - 1

/-- The number next to a quotient, of two that are equally near the one with an even significand;
nothing if the quotient is too large. -/
def nearest? (num den : Nat) : Option Binary :=
  if num = 0 then some zero
  else
    let exponent := max (leadingBit num den - 52) leastExponent
    let n := roundEven (num * Nat.pow 2 (-exponent).toNat) (den * Nat.pow 2 exponent.toNat)
    let b : Binary := if n = 2 * hiddenBit then ⟨hiddenBit, exponent + 1⟩ else ⟨n, exponent⟩
    if b.exponent ≤ greatestExponent then some b else none

/-- The product, rounded. -/
def times? (a b : Binary) : Option Binary :=
  nearest? (a.fraction.1 * b.fraction.1) (a.fraction.2 * b.fraction.2)

/-- The quotient by a number other than zero, rounded. -/
def over? (a b : Binary) : Option Binary :=
  nearest? (a.fraction.1 * b.fraction.2) (a.fraction.2 * b.fraction.1)

/-- The number next to `digits * 10 ^ exponent`. Exponents far out of range are settled by the
number of digits alone. -/
def ofDecimal? (digits : Nat) (exponent : Int) : Option Binary :=
  let size : Int := exponent + (Nat.toDigits 10 digits).length
  if digits = 0 ∨ size < -400 then some zero
  else if 400 < size then none
  else nearest? (digits * Nat.pow 10 exponent.toNat) (Nat.pow 10 (-exponent).toNat)

/-! ## Shortest digits -/

/-- Whether `n * 10 ^ k` rounds to the number. The numbers that do so reach half a unit to each
side, a quarter unit below a power of two, and include the ends when the significand is even. -/
def isNearest (b : Binary) (n : Nat) (k : Int) : Bool :=
  let quarter := b.exponent - 2
  let value := n * Nat.pow 10 k.toNat * Nat.pow 2 (-quarter).toNat
  let unit := Nat.pow 10 (-k).toNat * Nat.pow 2 quarter.toNat
  let low :=
    if b.significand = hiddenBit ∧ leastExponent < b.exponent then 4 * b.significand - 1
    else 4 * b.significand - 2
  let high := 4 * b.significand + 2
  if b.significand % 2 = 0 then low * unit ≤ value && value ≤ high * unit
  else low * unit < value && value < high * unit

/-- The power of ten of the first significant digit. -/
def leadingPower (b : Binary) : Int :=
  let (num, den) := b.fraction
  if den ≤ num then ((Nat.toDigits 10 (num / den)).length : Int) - 1
  else
    let places := (Nat.toDigits 10 (den / num)).length - 1
    if den ≤ num * Nat.pow 10 places then -places else -(places + 1 : Int)

/-- The multiple of `10 ^ k` next to the number, if one of the two around it rounds to it. -/
def onGrid? (b : Binary) (k : Int) : Option Nat :=
  let (num, den) := b.fraction
  let num := num * Nat.pow 10 (-k).toNat
  let den := den * Nat.pow 10 k.toNat
  let below := num / den
  match b.isNearest below k, b.isNearest (below + 1) k with
  | false, false => none
  | true, false => some below
  | false, true => some (below + 1)
  | true, true => some (roundEven num den)

/-- The digits, without zeros at the end, and the power of ten of the last one: those on the first
grid with at most 17 digits that has a number on it. -/
def shortest (b : Binary) : Nat × Int :=
  if b.significand = 0 then (0, 0)
  else
    let lead := b.leadingPower
    match (List.range 17).findSome? (fun i : Nat ↦ (b.onGrid? (lead - i)).map (·, lead - i)) with
    | some (n, k) =>
      let zeros := ((Nat.toDigits 10 n).reverse.takeWhile (· = '0')).length
      (n / Nat.pow 10 zeros, k + zeros)
    | none => (0, 0)

end Binary

end Provenance
