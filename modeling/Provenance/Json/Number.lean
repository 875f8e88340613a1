import Provenance.Json

/-!
# Reading JSON numbers

A number without a point and an exponent that fits a 64-bit word is an integer, unless it is a
negative zero. Every other number is a double, which is found in few steps instead of being the one
nearest to the text: its digits are gathered in a word as long as they fit (`gather`), and the word
is multiplied or divided by a power of ten (`scale?`), where each step is rounded. Numbers beyond
double precision are refused.
-/

namespace Provenance.Json

/-- The digits that a list begins with, and what follows them. -/
def spanDigits (cs : List Char) : List Char × List Char :=
  (cs.takeWhile Char.isDigit, cs.dropWhile Char.isDigit)

/-- The digits after a point, which must be followed by one at least. -/
def readFraction : List Char → Option (Option (List Char) × List Char)
  | '.' :: rest =>
    match spanDigits rest with
    | ([], _) => none
    | (digits, rest) => some (some digits, rest)
  | cs => some (none, cs)

/-- The exponent after an `e`, which may have a sign and must have a digit. -/
def readExponent : List Char → Option (Option Int × List Char)
  | c :: rest =>
    if c = 'e' ∨ c = 'E' then
      let (negative, rest) :=
        match rest with
        | '-' :: rest => (true, rest)
        | '+' :: rest => (false, rest)
        | rest => (false, rest)
      match spanDigits rest with
      | ([], _) => none
      | (digits, rest) =>
        let n : Int := Digits.toNat 10 digits
        some (some (if negative then -n else n), rest)
    else some (none, c :: rest)
  | [] => some (none, [])

/-- Whether an integer fits a signed or an unsigned 64-bit word. -/
def fitsWord (n : Int) : Bool :=
  -0x8000000000000000 ≤ n && n ≤ maxWord

/-- The word that results from appending digits to another as long as it fits 64 bits, and how many
digits are left over. -/
def gather (word : Nat) : List Char → Nat × Nat
  | [] => (word, 0)
  | c :: rest =>
    let next := word * 10 + (Digits.value? 10 c).getD 0
    if next ≤ maxWord then gather next rest else (word, rest.length + 1)

/-- The largest power of ten that is a double. -/
def maxPower : Nat := 308

/-- The double next to a power of ten. -/
def tenTo (power : Nat) : Binary :=
  (Binary.ofDecimal? 1 power).getD .zero

/-- A double times a power of ten. The power is applied in one step, a large negative one in steps
of at most `maxPower`. -/
def scale? (b : Binary) (power : Int) : Option Binary :=
  if b = .zero then some b
  else if power < -maxPower then
    (b.over? (tenTo maxPower)).bind (scale? · (power + maxPower))
  else if power < 0 then b.over? (tenTo power.natAbs)
  else if power ≤ maxPower then b.times? (tenTo power.natAbs)
  else none
termination_by power.natAbs
decreasing_by unfold maxPower at *; omega

/-- The double for whole digits, digits after the point and an exponent. -/
def double? (whole places : List Char) (exponent : Int) : Option Binary :=
  let (word, dropped) := gather 0 whole
  let (word, unread) := gather word places
  let power := exponent + dropped - (places.length - unread : Nat)
  (Binary.nearest? word 1).bind (scale? · power)

/-- The number with the given sign, whole digits, fraction and exponent. -/
def number? (negative : Bool) (whole : List Char) (fraction : Option (List Char))
    (exponent : Option Int) : Option Json :=
  let n : Int := Digits.toNat 10 whole
  let signed := if negative then -n else n
  if fraction.isNone ∧ exponent.isNone ∧ fitsWord signed ∧ ¬(negative ∧ n = 0) then
    some (integer signed)
  else (double? whole (fraction.getD []) (exponent.getD 0)).map (double negative)

/-- A number whose sign has been read. -/
def readNumber (negative : Bool) (cs : List Char) : Option (Json × List Char) :=
  match spanDigits cs with
  | ([], _) => none
  | ('0' :: _ :: _, _) => none
  | (whole, rest) =>
    match readFraction rest with
    | none => none
    | some (fraction, rest) =>
      match readExponent rest with
      | none => none
      | some (exponent, rest) => (number? negative whole fraction exponent).map (·, rest)

end Provenance.Json
