import Provenance.Binary
import Provenance.Digits
import Provenance.Text
import Provenance.Toml
import Provenance.Toml.Quoted

/-!
# Numbers and times in TOML

The values that are written without quotes and brackets: integers in four bases, numbers with a
fraction, truth values and points in time. A number with a fraction must not be too large for double
precision, and an integer must fit 64 bits.
-/

namespace Provenance.Toml

/-- The digits of a number, among which single underscores may stand between two digits. -/
def digitGroups? (isDigit : Char → Bool) (cs : List Char) : Option (List Char) :=
  let groups := Text.pieces '_' cs
  if groups.any List.isEmpty ∨ !groups.flatten.all isDigit then none else some groups.flatten

/-- The digits of a decimal number, which begins with a zero only if that is all of it. -/
def wholeDigits? (cs : List Char) : Option (List Char) :=
  (digitGroups? Char.isDigit cs).filter (fun digits ↦
    digits.length = 1 || digits.head? ≠ some '0')

/-- The largest integer. -/
def maxInteger : Nat := 0x7fffffffffffffff

/-- A sign and what follows it. -/
def splitSign : List Char → Option Char × List Char
  | '+' :: rest => (some '+', rest)
  | '-' :: rest => (some '-', rest)
  | cs => (none, cs)

/-- An integer in a base that is a power of two. -/
def radixInteger? (base : Nat) (cs : List Char) : Option Int :=
  match digitGroups? (fun c ↦ (Digits.value? base c).isSome) cs with
  | none => none
  | some digits =>
    let n := Digits.toNat base digits
    if n ≤ maxInteger then some n else none

/-- An integer. -/
def integer? (cs : List Char) : Option Int :=
  match cs with
  | '0' :: 'x' :: rest => radixInteger? 16 rest
  | '0' :: 'o' :: rest => radixInteger? 8 rest
  | '0' :: 'b' :: rest => radixInteger? 2 rest
  | cs =>
    let (sign, cs) := splitSign cs
    match wholeDigits? cs with
    | none => none
    | some digits =>
      let n : Int := Digits.toNat 10 digits
      let n := if sign = some '-' then -n else n
      if -(maxInteger + 1 : Int) ≤ n ∧ n ≤ maxInteger then some n else none

/-- The exponent of a number, if there is one, and the characters before it. -/
def splitExponent (cs : List Char) : List Char × Option (List Char) :=
  match cs.dropWhile (fun c ↦ !(c = 'e' || c = 'E')) with
  | [] => (cs, none)
  | _ :: exponent => (cs.takeWhile (fun c ↦ !(c = 'e' || c = 'E')), some exponent)

/-- Whether the characters are a number with a fraction or an exponent. A positive one must not be
too large for double precision. -/
def isFloat (cs : List Char) : Bool :=
  let (sign, cs) := splitSign cs
  if cs = ['i', 'n', 'f'] ∨ cs = ['n', 'a', 'n'] then true
  else
    let (mantissa, exponent) := splitExponent cs
    let whole := mantissa.takeWhile (· ≠ '.')
    let fraction? : Option (List Char) :=
      match mantissa.dropWhile (· ≠ '.') with
      | [] => if exponent.isSome then some [] else none
      | _ :: fraction => digitGroups? Char.isDigit fraction
    let exponent? : Option Int :=
      match exponent with
      | none => some 0
      | some exponent =>
        let (sign, digits) := splitSign exponent
        (digitGroups? Char.isDigit digits).map (fun digits ↦
          let n : Int := Digits.toNat 10 digits
          if sign = some '-' then -n else n)
    match wholeDigits? whole, fraction?, exponent? with
    | some whole, some fraction, some exponent =>
      let digits := Digits.toNat 10 (whole ++ fraction)
      sign = some '-' || (Binary.ofDecimal? digits (exponent - fraction.length)).isSome
    | _, _, _ => false

/-- The number that two digits denote. -/
def twoDigits? : List Char → Option Nat
  | [a, b] => if a.isDigit && b.isDigit then some (Digits.toNat 10 [a, b]) else none
  | _ => none

/-- The number of days of a month. -/
def daysIn (year month : Nat) : Nat :=
  if month = 2 then if year % 4 = 0 ∧ (year % 100 ≠ 0 ∨ year % 400 = 0) then 29 else 28
  else if month ∈ [4, 6, 9, 11] then 30
  else 31

/-- Whether the characters are a day of the calendar, as in `1979-05-27`. -/
def isDate (cs : List Char) : Bool :=
  match Text.pieces '-' cs with
  | [year, month, day] =>
    match twoDigits? month, twoDigits? day with
    | some m, some d =>
      year.length = 4 && year.all Char.isDigit && 1 ≤ m && m ≤ 12 && 1 ≤ d &&
        d ≤ daysIn (Digits.toNat 10 year) m
    | _, _ => false
  | _ => false

/-- Whether the characters are a time of day, as in `07:32:00` or `07:32:00.5`. -/
def isTime (cs : List Char) : Bool :=
  let fraction := cs.dropWhile (· ≠ '.')
  let isFraction := fraction.isEmpty || (1 < fraction.length && (fraction.drop 1).all Char.isDigit)
  match Text.pieces ':' (cs.takeWhile (· ≠ '.')) with
  | [hour, minute, second] =>
    match twoDigits? hour, twoDigits? minute, twoDigits? second with
    | some h, some m, some s => h ≤ 23 && m ≤ 59 && s ≤ 60 && isFraction
    | _, _, _ => false
  | _ => false

/-- Whether the characters are a distance from universal time, as in `-07:00`. -/
def isOffset : List Char → Bool
  | '+' :: rest => isOffsetTime rest
  | '-' :: rest => isOffsetTime rest
  | _ => false
where
  /-- Whether the characters are hours and minutes. -/
  isOffsetTime (cs : List Char) : Bool :=
    match Text.pieces ':' cs with
    | [hour, minute] =>
      match twoDigits? hour, twoDigits? minute with
      | some h, some m => h ≤ 23 && m ≤ 59
      | _, _ => false
    | _ => false

/-- Whether the characters are a time of day, with or without a distance from universal time. -/
def isZonedTime (cs : List Char) : Bool :=
  let isSign := fun c ↦ c = '+' || c = '-'
  match cs.getLast? with
  | some 'Z' => isTime cs.dropLast
  | some 'z' => isTime cs.dropLast
  | _ =>
    isTime cs ||
      (isTime (cs.takeWhile (!isSign ·)) && isOffset (cs.dropWhile (!isSign ·)))

/-- Whether the characters are a date, a time of day, or both with a letter between them. -/
def isMoment (cs : List Char) : Bool :=
  isDate cs || isTime cs ||
    (isDate (cs.take 10) && (cs.drop 10).head?.any (· ∈ ['T', 't', ' ']) &&
      isZonedTime (cs.drop 11))

/-- Characters of numbers, times and truth values. -/
def isWordChar (c : Char) : Bool :=
  c.isAlphanum || c ∈ ['+', '-', '_', '.', ':']

/-- The value that a word stands for. -/
def word? (cs : List Char) : Option Toml :=
  if cs = ['t', 'r', 'u', 'e'] then some (boolean true)
  else if cs = ['f', 'a', 'l', 's', 'e'] then some (boolean false)
  else
    match integer? cs with
    | some n => some (integer n)
    | none =>
      if isFloat cs then some decimal
      else if isMoment cs then some moment
      else none

/-- A number, a truth value or a point in time. A date may be set apart from a time by a blank. -/
def readWord (cs : List Char) : Read Toml :=
  let word := cs.takeWhile isWordChar
  let rest := cs.dropWhile isWordChar
  match isDate word, rest with
  | true, ' ' :: c :: more =>
    if c.isDigit then
      let time := (c :: more).takeWhile isWordChar
      (word? (word ++ ' ' :: time)).map (·, (c :: more).dropWhile isWordChar)
    else (word? word).map (·, rest)
  | _, _ => (word? word).map (·, rest)

end Provenance.Toml
