/-! Binary64 numbers with correctly rounded arithmetic on exact quotients of integers. -/
namespace LineCensus.Numeric

def pow2 (n : Nat) : Nat := Nat.pow 2 n

def pow10 (n : Nat) : Nat := Nat.pow 10 n

/-- The integer nearest to `num / den`; a tie goes to the even neighbour. -/
def roundHalfEven (num den : Nat) : Nat :=
  let quotient := num / den
  let twice := 2 * (num % den)
  if twice < den || (twice == den && quotient % 2 == 0) then quotient else quotient + 1

/-- A binary64 number other than NaN. A finite one is `significand * 2 ^ exponent` with its sign; the
significand is below `2 ^ 53`, and at least `2 ^ 52` unless the exponent is the least, `-1074`. -/
inductive Binary64 where
  | finite (negative : Bool) (significand : Nat) (exponent : Int)
  | infinite (negative : Bool)
deriving DecidableEq, Repr

namespace Binary64

def minExponent : Int := -1074

def maxExponent : Int := 971

def scaled (num den : Nat) (exponent : Int) : Nat :=
  roundHalfEven (num * pow2 (-exponent).toNat) (den * pow2 exponent.toNat)

/-- The exponent at which `num / den` has 53 binary digits before the point, or the least one. -/
def quotientExponent (num den : Nat) : Int :=
  let guess : Int := (Nat.log2 num : Int) - (Nat.log2 den : Int) - 52
  let exact : Int :=
    if num * pow2 (-guess).toNat < den * pow2 guess.toNat * pow2 52 then guess - 1 else guess
  max exact minExponent

def bounded (negative : Bool) (significand : Nat) (exponent : Int) : Binary64 :=
  if maxExponent < exponent then .infinite negative else .finite negative significand exponent

/-- The number with the given significand and exponent. A significand that rounding has brought to
`2 ^ 53` is halved. -/
def carried (negative : Bool) (significand : Nat) (exponent : Int) : Binary64 :=
  if significand = pow2 53 then bounded negative (pow2 52) (exponent + 1)
  else bounded negative significand exponent

/-- The binary64 number nearest to `num / den` with the given sign; ties go to the even significand,
and what would need more than the greatest exponent is infinite. -/
def ofQuotient (negative : Bool) (num den : Nat) : Binary64 :=
  if num = 0 then .finite negative 0 minExponent
  else
    let exponent := quotientExponent num den
    carried negative (scaled num den exponent) exponent

def ofInt? (n : Int) : Option Binary64 :=
  match ofQuotient (n < 0) n.natAbs 1 with
  | .infinite _ => none
  | x => some x

/-- The binary64 number nearest to the quotient of two integers, unless that is infinite. A zero has
the sign of the divisor. -/
def ofRatio? (a b : Int) : Option Binary64 :=
  match ofQuotient ((a < 0) != (b < 0)) a.natAbs b.natAbs with
  | .infinite _ => none
  | x => some x

def zero : Binary64 := .finite false 0 minExponent

def numerator (significand : Nat) (exponent : Int) : Nat :=
  significand * pow2 exponent.toNat

def denominator (exponent : Int) : Nat :=
  pow2 (-exponent).toNat

def timesNat (x : Binary64) (n : Nat) : Binary64 :=
  match x with
  | .finite negative m e => ofQuotient negative (numerator m e * n) (denominator e)
  | .infinite negative => .infinite negative

def overNat (x : Binary64) (n : Nat) : Binary64 :=
  match x with
  | .finite negative m e => ofQuotient negative (numerator m e) (denominator e * n)
  | .infinite negative => .infinite negative

def atLeast (x : Binary64) (n : Nat) : Bool :=
  match x with
  | .finite negative m e =>
    if negative then m == 0 && n == 0 else n * denominator e ≤ numerator m e
  | .infinite negative => !negative

def ceil? (x : Binary64) : Option Int :=
  match x with
  | .finite false m e => some ((numerator m e + denominator e - 1) / denominator e : Nat)
  | .finite true m e => some (-(numerator m e / denominator e : Nat))
  | .infinite _ => none

def bits (x : Binary64) : Nat :=
  let signed (negative : Bool) (n : Nat) : Nat := if negative then n + pow2 63 else n
  match x with
  | .finite negative m e =>
    signed negative (if m < pow2 52 then m else (e + 1074).toNat * pow2 52 + m)
  | .infinite negative => signed negative (2047 * pow2 52)

def ofDecimal (negative : Bool) (digits : Nat) (exponent : Int) : Binary64 :=
  let size : Int := (Nat.log2 digits : Int) / 3
  if 400 < exponent then (if digits == 0 then ofQuotient negative 0 1 else .infinite negative)
  else if size + exponent < -400 then ofQuotient negative 0 1
  else ofQuotient negative (digits * pow10 exponent.toNat) (pow10 (-exponent).toNat)

end Binary64

end LineCensus.Numeric
