import LineCensus.Numeric.Binary64

/-! Decimal text of binary64 numbers: with fixed places, with six digits, and with the fewest digits
that read back. -/
namespace LineCensus.Numeric

def padDigits (width n : Nat) : String :=
  let digits := toString n
  String.ofList (List.replicate (width - digits.length) '0') ++ digits

def dropEndZeros (text : String) : String :=
  String.ofList (text.toList.reverse.dropWhile (· == '0')).reverse

def positional (places n : Nat) : String :=
  if places == 0 then toString n
  else toString (n / pow10 places) ++ "." ++ padDigits places (n % pow10 places)

def exponentText (e : Int) : String :=
  (if e < 0 then "-" else "+") ++ padDigits 2 e.natAbs

def signText (negative : Bool) : String := if negative then "-" else ""

def decimalExponent (num den : Nat) : Int :=
  let guess : Int := (toString num).length - (toString den).length
  if num * pow10 (-guess).toNat < den * pow10 guess.toNat then guess - 1 else guess

/-- `num / den` on the grid of multiples of `10 ^ exponent`: the quotient rounded down, and whether
something is left over. -/
def gridFloor (num den : Nat) (exponent : Int) : Nat × Bool :=
  let n := num * pow10 (-exponent).toNat
  let d := den * pow10 exponent.toNat
  (n / d, n % d != 0)

namespace Binary64

def fixed (places : Nat) (x : Binary64) : String :=
  match x with
  | .finite negative m e =>
    signText negative ++
      positional places (roundHalfEven (numerator m e * pow10 places) (denominator e))
  | .infinite negative => signText negative ++ "inf"

def roundHundredths (x : Binary64) : Binary64 :=
  match x with
  | .finite negative m e =>
    ofQuotient negative (roundHalfEven (numerator m e * 100) (denominator e)) 100
  | .infinite negative => .infinite negative

def generalDigits : Nat := 6

/-- The text with at most six digits and no zeros at the end of a fraction. Exponents from -4 to 5
are written out. -/
def general (x : Binary64) : String :=
  match x with
  | .infinite negative => signText negative ++ "inf"
  | .finite negative m e =>
    if m == 0 then signText negative ++ "0"
    else
      let num := numerator m e
      let den := denominator e
      let top := decimalExponent num den
      let step : Int := top - (generalDigits - 1)
      let rounded := roundHalfEven (num * pow10 (-step).toNat) (den * pow10 step.toNat)
      let (digits, top) :=
        if rounded == pow10 generalDigits then (pow10 (generalDigits - 1), top + 1) else (rounded, top)
      let strip (text : String) : String :=
        if text.contains '.' then
          let short := dropEndZeros text
          if short.endsWith "." then (short.dropEnd 1).copy else short
        else text
      signText negative ++
        if -4 ≤ top && top < generalDigits then
          strip (positional (generalDigits - 1 - top).toNat digits)
        else strip (positional (generalDigits - 1) digits) ++ "e" ++ exponentText top

/-- The multiple of `10 ^ exponent` next to the exact value that reads back as `x`: of two, the nearer
one, and of two equally near the even one. -/
def gridCandidate (x : Binary64) (num den : Nat) (exponent : Int) : Option Nat :=
  let (low, more) := gridFloor num den exponent
  let readsBack (digits : Nat) : Bool := ofDecimal false digits exponent == x
  let nearest := roundHalfEven (num * pow10 (-exponent).toNat) (den * pow10 exponent.toNat)
  if readsBack nearest then some nearest
  else if readsBack low then some low
  else if more && readsBack (low + 1) then some (low + 1)
  else none

def shortestDigits (x : Binary64) (num den : Nat) : Nat × Int :=
  let top := decimalExponent num den
  let hits := (List.range 17).filterMap fun (count : Nat) =>
    let exponent := top - (count : Int)
    (gridCandidate x num den exponent).map (·, exponent)
  hits.headD (0, 0)

/-- The text with the fewest digits that read back. Numbers from `0.0001` to below `10 ^ 16` are
written out, with at least one decimal place. -/
def shortest (x : Binary64) : String :=
  match x with
  | .infinite negative => signText negative ++ "inf"
  | .finite negative m e =>
    if m == 0 then signText negative ++ "0.0"
    else
      let (digits, last) := shortestDigits (.finite false m e) (numerator m e) (denominator e)
      let text := dropEndZeros (toString digits)
      let top : Int := last + (toString digits).length - 1
      signText negative ++
        if -4 ≤ top && top < 16 then
          if last < 0 then
            let full := dropEndZeros (positional (-last).toNat digits)
            if full.endsWith "." then full ++ "0" else full
          else toString (digits * pow10 last.toNat) ++ ".0"
        else
          let body := match text.toList with
            | [] => ""
            | [c] => String.ofList [c]
            | c :: rest => String.ofList (c :: '.' :: rest)
          body ++ "e" ++ exponentText top

end Binary64

end LineCensus.Numeric
