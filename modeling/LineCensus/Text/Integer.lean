import LineCensus.Text.Blank
import LineCensus.Text.WordChar

/-! Decimal integers: reading them as people type them, and grouping their digits. -/
namespace LineCensus.Text

/-- The zeros of the decimal digits beyond ASCII; nine more digits follow each (Unicode 14). -/
def digitZeros : List Nat :=
  [1632, 1776, 1984, 2406, 2534, 2662, 2790, 2918, 3046, 3174, 3302, 3430, 3558, 3664, 3792,
   3872, 4160, 4240, 6112, 6160, 6470, 6608, 6784, 6800, 6992, 7088, 7232, 7248, 42528, 43216,
   43264, 43472, 43504, 43600, 44016, 65296, 66720, 68912, 69734, 69872, 69942, 70096, 70384,
   70736, 70864, 71248, 71360, 71472, 71904, 72016, 72784, 73040, 73120, 92768, 92864, 93008,
   120782, 120792, 120802, 120812, 120822, 123200, 123632, 125264, 130032]

def digitValue? (c : Char) : Option Nat :=
  if c.toNat < 128 then
    if isDigit c then some (c.toNat - 48) else none
  else (digitZeros.find? (fun first => first ≤ c.toNat && c.toNat < first + 10)).map (c.toNat - ·)

def isNumberPadding (c : Char) : Bool :=
  isBlank c && !(28 ≤ c.toNat && c.toNat ≤ 31)

def digits? : List Char → Option Nat
  | [] => none
  | c :: rest => do go (← digitValue? c) rest
where
  go (value : Nat) : List Char → Option Nat
    | [] => some value
    | '_' :: c :: rest => do go (value * 10 + (← digitValue? c)) rest
    | c :: rest => do go (value * 10 + (← digitValue? c)) rest

/-- Reads an integer of any length: padding, a sign, and decimal digits that may be grouped by
underscores. -/
def integer? (text : List Char) : Option Int :=
  let number := dropEndWhile isNumberPadding (text.dropWhile isNumberPadding)
  match number with
  | '-' :: body => (digits? body).map fun n => -(n : Int)
  | '+' :: body => (digits? body).map fun n => (n : Int)
  | body => (digits? body).map fun n => (n : Int)

def grouped (n : Int) : String :=
  let digits := (toString n.natAbs).toList.reverse
  let marked := digits.zipIdx.flatMap fun (c, i) => if i != 0 && i % 3 == 0 then [',', c] else [c]
  (if n < 0 then "-" else "") ++ String.ofList marked.reverse

end LineCensus.Text
