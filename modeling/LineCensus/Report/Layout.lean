import LineCensus.Numeric.Decimal
import LineCensus.Text.Integer

/-! Columns and rules of printed reports. -/
namespace LineCensus.Report

def spaces (text : String) (width : Nat) : String :=
  String.ofList (List.replicate (width - text.length) ' ')

/-- The text at the left of a column; a longer one widens the column. -/
def left (width : Nat) (text : String) : String :=
  text ++ spaces text width

def right (width : Nat) (text : String) : String :=
  spaces text width ++ text

def ruler (width : Nat) : String :=
  String.ofList (List.replicate width '-')

def row (cells : List String) : String :=
  " | ".intercalate cells

def unlines (lines : List String) : String :=
  String.join (lines.map (· ++ "\n"))

end LineCensus.Report
