import LineCensus.Error

/-! Sizes of files for people. -/
namespace LineCensus.Report

open Numeric (Binary64)

def sizeUnits : List String := ["Bytes", "KB", "MB", "GB"]

/-- The size in the first unit in which it is below 1024, or in the last one. -/
def scaleSize (size : Binary64) : List String → Binary64 × String
  | [] => (size, "")
  | [unit] => (size, unit)
  | unit :: rest => if size.atLeast 1024 then scaleSize (size.overNat 1024) rest else (size, unit)

def fileSize (bytes : Int) : Except NumberError String :=
  if bytes ≤ 0 then .ok "0 Bytes"
  else match Binary64.ofInt? bytes with
    | none => .error .integerTooLarge
    | some size =>
      let (size, unit) := scaleSize size sizeUnits
      .ok (size.roundHundredths.general ++ " " ++ unit)

end LineCensus.Report
