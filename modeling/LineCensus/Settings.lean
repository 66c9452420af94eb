import LineCensus.Error

/-! The settings of an analysis. -/
namespace LineCensus

structure Settings where
  chunkSize : Nat := 1000
  maxLines : Nat := 100000
  chunkSize_pos : 0 < chunkSize := by omega
  maxLines_pos : 0 < maxLines := by omega

namespace Settings

def default : Settings := {}

/-- A positive integer; truth values are none, and neither are numbers with a point. -/
def positive (setting : Setting) (value : Value) : Except AnalysisError { n : Nat // 0 < n } :=
  match value with
  | .integer n => if h : 0 < n then .ok ⟨n.toNat, by omega⟩ else .error (.invalidSetting setting value)
  | _ => .error (.invalidSetting setting value)

def ofValues (chunkSize maxLines : Value) : Except AnalysisError Settings := do
  let chunkSize ← positive .chunkSize chunkSize
  let maxLines ← positive .maxLines maxLines
  return ⟨chunkSize.1, maxLines.1, chunkSize.2, maxLines.2⟩

end Settings

end LineCensus
