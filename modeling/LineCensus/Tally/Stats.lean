import LineCensus.Error
import LineCensus.Line

/-! Counters of one file, and the ratios between them. -/
namespace LineCensus

/-- The quotient of two integers, or zero if the divisor is zero. -/
def ratio (part whole : Int) : Except NumberError Numeric.Binary64 :=
  if whole = 0 then .ok .zero
  else match Numeric.Binary64.ofRatio? part whole with
    | none => .error .quotientTooLarge
    | some x => .ok x

def percentage (part whole : Int) : Except NumberError Numeric.Binary64 :=
  (ratio part whole).map fun x => if whole = 0 then x else x.timesNat 100

/-- Line counters, and the number of variables declared. The first three counters add up to the total
when they come from lines. -/
structure Stats where
  blank : Int := 0
  comment : Int := 0
  code : Int := 0
  declared : Int := 0
  total : Int := 0
deriving DecidableEq, Repr

namespace Stats

def add (a b : Stats) : Stats where
  blank := a.blank + b.blank
  comment := a.comment + b.comment
  code := a.code + b.code
  declared := a.declared + b.declared
  total := a.total + b.total

instance : Add Stats := ⟨add⟩

def count (stats : Stats) (result : LineResult) : Stats :=
  let stats := match result.kind with
    | .blank => { stats with blank := stats.blank + 1 }
    | .comment => { stats with comment := stats.comment + 1 }
    | .code => { stats with code := stats.code + 1 }
  { stats with declared := stats.declared + result.declared, total := stats.total + 1 }

def ofResults (results : List LineResult) : Stats :=
  results.foldl count {}

def codeDensity (s : Stats) : Except NumberError Numeric.Binary64 := percentage s.code s.total

def commentRatio (s : Stats) : Except NumberError Numeric.Binary64 := percentage s.comment s.total

def blankRatio (s : Stats) : Except NumberError Numeric.Binary64 := percentage s.blank s.total

def variablesPerLine (s : Stats) : Except NumberError Numeric.Binary64 := ratio s.declared s.total

end Stats

end LineCensus
