import LineCensus.Numeric.Decimal
import LineCensus.Text.Quoted

/-! Values of settings as they may be given, and their text in messages. -/
namespace LineCensus

inductive Value where
  | none
  | flag (b : Bool)
  | integer (n : Int)
  | number (x : Numeric.Binary64)
  | text (s : String)
  | list (items : List Value)
  | record (fields : List (String × Value))
deriving Inhabited

namespace Value

def quote (s : String) : String :=
  String.ofList (Text.quoted s.toList)

mutual

def display : Value → String
  | .none => "None"
  | .flag b => if b then "True" else "False"
  | .integer n => toString n
  | .number x => x.shortest
  | .text s => quote s
  | .list items => "[" ++ ", ".intercalate (displayItems items) ++ "]"
  | .record fields => "\x7b" ++ ", ".intercalate (displayFields fields) ++ "\x7d"

def displayItems : List Value → List String
  | [] => []
  | item :: rest => display item :: displayItems rest

def displayFields : List (String × Value) → List String
  | [] => []
  | (name, value) :: rest => (quote name ++ ": " ++ display value) :: displayFields rest

end

end Value

end LineCensus
