import LineCensus.Pattern.Forms

/-! Families of declarations: one way of declaring variables each, with the names that a match of it
declares. -/
namespace LineCensus.Declaration

inductive Binding where
  /-- One name. -/
  | single
  /-- A comma list of names; braces and brackets around them do not count. -/
  | names
  /-- A comma list of names that may have types before them and defaults after them. -/
  | typedNames
deriving DecidableEq, Repr

structure Identifier where
  isHead : Char → Bool
  isTail : Char → Bool

def Identifier.accepts (identifier : Identifier) : List Char → Bool
  | [] => false
  | c :: rest => identifier.isHead c && rest.all identifier.isTail

def Identifier.pattern (identifier : Identifier) : Pattern :=
  .one identifier.isHead ++ .many identifier.isTail

/-- One way of declaring variables: what comes before the bound part, the bound part, and what comes
after it. -/
structure Family where
  name : String
  binding : Binding
  lead : Pattern := .empty
  bound : Pattern
  tail : Pattern := .empty

structure Occurrence where
  offset : Nat
  length : Nat
  bound : List Char

namespace Family

def occurrence? (family : Family) (c : Cursor) : Option Occurrence :=
  family.lead.run c fun start =>
    family.bound.run start fun stop =>
      family.tail.run stop fun finish => some {
        offset := c.offset
        length := finish.offset - c.offset
        bound := start.rest.take (stop.offset - start.offset) }

/-- The occurrences from a place on, after `skip` characters that belong to the occurrence before. -/
def occurrencesFrom (family : Family) (offset : Nat) (before : List Char) :
    List Char → Nat → List Occurrence
  | [], _ => []
  | c :: rest, skip + 1 => occurrencesFrom family (offset + 1) (c :: before) rest skip
  | c :: rest, 0 =>
    match family.occurrence? ⟨offset, before, c :: rest⟩ with
    | none => occurrencesFrom family (offset + 1) (c :: before) rest 0
    | some found =>
      found :: occurrencesFrom family (offset + 1) (c :: before) rest (found.length - 1)

/-- The occurrences in a line from left to right; each begins where the one before it has ended or
later. -/
def occurrences (family : Family) (line : List Char) : List Occurrence :=
  family.occurrencesFrom 0 [] line 0

end Family

/-- The name in a piece of a typed list: of its last word before any default value, the part without
pointer marks in front and array brackets behind. -/
def typedName (piece : List Char) : List Char :=
  match (Text.words (piece.takeWhile (· != '='))).getLast? with
  | none => []
  | some word => (word.dropWhile (Pattern.among ['*', '&'])).takeWhile (· != '[')

def Binding.pieces (binding : Binding) (bound : List Char) : List (List Char) :=
  match binding with
  | .single => [bound]
  | .names => Text.splitAt ',' (bound.filter (Pattern.outside ['\x7b', '\x7d', '[', ']']))
  | .typedNames => (Text.splitAt ',' bound).map typedName

def Binding.count (binding : Binding) (identifier : Identifier) (bound : List Char) : Nat :=
  match binding with
  | .single => 1
  | _ => (binding.pieces bound).countP fun piece => identifier.accepts (Text.trim piece)

def total {α : Type} (f : α → Nat) (items : List α) : Nat :=
  items.foldr (fun item n => f item + n) 0

def Family.count (family : Family) (identifier : Identifier) (line : List Char) : Nat :=
  total (fun found => family.binding.count identifier found.bound) (family.occurrences line)

structure Heuristic where
  name : String
  identifier : Identifier
  families : List Family

def isPunctuation (line : List Char) : Bool :=
  line.all (Pattern.among ['\x7b', '\x7d', '(', ')', ';', ',', '[', ']'])

/-- An estimate of the number of variables that a line declares: the sum over all families, so that
a declaration of two families counts twice. -/
def Heuristic.count (heuristic : Heuristic) (line : List Char) : Nat :=
  let line := Text.trim line
  if line.isEmpty || isPunctuation line then 0
  else total (fun family => family.count heuristic.identifier line) heuristic.families

def Heuristic.only (heuristic : Heuristic) (family : Family) : Heuristic :=
  { heuristic with families := [family] }

end LineCensus.Declaration
