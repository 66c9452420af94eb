import LineCensus.Pattern.Basic
import LineCensus.Text.Blank
import LineCensus.Text.WordChar

/-! Forms of patterns that recur: fixed words, blanks, optional parts, and conditions on what stands
before or after a place. -/
namespace LineCensus.Pattern

/-- One pattern after another. What comes first is tried first: a sequence is nested to the right. -/
def andThen : Pattern → Pattern → Pattern
  | .seq p q, r => .seq p (andThen q r)
  | p, q => .seq p q

instance : Append Pattern := ⟨andThen⟩

instance : OrElse Pattern := ⟨fun p q => alt p (q ())⟩

def lit (text : String) : Pattern := literal text.toList

/-- The first of the given words that leads to a match. -/
def anyWord (words : List String) : Pattern := oneOf (words.map String.toList)

def among (chars : List Char) (c : Char) : Bool :=
  chars.any (c == ·)

def outside (chars : List Char) (c : Char) : Bool :=
  !among chars c

def oneOrMore (accept : Char → Bool) : Pattern := one accept ++ many accept

/-- All characters but the given ones up to the next of these, and at least one. -/
def someUpTo (chars : List Char) : Pattern := one (outside chars) ++ upTo (outside chars)

def opt (p : Pattern) : Pattern := alt p empty

def plus (p : Pattern) : Pattern := p ++ star p

def blanks : Pattern := many Text.isBlank

def gap : Pattern := oneOrMore Text.isBlank

def atStart : Pattern := check fun c => c.before.isEmpty

/-- The end of the line, or the place before a line feed that ends it. -/
def atEnd : Pattern := check fun c => c.rest == [] || c.rest == ['\n']

def wordNext : List Char → Bool
  | [] => false
  | c :: _ => Text.isWordChar c

def wordEdge : Pattern := check fun c => wordNext c.before != wordNext c.rest

def ahead (p : Pattern) : Pattern := check p.fits

def notAhead (p : Pattern) : Pattern := check fun c => !p.fits c

def behind (accept : Char → Bool) (last : Char) : Pattern :=
  check fun c =>
    match c.before with
    | y :: x :: _ => y == last && accept x
    | _ => false

end LineCensus.Pattern
