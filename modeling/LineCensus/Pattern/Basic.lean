/-! Patterns over a line and the ordered search for a match. A pattern tries its ways through the
line in a fixed order, and the first way on which everything after it fits as well is the match. -/
namespace LineCensus

/-- A place in a line: the number of characters before it, these characters, nearest first, and the
characters after it. -/
structure Cursor where
  offset : Nat
  before : List Char
  rest : List Char

namespace Cursor

def start (line : List Char) : Cursor := ⟨0, [], line⟩

def next? (accept : Char → Bool) (c : Cursor) : Option Cursor :=
  match c.rest with
  | [] => none
  | x :: rest => if accept x then some ⟨c.offset + 1, x :: c.before, rest⟩ else none

def skip? (c : Cursor) : List Char → Option Cursor
  | [] => some c
  | x :: text =>
    match c.rest with
    | [] => none
    | y :: rest => if x == y then skip? ⟨c.offset + 1, y :: c.before, rest⟩ text else none

def firstBehind {α : Type} (answer : Cursor → Option α) (c : Cursor) : List (List Char) → Option α
  | [] => none
  | text :: texts =>
    match c.skip? text with
    | none => firstBehind answer c texts
    | some next =>
      match answer next with
      | some a => some a
      | none => firstBehind answer c texts

def pastFrom (accept : Char → Bool) (offset : Nat) (before : List Char) : List Char → Cursor
  | [] => ⟨offset, before, []⟩
  | x :: rest =>
    if accept x then pastFrom accept (offset + 1) (x :: before) rest else ⟨offset, before, x :: rest⟩

def past (accept : Char → Bool) (c : Cursor) : Cursor :=
  pastFrom accept c.offset c.before c.rest

/-- The places reached over accepted characters, the farthest first, in front of the places already
passed. -/
def sweepFrom (accept : Char → Bool) (passed : List Cursor) (offset : Nat) (before : List Char) :
    List Char → List Cursor
  | [] => ⟨offset, before, []⟩ :: passed
  | x :: rest =>
    let passed := ⟨offset, before, x :: rest⟩ :: passed
    if accept x then sweepFrom accept passed (offset + 1) (x :: before) rest else passed

def sweep (accept : Char → Bool) (c : Cursor) : List Cursor :=
  sweepFrom accept [] c.offset c.before c.rest

def lastAlong {α : Type} (accept : Char → Bool) (answer : Cursor → Option α) (c : Cursor) :
    Option α :=
  match c.next? accept with
  | none => answer c
  | some _ => (c.sweep accept).findSome? answer

def firstAlong {α : Type} (accept : Char → Bool) (answer : Cursor → Option α) (offset : Nat)
    (before : List Char) : List Char → Option α
  | [] => answer ⟨offset, before, []⟩
  | x :: rest =>
    match answer ⟨offset, before, x :: rest⟩ with
    | some a => some a
    | none => if accept x then firstAlong accept answer (offset + 1) (x :: before) rest else none

end Cursor

inductive Pattern where
  /-- Nothing. -/
  | empty
  /-- A condition on the place, without moving. -/
  | check (test : Cursor → Bool)
  /-- One accepted character. -/
  | one (accept : Char → Bool)
  /-- A fixed text. -/
  | literal (text : List Char)
  /-- One of several fixed texts, in their order. -/
  | oneOf (texts : List (List Char))
  /-- Any number of accepted characters, as many as possible first. -/
  | many (accept : Char → Bool)
  /-- Any number of accepted characters, as few as possible first. -/
  | fewest (accept : Char → Bool)
  /-- All accepted characters up to the next one that is not accepted, which has to be there. -/
  | upTo (accept : Char → Bool)
  /-- Two patterns one after the other. -/
  | seq (p q : Pattern)
  /-- The first pattern, and the second if no way through the first leads to a match. -/
  | alt (p q : Pattern)
  /-- Any number of repetitions, each of at least one character, as many as possible first. -/
  | star (p : Pattern)

namespace Pattern

variable {α : Type}

/-- Repeats a step as often as it goes, at most once for each item of a list, and answers at the last
place where the answer is not refused. -/
def repeatStep {β : Type} (step : Cursor → (Cursor → Option α) → Option α)
    (answer : Cursor → Option α) : List β → Cursor → Option α
  | [], c => answer c
  | _ :: more, c =>
    match step c (repeatStep step answer more) with
    | some a => some a
    | none => answer c

/-- The first way through the pattern from `c` whose end `answer` does not refuse. -/
def run (p : Pattern) (c : Cursor) (answer : Cursor → Option α) : Option α :=
  match p with
  | .empty => answer c
  | .check test => if test c then answer c else none
  | .one accept =>
    match c.next? accept with
    | none => none
    | some c => answer c
  | .literal text =>
    match c.skip? text with
    | none => none
    | some c => answer c
  | .oneOf texts => c.firstBehind answer texts
  | .many accept => c.lastAlong accept answer
  | .fewest accept => Cursor.firstAlong accept answer c.offset c.before c.rest
  | .upTo accept => if (c.rest.dropWhile accept).isEmpty then none else answer (c.past accept)
  | .seq p q => p.run c fun c => q.run c answer
  | .alt p q =>
    match p.run c answer with
    | some a => some a
    | none => q.run c answer
  | .star p => repeatStep p.run answer c.rest c

def fits (p : Pattern) (c : Cursor) : Bool :=
  (p.run c some).isSome

end Pattern

end LineCensus
