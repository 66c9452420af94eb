import LineCensus.Error

/-! Work on lines in batches of a fixed size: what is done, what is reported between the batches, and
where the work can be stopped. -/
namespace LineCensus

open Numeric (Binary64)

def progress (done total : Nat) : Binary64 :=
  ((Binary64.ofQuotient false 100 1).timesNat done).overNat total

/-- The answers to the question whether to stop, by the number of earlier questions. -/
abbrev Answers := Nat → Bool

namespace Batch

/-- How the batches follow each other: at once, or with a pause between two of them for other work. -/
inductive Pace where
  | immediate
  | cooperative
deriving DecidableEq, Repr

inductive Event (α : Type) where
  | line (item : α)
  | progress (percent : Binary64)
  | pause
  | asked (stop : Bool)
deriving Repr

structure Work (σ α β : Type) where
  state : σ
  events : Array (Event α) := #[]
  results : Array (Array β) := #[]
  asked : Nat := 0
  stopped : Bool := false

/-- The number of batches: the binary64 quotient of the two numbers, rounded up, unless it is beyond
the greatest such number. -/
def count? (size : Nat) (lines : Int) : Except NumberError Int :=
  match (Binary64.ofRatio? lines size).bind (·.ceil?) with
  | none => .error .quotientTooLarge
  | some n => .ok n

def count (size lines : Nat) : Nat :=
  match count? size lines with
  | .ok n => n.toNat
  | .error _ => 0

namespace Work

variable {σ α β : Type}

def note (work : Work σ α β) (event : Event α) : Work σ α β :=
  { work with events := work.events.push event }

def readLines (step : σ → α → β × σ) (work : Work σ α β) (results : Array β) :
    List α → Work σ α β × Array β
  | [] => (work, results)
  | line :: rest =>
    let (result, state) := step work.state line
    readLines step ({ work with state }.note (.line line)) (results.push result) rest

def readBatch (step : σ → α → β × σ) (done total : Nat) (work : Work σ α β) (batch : List α) :
    Work σ α β :=
  let (work, results) := readLines step work #[] batch
  { work with results := work.results.push results }.note (.progress (LineCensus.progress done total))

def pause (answers : Option Answers) (work : Work σ α β) : Work σ α β :=
  let work := work.note .pause
  match answers with
  | none => work
  | some answers =>
    let stop := answers work.asked
    { work with asked := work.asked + 1, stopped := stop }.note (.asked stop)

/-- Works on `n` more batches of `total`, the next of which are the lines from `lines` on. Pauses
stand between two batches only. A batch behind the last line is empty. -/
def readBatches (size : Nat) (step : σ → α → β × σ) (pace : Pace) (answers : Option Answers)
    (total : Nat) : Nat → Work σ α β → List α → Work σ α β
  | 0, work, _ => work
  | n + 1, work, lines =>
    let work := readBatch step (total - n) total work (lines.take size)
    let work := if pace = .cooperative ∧ n ≠ 0 then pause answers work else work
    if work.stopped then work
    else readBatches size step pace answers total n work (lines.drop size)

end Work

variable {σ α β : Type}

/-- Works through all lines in batches, one state running through them. `asked` questions have been
asked before. -/
def run (size : Nat) (step : σ → α → β × σ) (pace : Pace) (answers : Option Answers) (asked : Nat)
    (state : σ) (lines : List α) : Work σ α β :=
  let total := count size lines.length
  Work.readBatches size step pace answers total total { state, asked } lines

def Work.flatResults (work : Work σ α β) : List β :=
  work.results.toList.flatMap (·.toList)

def Work.reported (work : Work σ α β) : List Binary64 :=
  work.events.toList.filterMap fun
    | .progress percent => some percent
    | _ => none

end Batch

end LineCensus
