import LineCensus.Proofs.BatchCount
import LineCensus.Proofs.PlainReading

/-! Work in batches against the plain reading of all lines: the same results, the events of a run batch
by batch, and the place where a run is stopped. -/
namespace LineCensus.Batch

variable {σ α β : Type}

def part (size : Nat) (lines : List α) (i : Nat) : List α :=
  (lines.drop (i * size)).take size

def batchEvents (size total : Nat) (lines : List α) (i : Nat) : List (Event α) :=
  (part size lines i).map .line ++ [.progress (progress (i + 1) total)]

def pauseEvents (pace : Pace) (answers : Option Answers) (asked i : Nat) : List (Event α) :=
  match pace, answers with
  | .immediate, _ => []
  | .cooperative, none => [.pause]
  | .cooperative, some answers => [.pause, .asked (answers (asked + i))]

/-- What happens in the first `k` of `total` batches, and behind those of them that are not the last. -/
def trace (size total : Nat) (pace : Pace) (answers : Option Answers) (asked : Nat) (lines : List α)
    (k : Nat) : List (Event α) :=
  (List.range k).flatMap fun i =>
    batchEvents size total lines i ++ if i + 1 < total then pauseEvents pace answers asked i else []

def stopsAt (pace : Pace) (answers : Option Answers) (n : Nat) : Bool :=
  match pace, answers with
  | .cooperative, some answers => answers n
  | _, _ => false

def questions (pace : Pace) (answers : Option Answers) (pauses : Nat) : Nat :=
  match pace, answers with
  | .cooperative, some _ => pauses
  | _, _ => 0

@[simp] theorem questions_zero (pace : Pace) (answers : Option Answers) :
    questions pace answers 0 = 0 := by
  cases pace <;> cases answers <;> rfl

def Event.line? : Event α → Option α
  | .line item => some item
  | _ => none

def Event.percent? : Event α → Option Numeric.Binary64
  | .progress percent => some percent
  | _ => none

def Event.isPause : Event α → Bool
  | .pause => true
  | _ => false

private theorem take_succ_mul (size : Nat) (lines : List α) (k : Nat) :
    lines.take ((k + 1) * size) = lines.take (k * size) ++ part size lines k := by
  rw [Nat.add_mul, Nat.one_mul, List.take_add, part]

private theorem flatMap_part (size : Nat) (lines : List α) (k : Nat) :
    (List.range k).flatMap (part size lines) = lines.take (k * size) := by
  induction k with
  | zero => simp
  | succ k ih => simp [List.range_succ, ih, take_succ_mul]

namespace Work

private theorem readLines_eq (step : σ → α → β × σ) (work : Work σ α β) (results : Array β)
    (lines : List α) :
    readLines step work results lines =
      ({ work with
          state := (readAll step work.state lines).2
          events := work.events ++ (lines.map .line).toArray },
        results ++ (readAll step work.state lines).1.toArray) := by
  induction lines generalizing work results with
  | nil => simp [readLines]
  | cons line rest ih => simp [readLines, ih, note]

theorem readBatch_eq (step : σ → α → β × σ) (done total : Nat) (work : Work σ α β)
    (batch : List α) :
    readBatch step done total work batch =
      { work with
        state := (readAll step work.state batch).2
        events := work.events ++ (batch.map Event.line ++ [Event.progress (progress done total)]).toArray
        results := work.results.push (readAll step work.state batch).1.toArray } := by
  simp [readBatch, readLines_eq, note]

private theorem pause_eq (answers : Option Answers) (work : Work σ α β) (asked i : Nat)
    (hasked : work.asked = asked + questions .cooperative answers i) (hrunning : work.stopped = false) :
    pause answers work =
      { work with
        events := work.events ++ (pauseEvents .cooperative answers asked i).toArray
        asked := asked + questions .cooperative answers (i + 1)
        stopped := stopsAt .cooperative answers (asked + i) } := by
  cases answers with
  | none => simp_all [pause, note, pauseEvents, stopsAt, questions]
  | some answers =>
    simp only [questions] at hasked
    simp only [pause, note, pauseEvents, stopsAt, questions, hasked, Nat.add_assoc]
    congr 1

/-- The work after `k` batches of `total`, with a pause behind each of them and no answer to stop. -/
def through (size total : Nat) (step : σ → α → β × σ) (pace : Pace) (answers : Option Answers)
    (asked : Nat) (state : σ) (lines : List α) (k : Nat) : Work σ α β where
  state := (readAll step state (lines.take (k * size))).2
  events := ((List.range k).flatMap fun i =>
    batchEvents size total lines i ++ pauseEvents pace answers asked i).toArray
  results := ((List.range k).map fun i =>
    (readAll step (readAll step state (lines.take (i * size))).2 (part size lines i)).1.toArray).toArray
  asked := asked + questions pace answers k
  stopped := false

variable {size total asked : Nat} {step : σ → α → β × σ} {pace : Pace} {answers : Option Answers}
  {state : σ} {lines : List α}

/-- One batch more, and no pause behind it. -/
theorem readBatch_through (k : Nat) :
    readBatch step (k + 1) total (through size total step pace answers asked state lines k)
        (part size lines k) =
      { through size total step pace answers asked state lines (k + 1) with
        events := (through size total step pace answers asked state lines k).events ++
          (batchEvents size total lines k).toArray
        asked := asked + questions pace answers k } := by
  rw [readBatch_eq]
  simp only [through, batchEvents, take_succ_mul, readAll_append, List.range_succ, List.map_append,
    List.map_cons, List.map_nil]
  congr 1
  exact Array.ext' (by simp)

private theorem pause_readBatch (k : Nat) :
    (if pace = .cooperative then
        pause answers (readBatch step (k + 1) total
          (through size total step pace answers asked state lines k) (part size lines k))
      else readBatch step (k + 1) total
          (through size total step pace answers asked state lines k) (part size lines k)) =
      { through size total step pace answers asked state lines (k + 1) with
        stopped := stopsAt pace answers (asked + k) } := by
  cases pace with
  | immediate =>
    rw [if_neg (by decide), readBatch_through]
    simp only [through, pauseEvents, questions, stopsAt, List.range_succ, List.flatMap_append]
    congr 1
    exact Array.ext' (by simp)
  | cooperative =>
    rw [if_pos rfl, readBatch_through, pause_eq answers _ asked k rfl rfl]
    simp only [through, List.range_succ, List.flatMap_append]
    congr 1
    exact Array.ext' (by simp)

/-- A run that is not stopped comes through any number of batches that are not the last. -/
theorem readBatches_through {k n : Nat} (hn : n ≠ 0) (htotal : total = k + n)
    (hgo : ∀ i < k, stopsAt pace answers (asked + i) = false) :
    readBatches size step pace answers total total { state, asked } lines =
      readBatches size step pace answers total n
        (through size total step pace answers asked state lines k) (lines.drop (k * size)) := by
  induction k generalizing n with
  | zero => simp [htotal, through, questions_zero]
  | succ k ih =>
    have hdone : total - n = k + 1 := by omega
    rw [ih (Nat.succ_ne_zero n) (by omega) (fun i hi => hgo i (by omega)), readBatches, hdone, ← part]
    simp only [hn, ne_eq, not_false_eq_true, and_true, pause_readBatch]
    rw [hgo k (by omega), if_neg Bool.false_ne_true, List.drop_drop, Nat.add_mul, Nat.one_mul]
    rfl

/-- The last batch has no pause behind it. -/
theorem readBatches_last {k : Nat} (htotal : total = k + 1)
    (hgo : ∀ i < k, stopsAt pace answers (asked + i) = false) :
    readBatches size step pace answers total total { state, asked } lines =
      { through size total step pace answers asked state lines total with
        events := (through size total step pace answers asked state lines k).events ++
          (batchEvents size total lines k).toArray
        asked := asked + questions pace answers k } := by
  rw [readBatches_through Nat.one_ne_zero htotal hgo, readBatches, ← part, show total - 0 = k + 1 from htotal]
  simp only [ne_eq, not_true_eq_false, and_false, if_false, readBatch_through, htotal, readBatches]
  rfl

/-- An answer to stop ends the run behind the batch in front of it. -/
theorem readBatches_stopped {k n : Nat} (hn : n ≠ 0) (htotal : total = k + 1 + n)
    (hgo : ∀ i < k, stopsAt pace answers (asked + i) = false)
    (hstop : stopsAt pace answers (asked + k) = true) :
    readBatches size step pace answers total total { state, asked } lines =
      { through size total step pace answers asked state lines (k + 1) with stopped := true } := by
  have hdone : total - n = k + 1 := by omega
  rw [readBatches_through (Nat.succ_ne_zero n) (by omega) hgo, readBatches, hdone, ← part]
  simp only [hn, ne_eq, not_false_eq_true, and_true, pause_readBatch]
  rw [hstop, if_pos rfl]

private theorem flatResults_through (k : Nat) :
    (through size total step pace answers asked state lines k).flatResults =
      (readAll step state (lines.take (k * size))).1 := by
  induction k with
  | zero => simp [flatResults, through]
  | succ k ih =>
    simp only [flatResults, through, List.flatMap_map] at ih ⊢
    rw [List.range_succ, List.flatMap_append, ih, take_succ_mul, readAll_append]
    simp

end Work

section Trace

variable {size total asked k : Nat} {pace : Pace} {answers : Option Answers} {lines : List α}

private theorem trace_eq_of_lt (hk : k < total) :
    trace size total pace answers asked lines k = (List.range k).flatMap fun i =>
      batchEvents size total lines i ++ pauseEvents pace answers asked i := by
  apply List.flatMap_congr
  intro i hi
  rw [if_pos (by have := List.mem_range.mp hi; omega)]

private theorem trace_last (htotal : total = k + 1) :
    trace size total pace answers asked lines total =
      trace size total pace answers asked lines k ++ batchEvents size total lines k := by
  rw [htotal]
  simp [trace, List.range_succ]

private theorem filterMap_trace {γ : Type} {f : Event α → Option γ} (hpause : f .pause = none)
    (hasked : ∀ stop, f (.asked stop) = none) :
    (trace size total pace answers asked lines k).filterMap f =
      (List.range k).flatMap fun i => (batchEvents size total lines i).filterMap f := by
  rw [trace, List.filterMap_flatMap]
  apply List.flatMap_congr
  intro i _
  have hpauses : (pauseEvents pace answers asked i).filterMap f = [] := by
    cases pace <;> cases answers <;> simp [pauseEvents, hpause, hasked]
  rw [List.filterMap_append]
  split
  · rw [hpauses, List.append_nil]
  · rw [List.filterMap_nil, List.append_nil]

private theorem filterMap_line?_trace :
    (trace size total pace answers asked lines k).filterMap Event.line? = lines.take (k * size) := by
  rw [filterMap_trace rfl fun _ => rfl, ← flatMap_part]
  apply List.flatMap_congr
  intro i _
  simp [batchEvents, List.filterMap_map, Function.comp_def, Event.line?]

theorem reported_trace :
    (trace size total pace answers asked lines k).filterMap Event.percent? =
      (List.range k).map fun i => progress (i + 1) total := by
  rw [filterMap_trace rfl fun _ => rfl, List.map_eq_flatMap]
  apply List.flatMap_congr
  intro i _
  simp [batchEvents, List.filterMap_map, Function.comp_def, Event.percent?]

private theorem countP_isPause_trace (hk : k < total) :
    (trace size total .cooperative answers asked lines k).countP Event.isPause = k := by
  rw [trace_eq_of_lt hk]
  clear hk
  induction k with
  | zero => rfl
  | succ k ih =>
    have hbatch : (batchEvents size total lines k).countP Event.isPause = 0 := by
      simp [batchEvents, Event.isPause, List.countP_map, Function.comp_def]
    have hpause : (pauseEvents (α := α) .cooperative answers asked k).countP Event.isPause = 1 := by
      cases answers <;> rfl
    rw [List.range_succ, List.flatMap_append, List.countP_append, ih]
    simp [hbatch, hpause]

end Trace

section Parts

variable {size : Nat} {lines : List α}

private theorem mul_lt_length {i : Nat} (hs : 0 < size) (hi : i < lines.length ⌈/⌉ size) :
    i * size < lines.length := by
  rw [Nat.mul_comm]
  exact Nat.lt_of_not_le fun h => Nat.not_le.mpr hi ((ceilDiv_le_iff_le_mul hs).mpr h)

private theorem take_ceilDiv_mul (hs : 0 < size) : lines.take (lines.length ⌈/⌉ size * size) = lines := by
  apply List.take_of_length_le
  rw [Nat.mul_comm]
  exact (ceilDiv_le_iff_le_mul hs).mp le_rfl

private theorem length_part {i : Nat} (hs : 0 < size) (hi : i + 1 < lines.length ⌈/⌉ size) :
    (part size lines i).length = size := by
  have := mul_lt_length hs hi
  rw [Nat.add_mul] at this
  simp only [part, List.length_take, List.length_drop]
  omega

end Parts

structure Work.HasRead (work : Work σ α β) (step : σ → α → β × σ) (state : σ) (lines : List α) :
    Prop where
  running : work.stopped = false
  results : work.flatResults = (readAll step state lines).1
  last : work.state = (readAll step state lines).2

section Run

variable {size asked : Nat} {step : σ → α → β × σ} {pace : Pace} {answers : Option Answers}
  {state : σ} {lines : List α}

theorem reported_eq (work : Work σ α β) :
    work.reported = work.events.toList.filterMap Event.percent? := by
  unfold Work.reported
  congr 1

private theorem run_of_count_eq_zero (hcount : count size lines.length = 0) :
    run size step pace answers asked state lines = { state, asked } := by
  simp [run, hcount, Work.readBatches]

private theorem run_of_count_eq_succ {k : Nat} (hcount : count size lines.length = k + 1)
    (hgo : ∀ i < k, stopsAt pace answers (asked + i) = false) :
    run size step pace answers asked state lines =
      { Work.through size (k + 1) step pace answers asked state lines (k + 1) with
        events := (Work.through size (k + 1) step pace answers asked state lines k).events ++
          (batchEvents size (k + 1) lines k).toArray
        asked := asked + questions pace answers k } := by
  rw [run, hcount]
  exact Work.readBatches_last rfl hgo

variable (hgo : ∀ i, i + 1 < count size lines.length → stopsAt pace answers (asked + i) = false)
include hgo

theorem run_hasRead :
    (run size step pace answers asked state lines).HasRead step state
      (lines.take (count size lines.length * size)) := by
  cases hcount : count size lines.length with
  | zero =>
    rw [run_of_count_eq_zero hcount]
    exact ⟨rfl, by simp [Work.flatResults], by simp⟩
  | succ k =>
    rw [run_of_count_eq_succ hcount fun i hi => hgo i (by omega)]
    have hresults : (Work.through size (k + 1) step pace answers asked state lines (k + 1)).flatResults =
        (readAll step state (lines.take ((k + 1) * size))).1 := Work.flatResults_through (k + 1)
    exact ⟨rfl, hresults, rfl⟩

theorem events_run :
    (run size step pace answers asked state lines).events.toList =
      trace size (count size lines.length) pace answers asked lines (count size lines.length) := by
  cases hcount : count size lines.length with
  | zero =>
    rw [run_of_count_eq_zero hcount]
    rfl
  | succ k =>
    rw [run_of_count_eq_succ hcount fun i hi => hgo i (by omega), trace_last rfl,
      trace_eq_of_lt (Nat.lt_succ_self k)]
    simp [Work.through]

theorem asked_run :
    (run size step pace answers asked state lines).asked =
      asked + questions pace answers (count size lines.length - 1) := by
  cases hcount : count size lines.length with
  | zero =>
    rw [run_of_count_eq_zero hcount]
    simp
  | succ k => rw [run_of_count_eq_succ hcount fun i hi => hgo i (by omega), Nat.add_sub_cancel]

omit hgo in
private theorem run_of_stopsAt {i : Nat} (hlt : i + 1 < count size lines.length)
    (hfirst : ∀ j < i, stopsAt pace answers (asked + j) = false)
    (hstop : stopsAt pace answers (asked + i) = true) :
    run size step pace answers asked state lines =
      { Work.through size (count size lines.length) step pace answers asked state lines (i + 1) with
        stopped := true } :=
  Work.readBatches_stopped (Nat.sub_ne_zero_of_lt hlt) (Nat.add_sub_of_le hlt.le).symm hfirst hstop

omit hgo in
private theorem run_stopped {k : Nat} (hk : 1 ≤ k) (hlt : k < count size lines.length)
    (hfirst : ∀ j, 1 ≤ j → j < k → stopsAt pace answers (asked + (j - 1)) = false)
    (hstop : stopsAt pace answers (asked + (k - 1)) = true) :
    (run size step pace answers asked state lines).stopped = true ∧
      (run size step pace answers asked state lines).events.toList =
        trace size (count size lines.length) pace answers asked lines k := by
  obtain ⟨i, rfl⟩ := Nat.exists_eq_add_of_le' hk
  rw [run_of_stopsAt hlt (fun j hj => hfirst (j + 1) (by omega) (by omega)) hstop, trace_eq_of_lt hlt]
  exact ⟨rfl, rfl⟩

omit hgo in
/-- The question that is answered with stop is the last one. -/
theorem asked_run_stopped {i : Nat} (hlt : i + 1 < count size lines.length)
    (hfirst : ∀ j < i, stopsAt pace answers (asked + j) = false)
    (hstop : stopsAt pace answers (asked + i) = true) :
    (run size step pace answers asked state lines).stopped = true ∧
      (run size step pace answers asked state lines).asked = asked + i + 1 := by
  have hquestions : questions pace answers (i + 1) = i + 1 := by
    cases pace with
    | immediate => cases hstop
    | cooperative =>
      cases answers with
      | none => cases hstop
      | some answers => rfl
  rw [run_of_stopsAt hlt hfirst hstop]
  refine ⟨rfl, ?_⟩
  change asked + questions pace answers (i + 1) = asked + i + 1
  rw [hquestions, Nat.add_assoc]

end Run

/-- Work in batches comes to the same as reading all lines one after another, at either pace and with
one state running through. Lines are worked on batch by batch, each followed by one report; a
cooperative run pauses and asks between two batches and nowhere else. The first answer to stop, given
to the `k`-th question, ends the run behind `k` whole batches. -/
theorem run_reads_in_batches (size : Nat) (step : σ → α → β × σ) (answers : Option Answers)
    (asked : Nat) (state : σ) (lines : List α) (hs : 0 < size) (hsize : size ≤ 2 ^ 1074)
    (hlines : lines.length ≤ 2 ^ 53) :
    let total := lines.length ⌈/⌉ size
    let immediate := run size step .immediate answers asked state lines
    let cooperative := run size step .cooperative answers asked state lines
    ((List.range total).flatMap (part size lines) = lines ∧
      ∀ i, i + 1 < total → (part size lines i).length = size) ∧
    (immediate.HasRead step state lines ∧
      immediate.events.toList = (List.range total).flatMap (batchEvents size total lines)) ∧
    ((∀ k, 1 ≤ k → k < total → stopsAt .cooperative answers (asked + (k - 1)) = false) →
      cooperative.HasRead step state lines ∧
      cooperative.events.toList = trace size total .cooperative answers asked lines total) ∧
    ∀ k, 1 ≤ k → k < total → stopsAt .cooperative answers (asked + (k - 1)) = true →
      (∀ j, 1 ≤ j → j < k → stopsAt .cooperative answers (asked + (j - 1)) = false) →
      cooperative.stopped = true ∧
      cooperative.events.toList = trace size total .cooperative answers asked lines k ∧
      cooperative.events.toList.filterMap Event.line? = lines.take (k * size) ∧
      k * size < lines.length ∧ cooperative.reported.length = k ∧
      cooperative.events.toList.countP Event.isPause = k := by
  intro total immediate cooperative
  have hcount : count size lines.length = total := count_eq_ceilDiv hs hsize hlines
  have htake : lines.take (count size lines.length * size) = lines := by
    rw [hcount]
    exact take_ceilDiv_mul hs
  have hnever (i : Nat) (_ : i + 1 < count size lines.length) :
      stopsAt .immediate answers (asked + i) = false := rfl
  refine ⟨⟨?_, fun i hi => length_part hs hi⟩, ⟨?_, ?_⟩, ?_, ?_⟩
  · rw [flatMap_part]
    exact take_ceilDiv_mul hs
  · have h : immediate.HasRead step state _ := run_hasRead hnever
    rwa [htake] at h
  · have h : immediate.events.toList = _ := events_run hnever
    rw [h, hcount]
    simp [trace, pauseEvents]
  · intro hno
    have hgo (i : Nat) (hi : i + 1 < count size lines.length) :
        stopsAt .cooperative answers (asked + i) = false := hno (i + 1) (by omega) (by omega)
    have hread : cooperative.HasRead step state _ := run_hasRead hgo
    have hevents : cooperative.events.toList = _ := events_run hgo
    rw [htake] at hread
    rw [hcount] at hevents
    exact ⟨hread, hevents⟩
  · intro k hk hlt hstop hfirst
    have hrun : cooperative.stopped = true ∧ cooperative.events.toList = _ :=
      run_stopped hk (hcount ▸ hlt) hfirst hstop
    obtain ⟨hstopped, hevents⟩ := hrun
    rw [hcount] at hevents
    refine ⟨hstopped, hevents, ?_, mul_lt_length hs hlt, ?_, ?_⟩
    · rw [hevents, filterMap_line?_trace]
    · rw [reported_eq, hevents, reported_trace, List.length_map, List.length_range]
    · rw [hevents, countP_isPause_trace hlt]

/-- Five lines in batches of two: the running sums, and a run that the second answer ends. -/
theorem run_reads_in_batches_of_two :
    0 < 2 ∧ 2 ≤ 2 ^ 1074 ∧ [3, 1, 4, 1, 5].length ≤ 2 ^ 53 ∧
      (run 2 (fun sum n => (sum + n, sum + n)) .immediate (some (· == 1)) 0 0
        [3, 1, 4, 1, 5]).flatResults = [3, 4, 8, 9, 14] ∧
      (run 2 (fun sum n => (sum + n, sum + n)) .cooperative (some (· == 1)) 0 0
        [3, 1, 4, 1, 5]).events.toList = [.line 3, .line 1, .progress (progress 1 3), .pause,
          .asked false, .line 4, .line 1, .progress (progress 2 3), .pause, .asked true] := by
  have hsize : 2 ≤ 2 ^ 1074 := by omega
  have hlines : [3, 1, 4, 1, 5].length ≤ 2 ^ 53 := by decide
  have h := run_reads_in_batches 2 (fun sum n => (sum + n, sum + n)) (some (· == 1)) 0 0
    [3, 1, 4, 1, 5] (by decide) hsize hlines
  obtain ⟨-, ⟨hread, -⟩, -, hstopped⟩ := h
  have hevents := (hstopped 2 (by decide) (by decide) rfl (by decide)).2.1
  exact ⟨by decide, hsize, hlines, hread.results, hevents⟩

end LineCensus.Batch
