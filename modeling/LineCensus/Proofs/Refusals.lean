import LineCensus.Proofs.Cutting
import LineCensus.Proofs.LineTotals

/-! What is refused before any work: names without a language, and texts with too many lines. The events of an analysis
tell what work there was. -/
namespace LineCensus

namespace Batch

variable {σ α β : Type}

def Event.isAnswer : Event α → Bool
  | .asked _ => true
  | _ => false

namespace Work

/-- The events account for the questions asked since `start` and for the results: one answer for each question, and
the work on one line for each result. -/
structure Recorded (work : Work σ α β) (start : Nat) : Prop where
  asked : work.asked = start + work.events.toList.countP Event.isAnswer
  results : work.flatResults.length = (work.events.toList.filterMap Event.line?).length

variable {work : Work σ α β} {start : Nat}

private theorem Recorded.readBatch (h : work.Recorded start) (step : σ → α → β × σ) (done total : Nat)
    (batch : List α) :
    (readBatch step done total work batch).Recorded start := by
  rw [readBatch_eq]
  constructor
  · have hbatch : (batch.map Event.line).countP Event.isAnswer = 0 := by
      simp [List.countP_map, Function.comp_def, Event.isAnswer]
    simp only [h.asked, Array.toList_append, List.countP_append, hbatch]
    rfl
  · have hbatch : (batch.map Event.line).filterMap Event.line? = batch := by
      simp [List.filterMap_map, Function.comp_def, Event.line?]
    have hresults := h.results
    simp only [flatResults] at hresults ⊢
    simp [hresults, hbatch, Event.line?]

private theorem Recorded.note {event : Event α} (h : work.Recorded start) (hanswer : event.isAnswer = false)
    (hline : event.line? = none) : (work.note event).Recorded start := by
  constructor
  · simp only [Work.note, Array.toList_push, List.countP_append, List.countP_singleton, hanswer, h.asked]
    rfl
  · simp only [Work.note, Array.toList_push, List.filterMap_append, List.filterMap_cons, hline, List.filterMap_nil,
      List.append_nil]
    exact h.results

private theorem Recorded.ask (h : work.Recorded start) (stop : Bool) :
    ({ work with asked := work.asked + 1, stopped := stop }.note (.asked stop)).Recorded start := by
  constructor
  · simp only [Work.note, Array.toList_push, List.countP_append, h.asked, Nat.add_assoc]
    rfl
  · simp only [Work.note, Array.toList_push, List.filterMap_append]
    exact h.results.trans (congrArg List.length (List.append_nil _).symm)

private theorem Recorded.pause (h : work.Recorded start) (answers : Option Answers) :
    (pause answers work).Recorded start := by
  have hpause : (work.note .pause).Recorded start := h.note rfl rfl
  cases answers with
  | none => exact hpause
  | some answers => exact hpause.ask (answers work.asked)

private theorem Recorded.readBatches {size total : Nat} {step : σ → α → β × σ} {pace : Pace} {answers : Option Answers}
    (n : Nat) (h : work.Recorded start) (lines : List α) :
    (readBatches size step pace answers total n work lines).Recorded start := by
  induction n generalizing work lines with
  | zero => exact h
  | succ n ih =>
    have hbatch := h.readBatch step (total - n) total (lines.take size)
    have hpaused : (if pace = .cooperative ∧ n ≠ 0 then
        Work.pause answers (Work.readBatch step (total - n) total work (lines.take size))
      else Work.readBatch step (total - n) total work (lines.take size)).Recorded start := by
      split
      · exact hbatch.pause answers
      · exact hbatch
    rw [Work.readBatches]
    generalize (if pace = .cooperative ∧ n ≠ 0 then _ else _) = paused at hpaused ⊢
    split
    · exact hpaused
    · exact ih hpaused _

end Work

private theorem run_recorded (size : Nat) (step : σ → α → β × σ) (pace : Pace) (answers : Option Answers) (asked : Nat)
    (state : σ) (lines : List α) : (run size step pace answers asked state lines).Recorded asked :=
  Work.Recorded.readBatches _ ⟨rfl, rfl⟩ lines

end Batch

/-- A text that is accepted is its lines with line feeds between them. -/
theorem exists_splitLines {text : List Char} {limit : Int} (filename : String) (h : text.count '\n' + 1 ≤ limit) :
    ∃ lines, splitLines text limit filename = .ok lines ∧ ['\n'].intercalate lines = text ∧
      ∀ line ∈ lines, '\n' ∉ line := by
  have hfit : ¬limit < ((Text.splitAt '\n' text).length : Int) := by
    rw [Text.length_splitAt]
    omega
  refine ⟨Text.splitAt '\n' text, ?_, ?_, fun line hline => Text.not_mem_of_mem_splitAt hline⟩
  · simp only [splitLines, if_neg hfit]
  · rw [Text.splitAt_eq_splitOn, List.intercalate_splitOn]

namespace Analyzer

/-- What happens while a text is analysed, in order: the work on its lines, once its name and its length are
accepted. -/
def events (a : Analyzer) (pace : Batch.Pace) (answers : Option Answers) (asked : Nat) (filename : String)
    (text : List Char) : List (Batch.Event (List Char)) :=
  match a.prepare filename text with
  | .error _ => []
  | .ok (language, lines) =>
    (Batch.run a.settings.chunkSize language.readLine pace answers asked .normal lines).events.toList

structure Accounts (run : FileRun) (asked : Nat) (events : List (Batch.Event (List Char))) : Prop where
  progress : run.progress = events.filterMap Batch.Event.percent?
  asked : run.asked = asked + events.countP Batch.Event.isAnswer
  lines : ∀ entry, run.outcome = .ok entry → entry.stats.total = (events.filterMap Batch.Event.line?).length

variable {a : Analyzer} {pace : Batch.Pace} {answers : Option Answers} {asked : Nat} {filename : String}
  {text : List Char}

private theorem accounts_readText (a : Analyzer) (pace : Batch.Pace) (answers : Option Answers) (asked : Nat)
    (filename : String) (text : List Char) :
    Accounts (a.readText pace answers asked filename text) asked (a.events pace answers asked filename text) := by
  cases hprepare : a.prepare filename text with
  | error e =>
    simp only [readText, events, hprepare]
    exact ⟨rfl, rfl, fun _ h => by cases h⟩
  | ok accepted =>
    obtain ⟨language, lines⟩ := accepted
    have hrun := Batch.run_recorded a.settings.chunkSize language.readLine pace answers asked .normal lines
    simp only [readText, events, hprepare]
    refine ⟨Batch.reported_eq _, hrun.asked, fun entry h => ?_⟩
    dsimp only at h
    split at h
    · cases h
    · cases h
      rw [Stats.total_ofResults, hrun.results]

/-- An accepted text has an entry, unless one of its questions is answered with stop. -/
theorem readText_of_accepted (hname : a.registry.isSupported filename = true)
    (hfit : text.count '\n' + 1 ≤ a.settings.maxLines) :
    (∃ entry, (a.readText pace answers asked filename text).outcome = .ok entry) ∨
      (a.readText pace answers asked filename text).outcome = .error (.cancelled "") ∧
        ∃ i, i + 1 < Batch.count a.settings.chunkSize (text.count '\n' + 1) ∧
          Batch.stopsAt pace answers (asked + i) = true := by
  obtain ⟨language, hlanguage⟩ := Option.isSome_iff_exists.mp hname
  by_cases hstop : ∃ i, i + 1 < Batch.count a.settings.chunkSize (text.count '\n' + 1) ∧
      Batch.stopsAt pace answers (asked + i) = true
  · refine .inr ⟨?_, hstop⟩
    obtain ⟨hlt, hfirst⟩ := Nat.find_spec hstop
    refine (readText_stopped hlanguage hfit hlt (fun j hj => ?_) hfirst).1
    have hearlier := Nat.find_min hstop hj
    simpa [show j + 1 < Batch.count a.settings.chunkSize (text.count '\n' + 1) by omega] using hearlier
  · push Not at hstop
    exact .inl ⟨_, (readText_unstopped pace asked hlanguage hfit fun i hi => by simpa using hstop i hi).1⟩

private theorem eq_cancelled_of_accepted {e : AnalysisError} (hname : a.registry.isSupported filename = true)
    (hfit : text.count '\n' + 1 ≤ a.settings.maxLines)
    (h : (a.readText pace answers asked filename text).outcome = .error e) : e = .cancelled "" := by
  rcases readText_of_accepted hname hfit with ⟨entry, hentry⟩ | ⟨hstopped, -⟩
  · rw [hentry] at h
    cases h
  · exact Except.error.inj (h.symm.trans hstopped)

private theorem refuses_unsupported (pace : Batch.Pace) (answers : Option Answers) (asked : Nat) (text : List Char)
    (hname : a.registry.resolve? filename = none) :
    a.readText pace answers asked filename text =
        { outcome := .error (.unsupportedLanguage filename), asked } ∧
      a.events pace answers asked filename text = [] := by
  refine ⟨readText_of_unsupported pace answers asked text hname, ?_⟩
  simp only [events, prepare_eq, hname]

private theorem refuses_tooLong (pace : Batch.Pace) (answers : Option Answers) (asked : Nat)
    (hname : a.registry.isSupported filename = true) (hlong : a.settings.maxLines < text.count '\n' + 1) :
    a.readText pace answers asked filename text =
        { outcome := .error (.inputTooLarge filename (text.count '\n' + 1) a.settings.maxLines "lines"), asked } ∧
      a.events pace answers asked filename text = [] := by
  obtain ⟨language, hlanguage⟩ := Option.isSome_iff_exists.mp hname
  refine ⟨readText_of_tooLong pace answers asked hname hlong, ?_⟩
  simp only [events, prepare_eq, hlanguage]
  rw [if_pos hlong]

private theorem outcome_unsupported_iff :
    (∃ name, (a.readText pace answers asked filename text).outcome = .error (.unsupportedLanguage name)) ↔
      a.registry.resolve? filename = none := by
  constructor
  · rintro ⟨name, hrun⟩
    by_contra hnone
    have hname : a.registry.isSupported filename = true := Option.isSome_iff_ne_none.mpr hnone
    rcases lt_or_ge a.settings.maxLines (text.count '\n' + 1) with hlong | hfit
    · rw [(refuses_tooLong pace answers asked hname hlong).1] at hrun
      cases hrun
    · cases eq_cancelled_of_accepted hname hfit hrun
  · intro hname
    exact ⟨filename, congrArg FileRun.outcome (refuses_unsupported pace answers asked text hname).1⟩

private theorem outcome_tooLarge_iff (hname : a.registry.isSupported filename = true) :
    (∃ name size limit unit,
        (a.readText pace answers asked filename text).outcome = .error (.inputTooLarge name size limit unit)) ↔
      a.settings.maxLines < text.count '\n' + 1 := by
  constructor
  · rintro ⟨name, size, limit, unit, hrun⟩
    by_contra hfit
    cases eq_cancelled_of_accepted hname (Nat.not_lt.mp hfit) hrun
  · intro hlong
    exact ⟨filename, _, _, "lines", congrArg FileRun.outcome (refuses_tooLong pace answers asked hname hlong).1⟩

/-- A refusal names the file in its context. -/
theorem context_of_refused {e : AnalysisError} (h : a.prepare filename text = .error e) :
    e.context.lookup "filename" = some (.text filename) := by
  rw [prepare_eq] at h
  split at h
  · cases h
    rfl
  · split at h
    · cases h
      rfl
    · cases h

/-- A name without a language is refused first, and then a text with too many lines, with their number and the limit;
nothing at all happens in front of a refusal: no line is read, nothing is reported and no question is asked. Every other
text has an entry, unless one of its questions is answered with stop, and is its lines with line feeds between them. -/
theorem readText_refuses_before_work (a : Analyzer) (pace : Batch.Pace) (answers : Option Answers) (asked : Nat)
    (filename : String) (text : List Char) :
    let run := a.readText pace answers asked filename text
    let events := a.events pace answers asked filename text
    let lines := text.count '\n' + 1
    Accounts run asked events ∧
    ((∃ name, run.outcome = .error (.unsupportedLanguage name)) ↔ a.registry.resolve? filename = none) ∧
    (a.registry.resolve? filename = none →
      run = { outcome := .error (.unsupportedLanguage filename), asked } ∧ events = []) ∧
    (a.registry.isSupported filename = true →
      ((∃ name size limit unit, run.outcome = .error (.inputTooLarge name size limit unit)) ↔
        a.settings.maxLines < lines) ∧
      (a.settings.maxLines < lines →
        run = { outcome := .error (.inputTooLarge filename lines a.settings.maxLines "lines"), asked } ∧
          events = []) ∧
      (lines ≤ a.settings.maxLines →
        (∃ entry, run.outcome = .ok entry) ∨ run.outcome = .error (.cancelled "") ∧
          ∃ i, i + 1 < Batch.count a.settings.chunkSize lines ∧ Batch.stopsAt pace answers (asked + i) = true)) ∧
    ∀ limit : Int, lines ≤ limit → ∃ pieces, splitLines text limit filename = .ok pieces ∧
      ['\n'].intercalate pieces = text ∧ ∀ line ∈ pieces, '\n' ∉ line := by
  intro run events lines
  refine ⟨accounts_readText a pace answers asked filename text, outcome_unsupported_iff,
    refuses_unsupported pace answers asked text, fun hname => ⟨?_, ?_, ?_⟩, fun _ => exists_splitLines filename⟩
  · exact outcome_tooLarge_iff hname
  · exact refuses_tooLong pace answers asked hname
  · exact readText_of_accepted hname

/-- With two lines allowed: three lines under a name without a language and under one with a language, and two lines of
which the last one is empty. -/
theorem readText_refuses_three_lines :
    ∃ a : Analyzer, a.settings.maxLines = 2 ∧
      a.registry.resolve? "a.txt" = none ∧
      a.readText .cooperative none 0 "a.txt" "x\n\ny".toList =
        { outcome := .error (.unsupportedLanguage "a.txt"), asked := 0 } ∧
      a.registry.isSupported "a.py" = true ∧ a.settings.maxLines < "x\n\ny".toList.count '\n' + 1 ∧
      a.readText .immediate none 0 "a.py" "x\n\ny".toList =
        { outcome := .error (.inputTooLarge "a.py" 3 2 "lines"), asked := 0 } ∧
      a.events .immediate none 0 "a.py" "x\n\ny".toList = [] ∧
      "x\n".toList.count '\n' + 1 ≤ a.settings.maxLines ∧
      (∃ entry, (a.readText .immediate none 0 "a.py" "x\n".toList).outcome = .ok entry) ∧
      ∃ pieces, splitLines "x\n".toList 2 "a.py" = .ok pieces ∧ ['\n'].intercalate pieces = "x\n".toList := by
  let a : Analyzer := { settings := { maxLines := 2 } }
  have hnone : a.registry.resolve? "a.txt" = none := by decide
  have hname : a.registry.isSupported "a.py" = true := by decide
  have hlong : a.settings.maxLines < "x\n\ny".toList.count '\n' + 1 := by decide
  have hfit : "x\n".toList.count '\n' + 1 ≤ a.settings.maxLines := by decide
  obtain ⟨-, -, hunsupported, -⟩ := a.readText_refuses_before_work .cooperative none 0 "a.txt" "x\n\ny".toList
  obtain ⟨-, -, -, hthree, -⟩ := a.readText_refuses_before_work .immediate none 0 "a.py" "x\n\ny".toList
  obtain ⟨-, -, -, htwo, hpieces⟩ := a.readText_refuses_before_work .immediate none 0 "a.py" "x\n".toList
  obtain ⟨hrefused, hevents⟩ := (hthree hname).2.1 hlong
  have hentry : ∃ entry, (a.readText .immediate none 0 "a.py" "x\n".toList).outcome = .ok entry := by
    refine ((htwo hname).2.2 hfit).resolve_right ?_
    rintro ⟨-, i, -, hstop⟩
    cases hstop
  obtain ⟨pieces, hlines, hjoined, -⟩ := hpieces 2 (by decide)
  exact ⟨a, rfl, hnone, (hunsupported hnone).1, hname, hlong, hrefused, hevents, hfit, hentry, pieces, hlines, hjoined⟩

end Analyzer
end LineCensus
