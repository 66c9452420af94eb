import LineCensus.Proofs.FolderRun

/-! Where a run over many sources ends: at a loader that breaks it off, at the first answer to stop, or behind
the last source. -/
namespace LineCensus

def FolderEvent.loaded? : FolderEvent → Option Source
  | .loaded source => some source
  | _ => none

namespace Analyzer

def questions (a : Analyzer) (answers : Option Answers) (sources : List Source) : Nat :=
  (sources.map fun source => Batch.questions .cooperative answers (a.pauses source)).sum

structure Passes (a : Analyzer) (answers : Option Answers) (sources : List Source) : Prop where
  loads : ∀ source ∈ sources, a.interruption? source = none
  answers : ∀ n < a.questions answers sources, Batch.stopsAt .cooperative answers n = false

/-- A run that has come through the sources `before` ends in the turn of the next one with a given number of
questions asked: when that is loaded, or at the first answer to stop in one of its pauses. -/
inductive EndsAt (a : Analyzer) (answers : Option Answers) (before : List Source) (source : Source) :
    Interruption → Nat → Prop
  | loading {interruption : Interruption} (hload : a.interruption? source = some interruption) :
    EndsAt a answers before source interruption (a.questions answers before)
  | answered {n : Nat} (hfrom : a.questions answers before ≤ n)
    (hto : n < a.questions answers (before ++ [source]))
    (hfirst : ∀ m, a.questions answers before ≤ m → m < n → Batch.stopsAt .cooperative answers m = false)
    (hstop : Batch.stopsAt .cooperative answers n = true) :
    EndsAt a answers before source (.cancelled "") (n + 1)

/-- What a run has in hand when it arrives behind the given sources: it has loaded those whose names have a
language, and asked in every pause. -/
structure Reached (a : Analyzer) (answers : Option Answers) (before : List Source) (survey : Survey) :
    Prop where
  loaded : survey.events.toList.filterMap FolderEvent.loaded? =
    before.filter (a.registry.isSupported ·.name)
  asked : survey.asked = a.questions answers before

variable {a : Analyzer} {answers : Option Answers} {before after sources : List Source} {source : Source}

private theorem questions_concat (before : List Source) (source : Source) :
    a.questions answers (before ++ [source]) =
      a.questions answers before + Batch.questions .cooperative answers (a.pauses source) := by
  simp [questions]

private theorem lt_of_lt_questions {i k : Nat} (h : i < Batch.questions .cooperative answers k) : i < k := by
  cases answers with
  | none => cases h
  | some answers => exact h

/-- The pauses of a source are those in which a question may be answered with stop. -/
theorem stopsAt_of_passes (h : a.Passes answers (before ++ [source])) :
    ∀ i < a.pauses source, Batch.stopsAt .cooperative answers (a.questions answers before + i) = false := by
  intro i hi
  cases answers with
  | none => rfl
  | some answers =>
    apply h.answers
    rw [questions_concat]
    exact Nat.add_lt_add_left hi _

private theorem Passes.of_concat (h : a.Passes answers (before ++ [source])) : a.Passes answers before where
  loads := fun s hs => h.loads s (List.mem_append_left _ hs)
  answers := fun n hn => h.answers n (by rw [questions_concat]; omega)

section Step

variable {survey : Survey}

private theorem readSource_passes (hreached : a.Reached answers before survey)
    (hpass : a.Passes answers (before ++ [source])) (percent : Numeric.Binary64) :
    ∃ next, a.readSource answers survey source = (.ok (), next) ∧
      a.Reached answers (before ++ [source]) (next.note (.progress percent)) := by
  have hgo := stopsAt_of_passes hpass
  rw [← hreached.asked] at hgo
  obtain ⟨result, -, hsource⟩ := readSource_alone survey hgo
    (hpass.loads source (List.mem_append_right _ (List.mem_singleton_self _)))
  refine ⟨_, hsource, ?_, ?_⟩
  · have hevents : (a.settleEvents source result).filterMap FolderEvent.loaded? =
        [source].filter (a.registry.isSupported ·.name) := by
      refine (loaded_settleEvents source result).trans ?_
      rw [List.filter_singleton]
      cases a.registry.isSupported source.name <;> rfl
    simp only [Survey.note, Array.toList_push, Array.toList_append, List.filterMap_append, hreached.loaded,
      hevents, List.filter_append]
    exact List.append_nil _
  · rw [questions_concat, ← hreached.asked]
    rfl

private theorem readSource_loading {interruption : Interruption}
    (hload : a.interruption? source = some interruption) :
    a.readSource answers survey source = (.error interruption, survey.note (.loaded source)) := by
  cases hname : a.registry.isSupported source.name with
  | false => simp [interruption?, hname] at hload
  | true =>
    obtain ⟨language, -, hlanguage⟩ := language_eq_ok hname
    cases hsource : source.load with
    | text | unreadable => simp [interruption?, hname, hsource] at hload
    | fault message =>
      obtain rfl : Interruption.fault message = interruption := by
        simpa [interruption?, hname, hsource] using hload
      simp only [readSource, hlanguage, hsource]
    | refused e =>
      cases e with
      | cancelled name =>
        obtain rfl : Interruption.cancelled name = interruption := by
          simpa [interruption?, hname, hsource] using hload
        simp only [readSource, hlanguage, hsource, Survey.refuse]
      | _ => simp [interruption?, hname, hsource] at hload

private theorem readSource_answered {i : Nat} (hlt : i < a.pauses source)
    (hfirst : ∀ j < i, Batch.stopsAt .cooperative answers (survey.asked + j) = false)
    (hstop : Batch.stopsAt .cooperative answers (survey.asked + i) = true) :
    a.readSource answers survey source = (.error (.cancelled ""),
      { survey.note (.loaded source) with asked := survey.asked + i + 1 }) := by
  cases hname : a.registry.isSupported source.name with
  | false => simp [pauses, hname] at hlt
  | true =>
    obtain ⟨language, -, hlanguage⟩ := language_eq_ok hname
    cases hsource : source.load with
    | unreadable | refused | fault => simp [pauses, hname, hsource] at hlt
    | text content =>
      have hpauses : a.pauses source = a.textPauses source.displayName content := by
        simp only [pauses, hname, hsource]
      rw [hpauses, textPauses] at hlt
      split at hlt
      · rename_i hfit
        obtain ⟨shown, hshown⟩ := Option.isSome_iff_exists.mp hfit.1
        obtain ⟨houtcome, hasked⟩ := readText_stopped hshown hfit.2 (by omega) hfirst hstop
        simp only [readSource, hlanguage, hsource, Survey.note, houtcome, hasked, Survey.refuse]
      · cases hlt

private theorem readSource_endsAt {interruption : Interruption} {asked : Nat}
    (hreached : a.Reached answers before survey)
    (hend : a.EndsAt answers before source interruption asked) :
    ∃ last, a.readSource answers survey source = (.error interruption, last) ∧ last.asked = asked ∧
      last.events.toList.filterMap FolderEvent.loaded? =
        before.filter (a.registry.isSupported ·.name) ++ [source] := by
  have hloaded : (survey.note (.loaded source)).events.toList.filterMap FolderEvent.loaded? =
      before.filter (a.registry.isSupported ·.name) ++ [source] := by
    simp [Survey.note, hreached.loaded, FolderEvent.loaded?]
  cases hend with
  | loading hload =>
    have hsource : a.readSource answers survey source = (.error interruption, survey.note (.loaded source)) :=
      readSource_loading hload
    exact ⟨_, hsource, hreached.asked, hloaded⟩
  | @answered n hfrom hto hfirst hstop =>
    obtain ⟨i, rfl⟩ := Nat.exists_eq_add_of_le hfrom
    rw [questions_concat] at hto
    have hlt : i < a.pauses source := lt_of_lt_questions (Nat.lt_of_add_lt_add_left hto)
    rw [← hreached.asked] at hfirst hstop ⊢
    have hearlier : ∀ j < i, Batch.stopsAt .cooperative answers (survey.asked + j) = false :=
      fun j hj => hfirst _ (Nat.le_add_right ..) (Nat.add_lt_add_left hj _)
    exact ⟨_, readSource_answered hlt hearlier hstop, rfl, hloaded⟩

end Step

theorem readFolder_passes (hpass : a.Passes answers before) (after : List Source) :
    ∃ survey, a.Reached answers before survey ∧ a.readFolder answers (before ++ after) =
      a.readSources answers (before ++ after).length before.length survey after := by
  induction before using List.reverseRecOn generalizing after with
  | nil => exact ⟨{}, ⟨rfl, rfl⟩, rfl⟩
  | append_singleton before source ih =>
    obtain ⟨survey, hreached, hrun⟩ := ih hpass.of_concat (source :: after)
    let percent := progress (before.length + 1) (before ++ source :: after).length
    obtain ⟨next, hsource, hnext⟩ := readSource_passes hreached hpass percent
    refine ⟨next.note (.progress percent), hnext, ?_⟩
    rw [List.append_assoc, List.singleton_append, hrun, readSources, hsource, List.length_append,
      List.length_append, List.length_singleton]
    simp only [percent, List.length_append]

private theorem passes_or_endsAt (a : Analyzer) (answers : Option Answers) (sources : List Source) :
    a.Passes answers sources ∨ ∃ before source after interruption asked,
      sources = before ++ source :: after ∧ a.Passes answers before ∧
        a.EndsAt answers before source interruption asked := by
  induction sources using List.reverseRecOn with
  | nil => exact .inl ⟨by simp, by simp [questions]⟩
  | append_singleton sources source ih =>
    rcases ih with hpass | ⟨before, first, after, interruption, asked, rfl, hpass, hend⟩
    · cases hload : a.interruption? source with
      | some interruption => exact .inr ⟨sources, source, [], interruption, _, rfl, hpass, .loading hload⟩
      | none =>
        by_cases hstop : ∃ n, a.questions answers sources ≤ n ∧
            n < a.questions answers (sources ++ [source]) ∧ Batch.stopsAt .cooperative answers n = true
        · obtain ⟨hfrom, hto, hanswer⟩ := Nat.find_spec hstop
          refine .inr ⟨sources, source, [], _, _, rfl, hpass, .answered hfrom hto ?_ hanswer⟩
          intro m hm hlt
          by_contra hne
          exact Nat.find_min hstop hlt ⟨hm, hlt.trans hto, by simpa using hne⟩
        · refine .inl ⟨?_, ?_⟩
          · simpa [or_imp, forall_and, hload] using hpass.loads
          · intro n hn
            by_contra hne
            rcases Nat.lt_or_ge n (a.questions answers sources) with hlt | hge
            · exact hne (hpass.answers n hlt)
            · exact hstop ⟨n, hge, hn, by simpa using hne⟩
    · refine .inr ⟨before, first, after ++ [source], interruption, asked, ?_, hpass, hend⟩
      rw [List.append_assoc, List.cons_append]

private theorem readFolder_endsAt {interruption : Interruption} {asked : Nat} (hpass : a.Passes answers before)
    (hend : a.EndsAt answers before source interruption asked) (after : List Source) :
    (a.readFolder answers (before ++ source :: after)).outcome = .error interruption ∧
      (a.readFolder answers (before ++ source :: after)).asked = asked ∧
      (a.readFolder answers (before ++ source :: after)).loaded =
        before.filter (a.registry.isSupported ·.name) ++ [source] := by
  obtain ⟨survey, hreached, hrun⟩ := readFolder_passes hpass (source :: after)
  obtain ⟨last, hsource, hasked, hloaded⟩ := readSource_endsAt hreached hend
  rw [hrun, readSources, hsource]
  exact ⟨rfl, hasked, hloaded⟩

/-- A run ends with an error exactly if it comes to a source that is loaded and whose loader breaks it off, or
to a question that is answered with stop; no later source is loaded then, and no later question asked. When it
has come through some sources, it has asked one question in each pause between two batches of each of them,
and no other. In all other cases it comes to a folder. -/
theorem readFolder_ends_iff (a : Analyzer) (answers : Option Answers) (sources : List Source) :
    ((∃ interruption, (a.readFolder answers sources).outcome = .error interruption) ↔
      ∃ before source after interruption asked, sources = before ++ source :: after ∧
        a.Passes answers before ∧ a.EndsAt answers before source interruption asked) ∧
    (∀ before source after interruption asked, sources = before ++ source :: after →
      a.Passes answers before → a.EndsAt answers before source interruption asked →
      (a.readFolder answers sources).outcome = .error interruption ∧
      (a.readFolder answers sources).asked = asked ∧
      (a.readFolder answers sources).loaded =
        before.filter (a.registry.isSupported ·.name) ++ [source]) ∧
    (∀ before after, sources = before ++ after → a.Passes answers before →
      ∃ survey, a.Reached answers before survey ∧ a.readFolder answers sources =
        a.readSources answers sources.length before.length survey after) ∧
    (a.Passes answers sources →
      (∃ folder, (a.readFolder answers sources).outcome = .ok folder) ∧
      (a.readFolder answers sources).asked = a.questions answers sources ∧
      (a.readFolder answers sources).loaded = sources.filter (a.registry.isSupported ·.name)) := by
  have hreturns (hpass : a.Passes answers sources) :
      (∃ folder, (a.readFolder answers sources).outcome = .ok folder) ∧
        (a.readFolder answers sources).asked = a.questions answers sources ∧
        (a.readFolder answers sources).loaded = sources.filter (a.registry.isSupported ·.name) := by
    obtain ⟨survey, hreached, hrun⟩ := readFolder_passes hpass []
    rw [List.append_nil, readSources] at hrun
    rw [hrun]
    exact ⟨⟨_, rfl⟩, hreached.asked, hreached.loaded⟩
  refine ⟨⟨?_, ?_⟩, ?_, ?_, hreturns⟩
  · rintro ⟨interruption, herror⟩
    refine (passes_or_endsAt a answers sources).resolve_left fun hpass => ?_
    obtain ⟨folder, hok⟩ := (hreturns hpass).1
    cases herror.symm.trans hok
  · rintro ⟨before, source, after, interruption, asked, rfl, hpass, hend⟩
    exact ⟨interruption, (readFolder_endsAt hpass hend after).1⟩
  · rintro before source after interruption asked rfl hpass hend
    exact readFolder_endsAt hpass hend after
  · rintro before after rfl hpass
    exact readFolder_passes hpass after

/-- Batches of one line: a name without a language asks nothing, three lines ask twice, and the one question of
the next source is answered with stop, so that the last source is not loaded. -/
theorem readFolder_ends_at_third_question :
    let a : Analyzer := { settings := { Settings.default with chunkSize := 1, chunkSize_pos := Nat.one_pos } }
    let sources : List Source := [
      { name := "notes.txt", load := .fault "never called" },
      { name := "a.py", load := .text "x = 1\n\ny = 2".toList },
      { name := "b.py", load := .text "x = 1\n".toList },
      { name := "c.py", load := .text "x = 1".toList }]
    (a.readFolder (some (· == 2)) sources).outcome = .error (.cancelled "") ∧
      (a.readFolder (some (· == 2)) sources).asked = 3 ∧
      (a.readFolder (some (· == 2)) sources).loaded.map (·.name) = ["a.py", "b.py"] := by
  intro a sources
  have hquestions : a.questions (some (· == 2)) (sources.take 2) = 2 := by decide +kernel
  have hmore : a.questions (some (· == 2)) (sources.take 2 ++ [sources[2]]) = 3 := by decide +kernel
  have hpass : a.Passes (some (· == 2)) (sources.take 2) := by
    refine ⟨by decide, ?_⟩
    rw [hquestions]
    decide
  have hend : a.EndsAt (some (· == 2)) (sources.take 2) sources[2] (.cancelled "") (2 + 1) :=
    .answered hquestions.le (by omega) (fun m hm hlt => absurd hlt (by omega)) rfl
  obtain ⟨houtcome, hasked, hloaded⟩ :=
    (readFolder_ends_iff a (some (· == 2)) sources).2.1 _ _ [sources[3]] _ _ rfl hpass hend
  refine ⟨houtcome, hasked, ?_⟩
  rw [hloaded]
  decide

end Analyzer

end LineCensus
