import Mathlib.Data.List.Basic

/-! Reading items one after another with one state running through them: what batches of lines and
the lines of a file are compared with. -/
namespace LineCensus

variable {σ α β : Type}

def readAll (step : σ → α → β × σ) (state : σ) : List α → List β × σ
  | [] => ([], state)
  | item :: rest =>
    ((step state item).1 :: (readAll step (step state item).2 rest).1,
      (readAll step (step state item).2 rest).2)

@[simp] theorem readAll_nil (step : σ → α → β × σ) (state : σ) :
    readAll step state [] = ([], state) := rfl

@[simp] theorem readAll_cons (step : σ → α → β × σ) (state : σ) (item : α) (rest : List α) :
    readAll step state (item :: rest) =
      ((step state item).1 :: (readAll step (step state item).2 rest).1,
        (readAll step (step state item).2 rest).2) := rfl

theorem readAll_append (step : σ → α → β × σ) (state : σ) (first second : List α) :
    readAll step state (first ++ second) =
      ((readAll step state first).1 ++ (readAll step (readAll step state first).2 second).1,
        (readAll step (readAll step state first).2 second).2) := by
  induction first generalizing state with
  | nil => rfl
  | cons item rest ih => simp only [List.cons_append, readAll_cons, ih]

@[simp] theorem length_readAll (step : σ → α → β × σ) (state : σ) (items : List α) :
    (readAll step state items).1.length = items.length := by
  induction items generalizing state with
  | nil => rfl
  | cons item rest ih => simp only [readAll_cons, List.length_cons, ih]

theorem exists_of_mem_readAll {step : σ → α → β × σ} {state : σ} {items : List α} {result : β}
    (h : result ∈ (readAll step state items).1) : ∃ state item, item ∈ items ∧ (step state item).1 = result := by
  induction items generalizing state with
  | nil => cases h
  | cons item rest ih =>
    rw [readAll_cons] at h
    rcases List.mem_cons.mp h with rfl | hmem
    · exact ⟨state, item, List.mem_cons_self .., rfl⟩
    · obtain ⟨later, other, hother, hresult⟩ := ih hmem
      exact ⟨later, other, List.mem_cons_of_mem _ hother, hresult⟩

def statesBefore (step : σ → α → β × σ) (state : σ) (items : List α) : List σ :=
  (List.range items.length).map fun i => (readAll step state (items.take i)).2

@[simp] theorem statesBefore_nil (step : σ → α → β × σ) (state : σ) :
    statesBefore step state [] = [] := rfl

@[simp] theorem statesBefore_cons (step : σ → α → β × σ) (state : σ) (item : α) (rest : List α) :
    statesBefore step state (item :: rest) =
      state :: statesBefore step (step state item).2 rest := by
  simp [statesBefore, List.range_succ_eq_map, Function.comp_def]

theorem statesBefore_append (step : σ → α → β × σ) (state : σ) (first second : List α) :
    statesBefore step state (first ++ second) =
      statesBefore step state first ++ statesBefore step (readAll step state first).2 second := by
  induction first generalizing state with
  | nil => rfl
  | cons item rest ih => simp only [List.cons_append, statesBefore_cons, readAll_cons, ih]

end LineCensus
