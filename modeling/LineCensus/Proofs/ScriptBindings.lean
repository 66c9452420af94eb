import LineCensus.Proofs.ScriptBrackets

/-! The names that plain bindings of the brace languages without static types declare: each counts once,
although every family looks at the whole line. -/
namespace LineCensus.Declaration.Script

open Text
open Identifier (marks_append marks_cons)

/-- The ways to bind the names of a list, as whole lines, with the number of names that each binds. The
names and the lists are any identifiers, and so are values and functions. -/
inductive Binds : List Char → Nat → Prop where
  | declaration {word text stop : List Char} {names : List (List Char)} (hword : word ∈ keywords)
    (hnames : identifier.Names names text) (hne : names ≠ []) (hstop : stop = [] ∨ stop = [';']) :
    Binds (word ++ ' ' :: (text ++ stop)) names.length
  | function {f text : List Char} {names : List (List Char)} (hf : identifier.accepts f = true)
    (hnames : identifier.Names names text) :
    Binds ("function".toList ++ ' ' :: (f ++ '(' :: (text ++ ") \x7b".toList))) names.length
  | arrow {word f text : List Char} {names : List (List Char)} (hword : word ∈ keywords)
    (hf : identifier.accepts f = true) (hnames : identifier.Names names text) :
    Binds (word ++ ' ' :: (f ++ " = (".toList ++ text ++ ") => \x7b".toList)) (names.length + 1)
  | destructuring (bracket : Bracket) {word f text : List Char} {names : List (List Char)} (hword : word ∈ keywords)
    (hnames : identifier.Names names text) (hne : names ≠ []) (hf : identifier.accepts f = true) :
    Binds (word ++ ' ' :: bracket.opening :: (text ++ bracket.closing :: (" = ".toList ++ f ++ [';']))) names.length
  | target (bracket : Bracket) {f text : List Char} {names : List (List Char)}
    (hnames : identifier.Names names text) (hne : names ≠ []) (hf : identifier.accepts f = true) :
    Binds (bracket.opening :: (text ++ bracket.closing :: (" = ".toList ++ f ++ [';']))) names.length

variable {word f text line found : List Char} {names : List (List Char)}

private theorem marks_name (h : identifier.accepts word = true) : identifier.marks word = [] :=
  Identifier.marks_of_isTail (regular.isTail_of_mem h)

private theorem marks_keyword (h : word ∈ keywords) : identifier.marks word = [] :=
  marks_name (accepts_of_mem_keywords h)

private theorem exists_letter_of_mem_keywords (h : word ∈ keywords) (rest : List Char) :
    (∃ first others, word ++ rest = first :: others ∧ isBlank first = false) ∧
      ∃ c ∈ word ++ rest, isPunctuation [c] = false := by
  simp only [keywords, List.map_cons, List.map_nil, List.mem_cons, List.not_mem_nil, or_false] at h
  rcases h with rfl | rfl | rfl <;>
    exact ⟨⟨_, _, rfl, by decide⟩, _, List.mem_cons_self .., by decide⟩

private theorem not_mem_of_accepts {mark : Char} (hmark : identifier.isTail mark = false)
    (h : identifier.accepts word = true) :
    mark ∉ word := by
  intro hmem
  rw [regular.isTail_of_mem h mark hmem] at hmark
  cases hmark

private theorem keyword_not_mem_modifiers (h : word ∈ keywords) : word ∉ modifiers := by
  revert h word
  decide

private theorem not_mark_of_isHead {c : Char} (h : identifier.isHead c = true) :
    isBlank c = false ∧ c ∉ [':', '='] := by
  have hmarks : ∀ x ∈ [':', '='], identifier.isHead x = false := by decide
  refine ⟨regular.not_blank (regular.tail_of_head h), fun hmem => ?_⟩
  rw [hmarks c hmem] at h
  cases h

/-- Only a declaration counts in a line of a keyword and a list of names. -/
theorem count_declaration {stop : List Char} (hword : word ∈ keywords) (hnames : identifier.Names names text)
    (hne : names ≠ []) (hstop : stop = [] ∨ stop = [';']) :
    script.count (word ++ ' ' :: (text ++ stop)) = names.length := by
  obtain ⟨c, rest, hc, hhead⟩ := hnames.exists_cons hne
  obtain ⟨start, last, hlast, hend⟩ := hnames.exists_concat regular hne
  obtain ⟨hfirst, hletter⟩ := exists_letter_of_mem_keywords hword (' ' :: (text ++ stop))
  have hmarks : identifier.marks (word ++ ' ' :: (text ++ stop)) = stop := by
    rw [marks_append, marks_cons, marks_append, marks_keyword hword, hnames.marks_eq regular]
    rcases hstop with rfl | rfl <;> rfl
  have hcloses : Closes stop [] := by
    rcases hstop with rfl | rfl
    · exact .inl ⟨rfl, rfl⟩
    · exact .inr ⟨[], ';', List.forall_mem_nil _, by decide, rfl⟩
  have hdeclarator := countFrom_declarator hword hnames hne hcloses
  have hfield : classField.countFrom identifier [] (word ++ ' ' :: (text ++ stop)) = 0 := by
    obtain ⟨hblank, hmark⟩ := not_mark_of_isHead hhead
    rw [hc, List.cons_append]
    exact countFrom_classField_word (accepts_of_mem_keywords hword) (keyword_not_mem_modifiers hword) hblank hmark
  rw [List.append_nil] at hdeclarator
  rw [script.count_of_marks ['(', '>', '[', '\x7b'] hmarks ?_ hfirst ?_ hletter]
  · change declarator.countFrom identifier [] _ + (classField.countFrom identifier [] _ + 0) = _
    rw [hdeclarator, hfield]
    rfl
  · rcases hstop with rfl | rfl <;> decide
  · rcases hstop with rfl | rfl
    · exact ⟨word ++ ' ' :: start, last, by simp [hlast], regular.not_blank hend⟩
    · exact ⟨word ++ ' ' :: text, ';', by simp, by decide⟩

section Binders

/-- The word of a function does not end like a keyword. -/
theorem not_hasBinder_function (hf : identifier.accepts f = true) : ¬HasBinder ("function".toList ++ ' ' :: f) := by
  rintro ⟨word, hword, space, hne, hspace, c, -, front, back, hcore⟩
  obtain ⟨s, others, rfl⟩ := List.exists_cons_of_ne_nil hne
  have hblank := hspace s (List.mem_cons_self ..)
  have hnot : ∀ x ∈ "function".toList, isBlank x = false := by decide
  have hleft : s ∉ "function".toList := fun hmem => by simp [hnot s hmem] at hblank
  have hright : s ∉ f := not_mem_of_accepts (regular.not_isTail_of_isBlank hblank) hf
  have hsplit : "function".toList ++ ' ' :: f = (front ++ word) ++ s :: (others ++ c :: back) := by
    rw [← hcore]
    simp
  obtain ⟨hends, -, -⟩ := (List.append_cons_inj_of_notMem hleft hright).mp hsplit
  have hsuffix : ∀ word ∈ keywords, ¬word <:+ "function".toList := by decide
  exact hsuffix word hword ⟨front, hends.symm⟩

private theorem not_hasBinder_closed {mark : Char} (hnames : identifier.Names names text)
    (hmark : identifier.isTail mark = false ∧ isBlank mark = false) (hback : ¬HasBinder line) :
    ¬HasBinder (text ++ mark :: line) := by
  intro h
  rcases h.cut hmark.1 hmark.2 with h | h
  · exact not_hasBinder_names hnames h
  · exact hback h

private theorem not_hasBinder_value (hf : identifier.accepts f = true) : ¬HasBinder (" = ".toList ++ f ++ [';']) := by
  intro h
  have hvalue : ∀ x ∈ f ++ [';'], isBlank x = false := by
    rw [List.forall_mem_append]
    exact ⟨fun x hx => regular.not_blank (regular.isTail_of_mem hf x hx), by decide⟩
  have hsplit : " = ".toList ++ f ++ [';'] = [' '] ++ '=' :: ([' '] ++ (f ++ [';'])) := by
    simp
  rw [hsplit] at h
  rcases h.cut (by decide) (by decide) with h | h
  · exact not_hasBinder_of_not_head (by decide) h
  · exact not_hasBinder_of_solid hvalue (h.of_blanks_append (by decide))

end Binders

/-- Only the parameters count in the head of a function. -/
theorem count_function (hf : identifier.accepts f = true) (hnames : identifier.Names names text)
    (hline : line = "function".toList ++ ' ' :: (f ++ '(' :: (text ++ ") \x7b".toList))) :
    script.count line = names.length := by
  obtain ⟨c, others, hc, hhead, -⟩ := Identifier.exists_cons_of_accepts hf
  have hstart : identifier.marks ("function".toList ++ ' ' :: f) = [] := by
    rw [marks_append, marks_cons ' ', marks_name hf]
    rfl
  have hrest : identifier.marks (text ++ ") \x7b".toList) = [')', '\x7b'] := by
    rw [marks_append, hnames.marks_eq regular]
    rfl
  have hinner : ¬HasBinder (text ++ ") \x7b".toList) :=
    not_hasBinder_closed hnames (by decide) (not_hasBinder_of_not_head (by decide))
  have hopen : line = ("function".toList ++ ' ' :: f) ++ '(' :: (text ++ ") \x7b".toList) := by
    rw [hline, List.append_assoc, List.cons_append]
  have hname : declarator.countFrom identifier [] line = 0 := by
    refine countFrom_declarator_eq_zero fun h => ?_
    rw [hopen] at h
    rcases h.cut (by decide) (by decide) with h | h
    · exact not_hasBinder_function hf h
    · exact hinner h
  have hparams : functionParams.countFrom identifier [] line = names.length := by
    rw [hline]
    exact countFrom_functionParams hf hnames (by decide)
  have hloop : forBinder.countFrom identifier [] line = 0 := by
    rw [hopen]
    exact countFrom_forBinder_eq_zero (identifier.not_mem_of_marks _ hstart (by decide))
      (identifier.not_mem_of_marks _ hrest (by decide)) hinner
  have hfield : classField.countFrom identifier [] line = 0 := by
    obtain ⟨hblank, hmark⟩ := not_mark_of_isHead hhead
    rw [hline, hc]
    exact countFrom_classField_word (by decide) (by decide) hblank hmark
  have hmarks : identifier.marks line = ['(', ')', '\x7b'] := by
    rw [hopen, marks_append, hstart, marks_cons, hrest]
    rfl
  rw [script.count_of_marks ['=', '>', '\x7d', '['] hmarks (by decide)]
  · change declarator.countFrom identifier [] _ + (functionParams.countFrom identifier [] _ +
      (forBinder.countFrom identifier [] _ + (classField.countFrom identifier [] _ + 0))) = _
    rw [hname, hparams, hloop, hfield, Nat.zero_add]
    rfl
  · exact ⟨'f', _, hline, by decide⟩
  · exact ⟨"function".toList ++ ' ' :: (f ++ '(' :: (text ++ [')', ' '])), '\x7b', by simp [hline], by decide⟩
  · exact ⟨'f', hline ▸ List.mem_cons_self .., by decide⟩

/-- An arrow function's name counts as declared, and its parameters count before the arrow. -/
theorem count_arrow (hword : word ∈ keywords) (hf : identifier.accepts f = true)
    (hnames : identifier.Names names text)
    (hline : line = word ++ ' ' :: (f ++ " = (".toList ++ text ++ ") => \x7b".toList)) :
    script.count line = names.length + 1 := by
  obtain ⟨c, others, hc, hhead, -⟩ := Identifier.exists_cons_of_accepts hf
  obtain ⟨hfirst, hletter⟩ :=
    exists_letter_of_mem_keywords hword (' ' :: (f ++ " = (".toList ++ text ++ ") => \x7b".toList))
  have hstart : identifier.marks (word ++ ' ' :: (f ++ " = ".toList)) = ['='] := by
    rw [marks_append, marks_cons, marks_append, marks_keyword hword, marks_name hf]
    rfl
  have hrest : identifier.marks (text ++ ") => \x7b".toList) = [')', '=', '>', '\x7b'] := by
    rw [marks_append, hnames.marks_eq regular]
    rfl
  have hinner : ¬HasBinder (text ++ ") => \x7b".toList) :=
    not_hasBinder_closed hnames (by decide) (not_hasBinder_of_not_head (by decide))
  have hopen : line = (word ++ ' ' :: (f ++ " = ".toList)) ++ '(' :: (text ++ ") => \x7b".toList) := by
    simp [hline]
  have hequals : line = (word ++ ' ' :: (f ++ [' '])) ++ '=' :: ([' '] ++ '(' :: (text ++ ") => \x7b".toList)) := by
    simp [hline]
  have hclose : line =
      ((word ++ ' ' :: (f ++ " = ".toList)) ++ '(' :: text) ++ ')' :: ' ' :: '=' :: '>' :: " \x7b".toList := by
    simp [hline]
  have hdeclared : line = word ++ ' ' :: (f ++ ([' ', '='] ++ ([' '] ++ '(' :: (text ++ ") => \x7b".toList)))) := by
    simp [hline]
  have hname : declarator.countFrom identifier [] line = 1 := by
    have hafter : ¬HasBinder ([' '] ++ '(' :: (text ++ ") => \x7b".toList)) := by
      intro h
      rcases h.cut (by decide) (by decide) with h | h
      · exact not_hasBinder_of_not_head (by decide) h
      · exact hinner h
    have hcloses : Closes [' ', '='] ([' '] ++ '(' :: (text ++ ") => \x7b".toList)) :=
      .inr ⟨[' '], '=', by decide, by decide, rfl⟩
    rw [hdeclared, countFrom_declarator hword (.single hf) (by simp) hcloses,
      countFrom_declarator_eq_zero hafter]
    rfl
  have hfunction : functionParams.countFrom identifier [] line = 0 := by
    rw [hequals]
    refine countFrom_functionParams_eq_zero (by decide) (identifier.not_mem_of_marks [] ?_ (by decide))
      (identifier.not_mem_of_marks _ hrest (by decide))
    rw [marks_append, marks_cons, marks_append, marks_keyword hword, marks_name hf]
    rfl
  have hloop : forBinder.countFrom identifier [] line = 0 := by
    rw [hopen]
    exact countFrom_forBinder_eq_zero (identifier.not_mem_of_marks _ hstart (by decide))
      (identifier.not_mem_of_marks _ hrest (by decide)) hinner
  have hparams : arrowParams.countFrom identifier [] line = names.length := by
    rw [hopen]
    exact countFrom_arrowParams (identifier.not_mem_of_marks _ hstart (by decide)) hnames (by decide)
  have hparam : arrowParam.countFrom identifier [] line = 0 := by
    rw [hclose]
    refine countFrom_arrowParam_eq_zero (identifier.not_mem_of_marks ['=', '('] ?_ (by decide)) (by decide)
    rw [marks_append, hstart, marks_cons, hnames.marks_eq regular]
    rfl
  have hfield : classField.countFrom identifier [] line = 0 := by
    obtain ⟨hblank, hmark⟩ := not_mark_of_isHead hhead
    rw [hline, hc]
    exact countFrom_classField_word (accepts_of_mem_keywords hword) (keyword_not_mem_modifiers hword) hblank hmark
  have hmarks : identifier.marks line = ['=', '(', ')', '=', '>', '\x7b'] := by
    rw [hopen, marks_append, hstart, marks_cons, hrest]
    rfl
  rw [script.count_of_marks ['\x7d', '['] hmarks (by decide) (hline ▸ hfirst) ?_ (hline ▸ hletter)]
  · change declarator.countFrom identifier [] _ + (functionParams.countFrom identifier [] _ +
      (forBinder.countFrom identifier [] _ + (arrowParams.countFrom identifier [] _ +
        (arrowParam.countFrom identifier [] _ + (classField.countFrom identifier [] _ + 0))))) = _
    rw [hname, hfunction, hloop, hparams, hparam, hfield]
    omega
  · exact ⟨word ++ ' ' :: (f ++ " = (".toList ++ text ++ ") => ".toList), '\x7b', by simp [hline], by decide⟩

section Brackets

variable {bracket : Bracket}

private theorem not_mem_value (hf : identifier.accepts f = true) : bracket.opening ∉ " = ".toList ++ f ++ [';'] := by
  refine identifier.not_mem_of_marks ['=', ';'] ?_ (by cases bracket <;> decide)
  rw [marks_append, marks_append, marks_name hf]
  rfl

private theorem marks_bracketed (hnames : identifier.Names names text) (hf : identifier.accepts f = true) :
    identifier.marks (text ++ bracket.closing :: (" = ".toList ++ f ++ [';'])) = [bracket.closing, '=', ';'] := by
  rw [marks_append, marks_cons, marks_append, marks_append, hnames.marks_eq regular, marks_name hf]
  cases bracket <;> rfl

private theorem opening_not_mem (hnames : identifier.Names names text) (hf : identifier.accepts f = true) :
    bracket.opening ∉ text ++ bracket.closing :: (" = ".toList ++ f ++ [';']) :=
  identifier.not_mem_of_marks _ (marks_bracketed hnames hf) (by cases bracket <;> decide)

private theorem marks_opening : identifier.marks [bracket.opening] = [bracket.opening] := by
  cases bracket <;> rfl

private theorem not_hasBinder_bracketed (hnames : identifier.Names names text) (hf : identifier.accepts f = true) :
    ¬HasBinder (text ++ bracket.closing :: (" = ".toList ++ f ++ [';'])) :=
  not_hasBinder_closed hnames ⟨Bracket.isMark_closing.1, Bracket.isMark_closing.2.1⟩ (not_hasBinder_value hf)

/-- Only the declarations and the assignments with the line's own brackets look into the brackets. -/
theorem count_brackets (hmarks : identifier.marks line = [bracket.opening, bracket.closing, '=', ';'])
    (hfirst : ∃ first rest, line = first :: rest ∧ isBlank first = false)
    (hlast : ∃ start, line = start ++ [';'])
    (hdeclarator : declarator.countFrom identifier [] line = 0)
    (hfield : classField.countFrom identifier [] line = 0) :
    script.count line =
      bracket.destructuring.countFrom identifier [] line + bracket.target.countFrom identifier [] line := by
  obtain ⟨start, hstart⟩ := hlast
  have hequals : '=' ∈ identifier.marks line := by
    simp [hmarks]
  have habsent : ∀ x ∈ ['(', '>', bracket.other.opening],
      identifier.isMark x = true ∧ x ∉ [bracket.opening, bracket.closing, '=', ';'] := by
    cases bracket <;> decide
  have hfamilies : script.familiesWithout ['(', '>', bracket.other.opening] =
      [declarator, classField, bracket.destructuring, bracket.target] := by
    cases bracket <;> rfl
  rw [script.count_of_marks _ hmarks habsent hfirst ⟨start, ';', hstart, by decide⟩
    ⟨'=', (List.mem_filter.mp hequals).1, by decide⟩, hfamilies]
  change declarator.countFrom identifier [] line + (classField.countFrom identifier [] line +
    (bracket.destructuring.countFrom identifier [] line + (bracket.target.countFrom identifier [] line + 0))) = _
  rw [hdeclarator, hfield]
  omega

/-- Names that a declaration takes out of a value count as its names. -/
theorem count_destructuring (hword : word ∈ keywords) (hnames : identifier.Names names text) (hne : names ≠ [])
    (hf : identifier.accepts f = true)
    (hline : line = word ++ ' ' :: bracket.opening :: (text ++ bracket.closing :: (" = ".toList ++ f ++ [';']))) :
    script.count line = names.length := by
  obtain ⟨hfirst, -⟩ := exists_letter_of_mem_keywords hword
    (' ' :: bracket.opening :: (text ++ bracket.closing :: (" = ".toList ++ f ++ [';'])))
  have hopen : line =
      (word ++ [' ']) ++ bracket.opening :: (text ++ bracket.closing :: (" = ".toList ++ f ++ [';'])) := by
    simp [hline]
  have hmarks : identifier.marks line = [bracket.opening, bracket.closing, '=', ';'] := by
    rw [hopen, marks_append, marks_append, marks_keyword hword, marks_cons bracket.opening, marks_opening,
      marks_bracketed hnames hf]
    rfl
  have hdeclarator : declarator.countFrom identifier [] line = 0 := by
    refine countFrom_declarator_eq_zero fun h => ?_
    rw [hopen] at h
    rcases h.cut Bracket.isMark_opening.1 Bracket.isMark_opening.2.1 with h | h
    · exact not_hasBinder_name (accepts_of_mem_keywords hword) (h.of_append_blanks (by decide))
    · exact not_hasBinder_bracketed hnames hf h
  have hfield : classField.countFrom identifier [] line = 0 := by
    rw [hline]
    exact countFrom_classField_word (accepts_of_mem_keywords hword) (keyword_not_mem_modifiers hword)
      Bracket.isMark_opening.2.1 (by cases bracket <;> decide)
  rw [count_brackets hmarks (hline ▸ hfirst) ?_ hdeclarator hfield, hline,
    Bracket.countFrom_destructuring hword hnames hne (not_mem_value hf),
    Bracket.countFrom_target_eq_zero hword (opening_not_mem hnames hf), Nat.add_zero]
  exact ⟨word ++ ' ' :: bracket.opening :: (text ++ bracket.closing :: (" = ".toList ++ f)), by simp [hline]⟩

/-- Names that are assigned out of a value count too, with no keyword. -/
theorem count_target (hnames : identifier.Names names text) (hne : names ≠ []) (hf : identifier.accepts f = true)
    (hline : line = bracket.opening :: (text ++ bracket.closing :: (" = ".toList ++ f ++ [';']))) :
    script.count line = names.length := by
  have hmarks : identifier.marks line = [bracket.opening, bracket.closing, '=', ';'] := by
    rw [hline, marks_cons, marks_opening, marks_bracketed hnames hf]
    rfl
  have hdeclarator : declarator.countFrom identifier [] line = 0 := by
    refine countFrom_declarator_eq_zero fun h => ?_
    replace h : HasBinder ([] ++ bracket.opening :: (text ++ bracket.closing :: (" = ".toList ++ f ++ [';']))) :=
      hline ▸ h
    rcases h.cut Bracket.isMark_opening.1 Bracket.isMark_opening.2.1 with h | h
    · exact not_hasBinder_of_not_head (List.forall_mem_nil _) h
    · exact not_hasBinder_bracketed hnames hf h
  have hfield : classField.countFrom identifier [] line = 0 := by
    rw [hline]
    exact countFrom_classField_mark Bracket.isMark_opening.1 (by cases bracket <;> decide)
  have hdestructuring : bracket.destructuring.countFrom identifier [] line = 0 := by
    rw [hline]
    exact Bracket.countFrom_destructuring_eq_zero (opening_not_mem hnames hf)
  have htarget : bracket.target.countFrom identifier [] line = names.length := by
    rw [hline]
    refine Bracket.countFrom_target hnames hne (identifier.not_mem_of_marks [';'] ?_ (by cases bracket <;> decide)) ?_
    · change identifier.marks ([' '] ++ (f ++ [';'])) = _
      rw [marks_append, marks_append, marks_name hf]
      rfl
    · rintro _ ⟨⟩
      decide
  rw [count_brackets hmarks ⟨_, _, hline, Bracket.isMark_opening.2.1⟩ ?_ hdeclarator hfield, hdestructuring, htarget,
    Nat.zero_add]
  exact ⟨bracket.opening :: (text ++ bracket.closing :: (" = ".toList ++ f)), by simp [hline]⟩

end Brackets

/-- Every plain binding counts exactly the names that it binds. -/
theorem count_of_binds {n : Nat} (h : Binds line n) : script.count line = n := by
  cases h with
  | declaration hword hnames hne hstop => exact count_declaration hword hnames hne hstop
  | function hf hnames => exact count_function hf hnames rfl
  | arrow hword hf hnames => exact count_arrow hword hf hnames rfl
  | destructuring bracket hword hnames hne hf => exact count_destructuring hword hnames hne hf rfl
  | target bracket hnames hne hf => exact count_target hnames hne hf rfl

theorem count_binds_brackets : Binds "const \x7ba , $let\x7d = function;".toList 2 ∧
    script.count "const \x7ba , $let\x7d = function;".toList = 2 := by
  have hblank : ∀ c ∈ [' '], isBlank c = true := by decide
  have hnames : identifier.Names ["a".toList, "$let".toList]
      ("a".toList ++ ([' '] ++ ',' :: ([' '] ++ "$let".toList))) :=
    ⟨.more _ hblank hblank (.one _), by decide⟩
  have hword : "const".toList ∈ keywords := by decide
  have hf : identifier.accepts "function".toList = true := by decide
  have hbinds : Binds "const \x7ba , $let\x7d = function;".toList 2 :=
    .destructuring .brace hword hnames (by simp) hf
  exact ⟨hbinds, count_of_binds hbinds⟩

end LineCensus.Declaration.Script
