import LineCensus.Proofs.IndentedHeaders

/-! The targets of plain assignments and loops of the indented languages: each counts once, although every
family looks at the whole line. -/
namespace LineCensus.Declaration.Indented

open Text (Listed isBlank isWordChar wholeWords)

structure IsNumber (value : List Char) : Prop where
  ne_nil : value ≠ []
  digits : ∀ x ∈ value, Text.isDigit x = true

/-- The ways to bind the names of a list as targets, as whole lines, with the number of names that each binds. -/
inductive Targets : List Char → Nat → Prop where
  | chain {names : List (List Char)} {value text : List Char} (hnames : ∀ name ∈ names, IsName name) (hne : names ≠ [])
    (hvalue : IsNumber value) (h : Listed '=' (names ++ [value]) text) : Targets text names.length
  | tuple {names : List (List Char)} {text front back value : List Char} (hnames : ∀ name ∈ names, IsName name)
    (hlength : 2 ≤ names.length) (h : Listed ',' names text) (hfront : ∀ x ∈ front, isBlank x = true)
    (hback : ∀ x ∈ back, isBlank x = true) (hvalue : IsNumber value) :
    Targets (text ++ (front ++ '=' :: (back ++ value))) names.length
  | loop {names : List (List Char)} {text source : List Char} (hnames : ∀ name ∈ names, IsName name) (hne : names ≠ [])
    (h : Listed ',' names text) (hsource : IsName source) :
    Targets ("for ".toList ++ text ++ " in ".toList ++ source ++ [':']) names.length
  | bracketedLoop {names : List (List Char)} {text source : List Char} (hnames : ∀ name ∈ names, IsName name)
    (hne : names ≠ []) (h : Listed ',' names text) (hsource : IsName source) :
    Targets ("for (".toList ++ text ++ ") in ".toList ++ source ++ [':']) names.length

variable {names : List (List Char)} {text front back value source line : List Char}

private theorem IsNumber.isTail (h : IsNumber value) : ∀ x ∈ value, identifier.isTail x = true :=
  fun x hx => isTail_of_isDigit (h.digits x hx)

private theorem IsNumber.plain (h : IsNumber value) : Plain value := by
  intro word hword
  rw [Text.wholeWords_of_word h.ne_nil fun x hx => (isWordChar_of_isTail (h.isTail x hx)).1, List.mem_singleton]
  rintro rfl
  have hkeywords : ∀ word ∈ keywords, ¬∀ c ∈ word, Text.isDigit c = true := by decide
  exact hkeywords word hword h.digits

private theorem names_of_listed (hnames : ∀ name ∈ names, IsName name) (h : Listed ',' names text) :
    identifier.Names names text :=
  ⟨h, fun name hname => (hnames name hname).accepts⟩

private theorem IsNumber.exists_concat (h : IsNumber value) :
    ∃ start last, value = start ++ [last] ∧ isBlank last = false :=
  ⟨value.dropLast, value.getLast h.ne_nil, (List.dropLast_concat_getLast h.ne_nil).symm,
    regular.not_blank (h.isTail _ (List.getLast_mem h.ne_nil))⟩

private theorem IsNumber.not_equals (h : IsNumber value) : value ≠ [] ∧ '=' ∉ value :=
  ⟨h.ne_nil, fun hmem => by cases h.isTail _ hmem⟩

/-- The families that count in a plain line without the marks of headers and attributes. -/
theorem count_assignment (hplain : Plain line)
    (hmarks : ∀ x ∈ [':', '.', '('], x ∉ identifier.marks line) (hequals : '=' ∈ line)
    (hfirst : ∃ first rest, line = first :: rest ∧ isBlank first = false)
    (hlast : ∃ start last, line = start ++ [last] ∧ isBlank last = false) :
    indented.count line = assignment.countFrom identifier [] line +
      (tupleAssignment.countFrom identifier [] line + chainedAssignment.countFrom identifier [] line) := by
  have habsent : ∀ x ∈ [':', '.', '('], identifier.isMark x = true ∧ x ∉ identifier.marks line :=
    fun x hx => ⟨by revert hx x; decide, hmarks x hx⟩
  rw [indented.count_of_marks _ rfl habsent hfirst hlast ⟨'=', hequals, by decide⟩]
  change assignment.countFrom identifier [] line + (tupleAssignment.countFrom identifier [] line +
    (chainedAssignment.countFrom identifier [] line + (forBinder.countFrom identifier [] line +
      (withBinder.countFrom identifier [] line + 0)))) = _
  rw [countFrom_eq_zero_of_words forBinder_begins (by decide) (hplain _ (by decide)),
    countFrom_eq_zero_of_words withBinder_begins (by decide) (hplain _ (by decide))]
  rfl

/-- The first name of a chain counts as assigned and the others count as chained. -/
theorem count_chain (hnames : ∀ name ∈ names, IsName name) (hne : names ≠ []) (hvalue : IsNumber value)
    (h : Listed '=' (names ++ [value]) text) : indented.count text = names.length := by
  have htails : ∀ item ∈ names ++ [value], ∀ x ∈ item, identifier.isTail x = true := by
    rw [List.forall_mem_append, List.forall_mem_singleton]
    exact ⟨fun name hname => regular.isTail_of_mem (hnames name hname).accepts, hvalue.isTail⟩
  have hmarks : ∀ x ∈ identifier.marks text, x = '=' := by
    intro x hx
    rcases Identifier.exists_of_mem_marks h hx with rfl | ⟨item, hitem, hx⟩
    · rfl
    · rw [Identifier.marks_of_isTail (htails item hitem)] at hx
      cases hx
  have hcomma : ',' ∉ text := by
    intro hmem
    rcases h.mem_item_or hmem with ⟨item, hitem, hmem⟩ | hblank | heq
    · cases htails item hitem _ hmem
    · cases hblank
    · cases heq
  have hplain : Plain text := by
    refine .listed h (by decide) ?_
    rw [List.forall_mem_append, List.forall_mem_singleton]
    exact ⟨fun name hname => (hnames name hname).plain, hvalue.plain⟩
  have hlast : ∃ start last, text = start ++ [last] ∧ isBlank last = false := by
    refine h.exists_concat (by simp) ?_
    rw [List.forall_mem_append, List.forall_mem_singleton]
    refine ⟨fun name hname => ?_, hvalue.exists_concat⟩
    obtain ⟨start, last, hname, hlast⟩ := regular.exists_concat (hnames name hname).accepts
    exact ⟨start, last, hname, regular.not_blank hlast⟩
  obtain ⟨name, others, rfl⟩ := List.exists_cons_of_ne_nil hne
  obtain ⟨⟨hname, -⟩, hothers⟩ := List.forall_mem_cons.mp hnames
  obtain ⟨next, items, hnext⟩ : ∃ next items, others ++ [value] = next :: items :=
    List.exists_cons_of_ne_nil (by simp)
  rw [List.cons_append, hnext] at h
  cases h with
  | @more _ front back hfront hback _ _ text' hlist =>
    rw [← hnext] at hlist
    have haccepts : ∀ name ∈ others, identifier.accepts name = true := fun name hname => (hothers name hname).accepts
    have hfirst : assignment.countFrom identifier [] (name ++ (front ++ '=' :: (back ++ text'))) = 1 :=
      countFrom_assignment hname hfront
        (not_equals_head? hlist (items_of_chain haccepts hvalue.not_equals) hback)
    have hchained : chainedAssignment.countFrom identifier [] (name ++ (front ++ '=' :: (back ++ text'))) =
        others.length := by
      rw [← List.append_assoc]
      exact countFrom_chainedAssignment_start (not_mem_equals hname hfront)
        (exists_concat_blanks (regular.exists_concat hname) hfront) haccepts hvalue.not_equals hlist hback
    rw [count_assignment hplain ?_ (by simp) ?_ hlast, hfirst, hchained,
      Family.countFrom_of_not_mem (show tupleAssignment.requires ',' = true by decide) hcomma, List.length_cons]
    · omega
    · intro x hx hmem
      rw [hmarks x hmem] at hx
      revert hx
      decide
    · obtain ⟨c, rest, rfl, hc, -⟩ := Identifier.exists_cons_of_accepts hname
      exact ⟨c, _, rfl, regular.not_blank (regular.tail_of_head hc)⟩

/-- Several names count as the targets of one assignment. -/
theorem count_tuple (hnames : ∀ name ∈ names, IsName name) (hlength : 2 ≤ names.length) (h : Listed ',' names text)
    (hfront : ∀ x ∈ front, isBlank x = true) (hback : ∀ x ∈ back, isBlank x = true) (hvalue : IsNumber value)
    (hline : line = text ++ (front ++ '=' :: (back ++ value))) : indented.count line = names.length := by
  have hlist := names_of_listed hnames h
  have hne : names ≠ [] := List.length_pos_iff.mp (Nat.lt_of_lt_of_le Nat.zero_lt_two hlength)
  have hmarks : identifier.marks line = ['='] := by
    rw [hline, Identifier.marks_append, Identifier.marks_append, Identifier.marks_cons, Identifier.marks_append,
      hlist.marks_eq regular, Identifier.marks_blanks hfront, Identifier.marks_blanks hback,
      Identifier.marks_of_isTail hvalue.isTail]
    rfl
  have hplain : Plain line := by
    have hassoc : line = text ++ ((front ++ '=' :: back) ++ value) := by
      simp [hline]
    rw [hassoc]
    exact Plain.append_gap_append (.listed h (by decide) fun name hname => (hnames name hname).plain) hvalue.plain
      (by simp) (gap_around hfront hback (by decide))
  have hafter : ∀ x ∈ (back ++ value).head?, x ≠ '=' :=
    not_equals_head? (.one value) (List.forall_mem_singleton.mpr hvalue.not_equals) hback
  have hsingle : assignment.countFrom identifier [] line = 0 := by
    cases h with
    | nil => cases hlength
    | one => simp at hlength
    | more name hfront' _ _ =>
      rw [hline, List.append_assoc, List.append_assoc, List.cons_append]
      exact countFrom_assignment_comma hlist.head hfront'
  have htuple : tupleAssignment.countFrom identifier [] line = names.length := by
    rw [hline]
    exact countFrom_tupleAssignment hlist hlength hfront hafter
  have hchained : chainedAssignment.countFrom identifier [] line = 0 := by
    have hequals : '=' ∉ text ++ front := by
      refine identifier.not_mem_of_marks [] ?_ (by decide)
      rw [Identifier.marks_append, hlist.marks_eq regular, Identifier.marks_blanks hfront]
      rfl
    rw [hline, ← List.append_assoc]
    exact countFrom_chainedAssignment_start hequals (exists_concat_blanks (hlist.exists_concat regular hne) hfront)
      (List.forall_mem_nil _) hvalue.not_equals (.one value) hback
  rw [count_assignment hplain (by rw [hmarks]; decide) (by simp [hline]) ?_ ?_, hsingle, htuple, hchained]
  · omega
  · obtain ⟨c, rest, hc, hhead⟩ := hlist.exists_cons hne
    exact ⟨c, _, by rw [hline, hc]; rfl, regular.not_blank (regular.tail_of_head hhead)⟩
  · obtain ⟨start, last, hlast, hblank⟩ := hvalue.exists_concat
    exact ⟨text ++ (front ++ '=' :: (back ++ start)), last, by simp [hline, hlast], hblank⟩

section Loops

variable {opening closing : List Char}
  (hbrackets : opening = [] ∧ closing = [] ∨ opening = ['('] ∧ closing = [')'])
  (hnames : ∀ name ∈ names, IsName name) (h : Listed ',' names text) (hsource : IsName source)
  (hline : line = "for ".toList ++ (opening ++ (text ++ (closing ++ (" in".toList ++ ' ' :: (source ++ [':']))))))

include hbrackets hline

private theorem wholeWords_loop :
    wholeWords line = ["for".toList] ++ (wholeWords text ++ (["in".toList] ++ wholeWords source)) := by
  have hopening : ∀ x ∈ [' '] ++ opening, isWordChar x = false := by
    rcases hbrackets with ⟨rfl, -⟩ | ⟨rfl, -⟩ <;> decide
  have hclosing : ∀ x ∈ closing ++ [' '], isWordChar x = false := by
    rcases hbrackets with ⟨-, rfl⟩ | ⟨-, rfl⟩ <;> decide
  have hsplit : line = "for".toList ++ (([' '] ++ opening) ++ (text ++ ((closing ++ [' ']) ++ ("in".toList ++
      ([' '] ++ (source ++ ([':'] ++ []))))))) := by
    simp [hline]
  have hfor : wholeWords "for".toList = ["for".toList] := Text.wholeWords_of_word (by decide) (by decide)
  have hin : wholeWords "in".toList = ["in".toList] := Text.wholeWords_of_word (by decide) (by decide)
  rw [hsplit, Text.wholeWords_append_gap_append (by simp) hopening,
    Text.wholeWords_append_gap_append (by simp) hclosing,
    Text.wholeWords_append_gap_append (by simp) (by decide), Text.wholeWords_append_gap_append (by simp) (by decide),
    Text.wholeWords_nil, List.append_nil, hfor, hin]

include hnames h hsource

/-- The only reserved words are those of the loop itself. -/
theorem not_mem_wholeWords_loop {word : List Char} (hword : word ∈ keywords)
    (hother : word ∉ ["for".toList, "in".toList]) : word ∉ wholeWords line := by
  have htext : Plain text := .listed h (by decide) fun name hname => (hnames name hname).plain
  rw [List.mem_pair, not_or] at hother
  simp only [wholeWords_loop hbrackets hline, List.mem_append, List.mem_singleton, not_or]
  exact ⟨hother.1, htext word hword, hother.2, hsource.plain word hword⟩

/-- The only colon is the last character, and brackets are the only other marks. -/
theorem marks_loop : ∃ start, line = start ++ [':'] ∧ identifier.marks start = opening ++ closing := by
  refine ⟨"for ".toList ++ (opening ++ (text ++ (closing ++ (" in ".toList ++ source)))), by simp [hline], ?_⟩
  simp only [Identifier.marks_append, (names_of_listed hnames h).marks_eq regular,
    Identifier.marks_of_isTail (regular.isTail_of_mem hsource.accepts)]
  rcases hbrackets with ⟨rfl, rfl⟩ | ⟨rfl, rfl⟩ <;> rfl

/-- Only the loop itself counts in its head, with or without brackets around the variables. -/
theorem count_loop (hne : names ≠ []) : indented.count line = names.length := by
  have hopening : opening = [] ∨ opening = ['('] := hbrackets.imp And.left And.left
  have hclosing : closing = [] ∨ closing = [')'] := hbrackets.imp And.right And.right
  have hplain : Plain (' ' :: (source ++ [':'])) := by
    intro word hword
    rw [Text.wholeWords_cons (by decide), Text.wholeWords_append_cons (by decide), Text.wholeWords_nil, List.append_nil]
    exact hsource.plain word hword
  have hloop : forBinder.countFrom identifier [] line = names.length := by
    rw [hline, countFrom_forBinder hopening hclosing (names_of_listed hnames h) hne rfl,
      countFrom_eq_zero_of_words forBinder_begins (by decide) (hplain _ (by decide)), Nat.add_zero]
  have hfunction : functionParams.countFrom identifier [] line = 0 :=
    countFrom_eq_zero_of_words functionParams_begins (by decide)
      (not_mem_wholeWords_loop hbrackets hnames h hsource hline (by decide) (by decide))
  obtain ⟨start, hstart, hmarks⟩ := marks_loop hbrackets hnames h hsource hline
  have hmarks' : identifier.marks line = opening ++ closing ++ [':'] := by
    rw [hstart, Identifier.marks_append, hmarks]
    rfl
  have htype : typeAnnotation.countFrom identifier [] line = 0 := by
    rw [hstart]
    refine countFrom_typeAnnotation_eq_zero (identifier.not_mem_of_marks _ hmarks ?_) (List.forall_mem_nil _)
    rcases hbrackets with ⟨rfl, rfl⟩ | ⟨rfl, rfl⟩ <;> decide
  rw [count_header ?_ ?_ ⟨'f', _, hline, by decide⟩ ⟨start, hstart⟩, hloop, hfunction, htype]
  · rfl
  · refine fun mark hmark => identifier.not_mem_of_marks _ hmarks' ?_
    revert hmark mark
    rcases hbrackets with ⟨rfl, rfl⟩ | ⟨rfl, rfl⟩ <;> decide
  · have hwords : ∀ word ∈ ["with".toList, "lambda".toList], word ∈ keywords ∧ word ∉ ["for".toList, "in".toList] := by
      decide
    exact fun word hword =>
      not_mem_wholeWords_loop hbrackets hnames h hsource hline (hwords word hword).1 (hwords word hword).2

end Loops

/-- Every plain assignment and every loop counts exactly its targets. -/
theorem count_of_targets {n : Nat} (h : Targets line n) : indented.count line = n := by
  cases h with
  | chain hnames hne hvalue h => exact count_chain hnames hne hvalue h
  | tuple hnames hlength h hfront hback hvalue => exact count_tuple hnames hlength h hfront hback hvalue rfl
  | loop hnames hne h hsource => exact count_loop (.inl ⟨rfl, rfl⟩) hnames h hsource (by simp) hne
  | bracketedLoop hnames hne h hsource => exact count_loop (.inr ⟨rfl, rfl⟩) hnames h hsource (by simp) hne

theorem count_targets_chain : Targets "a= _in =b7=042".toList 3 ∧ indented.count "a= _in =b7=042".toList = 3 := by
  have hblank : ∀ c ∈ [' '], isBlank c = true := by decide
  have hnames : ∀ name ∈ ["a".toList, "_in".toList, "b7".toList], IsName name := by
    have hall : ∀ name ∈ ["a".toList, "_in".toList, "b7".toList], identifier.accepts name = true ∧ name ∉ keywords := by
      decide
    exact fun name hname => ⟨(hall name hname).1, (hall name hname).2⟩
  have hvalue : IsNumber "042".toList := ⟨by decide, by decide⟩
  have hlisted : Listed '=' (["a".toList, "_in".toList, "b7".toList] ++ ["042".toList]) "a= _in =b7=042".toList :=
    .more _ (List.forall_mem_nil _) hblank (.more _ hblank (List.forall_mem_nil _)
      (.more _ (List.forall_mem_nil _) (List.forall_mem_nil _) (.one _)))
  have htargets : Targets "a= _in =b7=042".toList 3 := .chain hnames (by simp) hvalue hlisted
  exact ⟨htargets, count_of_targets htargets⟩

end LineCensus.Declaration.Indented
