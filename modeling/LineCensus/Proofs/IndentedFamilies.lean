import LineCensus.Declaration.Indented
import LineCensus.Proofs.WholeWords

/-! What the families of the indented languages find in a line that assigns, and the words that a line needs for
the other families. -/
namespace LineCensus.Declaration.Indented

open Pattern hiding requires mem_of_requires
open Text (Listed isBlank isWordChar stretch_unique stretch_cons_unique wholeWords)

variable {before lead bound tail rest after text name word front back space : List Char}
  {names : List (List Char)}

def keywords : List (List Char) :=
  ["False", "None", "True", "and", "as", "assert", "async", "await", "break", "class", "continue", "def", "del",
    "elif", "else", "except", "finally", "for", "from", "global", "if", "import", "in", "is", "lambda", "nonlocal",
    "not", "or", "pass", "raise", "return", "try", "while", "with", "yield"].map String.toList

structure IsName (name : List Char) : Prop where
  accepts : identifier.accepts name = true
  not_keyword : name ∉ keywords

section Characters

variable {c : Char}

theorem isWordChar_of_isTail (h : identifier.isTail c = true) : isWordChar c = true ∧ isBlank c = false := by
  have hrange : 33 ≤ c.toNat ∧ c.toNat < 128 := by
    simp only [identifier, Bool.or_eq_true, beq_iff_eq] at h
    rcases h with h | rfl
    · exact Text.toNat_of_alphanumeric h
    · decide
  rw [isWordChar, if_pos hrange.2]
  exact ⟨h, Text.not_blank_of_toNat hrange.1 hrange.2⟩

theorem regular : identifier.Regular where
  tail_of_head {c} h := by
    simp only [identifier, Bool.or_eq_true] at h ⊢
    exact h.imp_left .inl
  not_blank h := (isWordChar_of_isTail h).2
  comma := by decide

theorem isTail_of_isDigit (h : Text.isDigit c = true) : identifier.isTail c = true := by
  simp [identifier, h]

/-- No mark stands in a name or in a gap. -/
theorem not_mem_marks {marks : List Char} (hmarks : ∀ x ∈ marks, identifier.isTail x = false ∧ isBlank x = false)
    (h : identifier.isTail c = true ∨ isBlank c = true) : c ∉ marks := by
  intro hmem
  obtain ⟨htail, hblank⟩ := hmarks c hmem
  rcases h with h | h
  · rw [htail] at h
    cases h
  · rw [hblank] at h
    cases h

end Characters

theorem IsName.isWordChar (h : IsName name) : ∀ x ∈ name, isWordChar x = true :=
  fun x hx => (isWordChar_of_isTail (regular.isTail_of_mem h.accepts x hx)).1

theorem IsName.ne_nil (h : IsName name) : name ≠ [] := by
  obtain ⟨c, others, rfl, -⟩ := Identifier.exists_cons_of_accepts h.accepts
  exact List.cons_ne_nil c others

section Silence

/-- A text is plain if none of its words is reserved. -/
def Plain (text : List Char) : Prop :=
  ∀ word ∈ keywords, word ∉ wholeWords text

theorem plain_nil : Plain [] :=
  fun _ _ => List.not_mem_nil

theorem IsName.plain (h : IsName name) : Plain name := by
  rw [Plain, Text.wholeWords_of_word h.ne_nil h.isWordChar]
  rintro word hword hmem
  obtain rfl := List.mem_singleton.mp hmem
  exact h.not_keyword hword

theorem Plain.append_gap_append (h : Plain front) (h' : Plain back) (hne : space ≠ [])
    (hgap : ∀ x ∈ space, isWordChar x = false) : Plain (front ++ (space ++ back)) := by
  intro word hword
  rw [Text.wholeWords_append_gap_append hne hgap, List.mem_append, not_or]
  exact ⟨h word hword, h' word hword⟩

theorem gap_around {mark : Char} (hfront : ∀ x ∈ front, isBlank x = true) (hback : ∀ x ∈ back, isBlank x = true)
    (hmark : isWordChar mark = false) : ∀ x ∈ front ++ mark :: back, isWordChar x = false := by
  rw [List.forall_mem_append, List.forall_mem_cons]
  exact ⟨fun x hx => Text.isWordChar_of_isBlank (hfront x hx), hmark,
    fun x hx => Text.isWordChar_of_isBlank (hback x hx)⟩

theorem Plain.listed {sep : Char} {items : List (List Char)} (hlist : Listed sep items text)
    (hsep : isWordChar sep = false) (h : ∀ item ∈ items, Plain item) : Plain text := by
  intro word hword
  rw [hlist.wholeWords_eq hsep, List.mem_flatMap]
  rintro ⟨item, hitem, hmem⟩
  exact h item hitem word hword hmem

/-- A family that begins with a reserved word finds nothing in a text without this word. -/
theorem countFrom_eq_zero_of_words {family : Family} (hbegins : family.lead.BeginsWith word) (hword : word ∈ keywords)
    (h : word ∉ wholeWords rest) : family.countFrom identifier before rest = 0 := by
  have hkeywords : ∀ word ∈ keywords, word ≠ [] ∧ ∀ x ∈ word, isWordChar x = true := by
    decide
  exact Family.countFrom_of_not_mem_wholeWords hbegins (hkeywords word hword).1 (hkeywords word hword).2 h

theorem forBinder_begins : forBinder.lead.BeginsWith "for".toList :=
  (beginsWith_gap (by decide) (by decide)).append

theorem withBinder_begins : withBinder.lead.BeginsWith "with".toList :=
  (beginsWith_gap (by decide) (by decide)).append.append.append.append

theorem functionParams_begins : functionParams.lead.BeginsWith "def".toList :=
  (beginsWith_gap (by decide) (by decide)).append.append.append

theorem lambdaParams_begins : lambdaParams.lead.BeginsWith "lambda".toList :=
  (beginsWith_edge (by decide) (by decide)).append

end Silence

section Assignments

private theorem spells_assign : assign.Spells before text rest ↔
    ∃ space, (∀ x ∈ space, isBlank x = true) ∧ text = space ++ ['='] ∧ ∀ x ∈ rest.head?, x ≠ '=' := by
  have hnext {before text rest : List Char} : (notAhead (lit "=")).Spells before text rest ↔
      text = [] ∧ ∀ x ∈ rest.head?, x ≠ '=' := by
    rw [spells_notAhead]
    refine and_congr_right fun _ => ?_
    cases rest with
    | nil => simp
    | cons x rest => simp
  simp only [assign, spells_append, spells_blanks, spells_lit, hnext]
  constructor
  · rintro ⟨_, _, rfl, ⟨space, _, rfl, hspace, rfl⟩, rfl, hrest⟩
    exact ⟨space, hspace, List.append_nil _, hrest⟩
  · rintro ⟨space, hspace, rfl, hrest⟩
    exact ⟨_, [], (List.append_nil _).symm, ⟨space, _, rfl, hspace, rfl⟩, rfl, hrest⟩

/-- An equals sign behind blank characters, with something else behind it, stands at one place only. -/
theorem assign_unique {rest' : List Char} (h : assign.Spells before text rest)
    (hspace : ∀ x ∈ space, isBlank x = true) (heq : text ++ rest = space ++ '=' :: rest') : text = space ++ ['='] := by
  obtain ⟨space', hspace', rfl, -⟩ := spells_assign.mp h
  rw [List.append_assoc] at heq
  obtain ⟨rfl, -, -⟩ := stretch_cons_unique hspace' hspace (by decide) (by decide) heq
  rfl

private theorem start_only (before text after : List Char) (h : atStart.Spells before text after) : before = [] :=
  (spells_atStart.mp h).2

private theorem not_isTail_head?_assign (h : assign.Spells before text rest) :
    ∀ x ∈ (text ++ rest).head?, identifier.isTail x = false := by
  obtain ⟨space, hspace, rfl, -⟩ := spells_assign.mp h
  rw [List.append_assoc]
  exact regular.not_isTail_head?_mark hspace (by decide)

theorem countFrom_assignment (hname : identifier.accepts name = true) (hfront : ∀ x ∈ front, isBlank x = true)
    (hrest : ∀ x ∈ rest.head?, x ≠ '=') :
    assignment.countFrom identifier [] (name ++ (front ++ '=' :: rest)) = 1 := by
  have hspells : assignment.Spells [] [] name (front ++ ['=']) rest :=
    ⟨spells_atStart.mpr ⟨rfl, rfl⟩, Identifier.spells_pattern.mpr hname, spells_assign.mpr ⟨front, hfront, rfl, hrest⟩⟩
  have hsplit : name ++ (front ++ '=' :: rest) = [] ++ (name ++ ((front ++ ['=']) ++ rest)) := by
    simp
  rw [hsplit, Family.countFrom_of_spells identifier (by simp) hspells ?_, Family.countFrom_inside start_only (by simp)]
  · rfl
  intro lead' bound' tail' after' h hother
  obtain ⟨rfl, -⟩ := spells_atStart.mp hother.takes_lead
  have hbound : identifier.accepts bound' = true := Identifier.spells_pattern.mp hother.takes_bound
  obtain ⟨rfl, htail⟩ := stretch_unique (regular.isTail_of_mem hbound) (regular.isTail_of_mem hname)
    (not_isTail_head?_assign hother.takes_tail) (not_isTail_head?_assign hspells.takes_tail) h
  rw [List.append_assoc] at htail
  exact ⟨rfl, rfl, assign_unique hother.takes_tail hfront htail⟩

/-- A comma behind the first name is no assignment to it. -/
theorem countFrom_assignment_comma (hname : identifier.accepts name = true) (hfront : ∀ x ∈ front, isBlank x = true) :
    assignment.countFrom identifier [] (name ++ (front ++ ',' :: rest)) = 0 := by
  refine Family.countFrom_eq_zero fun passed lead bound tail after hrest hspells => ?_
  obtain ⟨rfl, hstart⟩ := spells_atStart.mp hspells.takes_lead
  obtain rfl : passed = [] := by simpa using hstart
  have hbound : identifier.accepts bound = true := Identifier.spells_pattern.mp hspells.takes_bound
  obtain ⟨rfl, htail⟩ := stretch_unique (regular.isTail_of_mem hname) (regular.isTail_of_mem hbound)
    (regular.not_isTail_head?_mark hfront (by decide)) (not_isTail_head?_assign hspells.takes_tail) hrest
  obtain ⟨space, hspace, rfl, -⟩ := spells_assign.mp hspells.takes_tail
  rw [List.append_assoc] at htail
  obtain ⟨-, h, -⟩ := stretch_cons_unique hfront hspace (by decide) (by decide) htail
  cases h

private theorem ends_assign (h : assign.Spells before text rest) : identifier.Ends (text ++ rest) := by
  obtain ⟨space, hspace, rfl, -⟩ := spells_assign.mp h
  rw [List.append_assoc]
  exact regular.ends_mark hspace (by decide)

private theorem spells_tupleAssignment_bound : tupleAssignment.bound.Spells before bound rest ↔
    ∃ names, 2 ≤ names.length ∧ identifier.Names names bound :=
  spells_several

/-- All names in front of the equals sign are found together. -/
theorem countFrom_tupleAssignment (hnames : identifier.Names names text) (hlength : 2 ≤ names.length)
    (hfront : ∀ x ∈ front, isBlank x = true) (hrest : ∀ x ∈ rest.head?, x ≠ '=') :
    tupleAssignment.countFrom identifier [] (text ++ (front ++ '=' :: rest)) = names.length := by
  have hne {names : List (List Char)} (h : 2 ≤ names.length) : names ≠ [] :=
    List.length_pos_iff.mp (Nat.lt_of_lt_of_le Nat.zero_lt_two h)
  have hspells : tupleAssignment.Spells [] [] text (front ++ ['=']) rest :=
    ⟨spells_atStart.mpr ⟨rfl, rfl⟩, spells_tupleAssignment_bound.mpr ⟨names, hlength, hnames⟩,
      spells_assign.mpr ⟨front, hfront, rfl, hrest⟩⟩
  have hcount : tupleAssignment.binding.count identifier text = names.length := hnames.count_eq regular (by decide)
  have hsplit : text ++ (front ++ '=' :: rest) = [] ++ (text ++ ((front ++ ['=']) ++ rest)) := by
    simp
  rw [hsplit, Family.countFrom_of_spells identifier (by simp) hspells ?_, Family.countFrom_inside start_only (by simp),
    hcount, Nat.add_zero]
  intro lead' bound' tail' after' h hother
  obtain ⟨rfl, -⟩ := spells_atStart.mp hother.takes_lead
  obtain ⟨others, hothers, hbound⟩ := spells_tupleAssignment_bound.mp hother.takes_bound
  obtain ⟨rfl, htail⟩ := hbound.unique regular hnames (hne hothers) (hne hlength) (ends_assign hother.takes_tail)
    (ends_assign hspells.takes_tail) h
  rw [List.append_assoc] at htail
  exact ⟨rfl, rfl, assign_unique hother.takes_tail hfront htail⟩

end Assignments

section Chains

variable {x last : Char} {value start : List Char}

private theorem spells_chainedAssignment_lead : chainedAssignment.lead.Spells before lead rest ↔
    (∃ x others, before = '=' :: x :: others ∧ x ∉ operatorStarts) ∧ ∀ x ∈ lead, isBlank x = true := by
  change (behind (outside operatorStarts) '=' ++ blanks).Spells before lead rest ↔ _
  simp only [spells_append, spells_behind, spells_blanks, outside_eq_true_iff]
  constructor
  · rintro ⟨_, space, rfl, ⟨rfl, hbefore⟩, hspace⟩
    exact ⟨hbefore, hspace⟩
  · rintro ⟨hbefore, hspace⟩
    exact ⟨[], lead, rfl, ⟨rfl, hbefore⟩, hspace⟩

private theorem spells_chainedAssignment_tail : chainedAssignment.tail.Spells before tail rest ↔
    tail = [] ∧ ∃ next others, rest = next ++ others ∧ assign.Spells before next others :=
  spells_ahead

/-- A chain goes on as far as there are equals signs. -/
theorem countFrom_chainedAssignment_eq_zero (h : '=' ∉ rest) :
    chainedAssignment.countFrom identifier before rest = 0 := by
  refine Family.countFrom_eq_zero fun passed lead bound tail after hrest hspells => h ?_
  obtain ⟨-, next, others, rfl, hassign⟩ := spells_chainedAssignment_tail.mp hspells.takes_tail
  obtain ⟨space, -, rfl, -⟩ := spells_assign.mp hassign
  simp [hrest]

/-- No further name begins in front of the equals sign. -/
theorem countFrom_chainedAssignment_passed (hfront : '=' ∉ front) (hbefore : '=' ∉ before.head?) :
    chainedAssignment.countFrom identifier before (front ++ '=' :: rest) =
      chainedAssignment.countFrom identifier ('=' :: (front.reverse ++ before)) rest := by
  have hsplit : front ++ '=' :: rest = (front ++ ['=']) ++ rest := by
    simp
  have hreverse : '=' :: (front.reverse ++ before) = (front ++ ['=']).reverse ++ before := by
    simp
  rw [hsplit, hreverse]
  refine Family.countFrom_append fun passed left lead bound tail after hpassed hleft _ hspells => ?_
  obtain ⟨⟨x, others, heq, -⟩, -⟩ := spells_chainedAssignment_lead.mp hspells.takes_lead
  rcases List.eq_nil_or_concat passed with rfl | ⟨start, last, rfl⟩
  · rw [List.reverse_nil, List.nil_append] at heq
    exact hbefore (heq ▸ rfl)
  · obtain rfl : last = '=' := by
      simpa using congrArg List.head? heq
    obtain ⟨front', c, rfl⟩ : ∃ front' c, left = front' ++ [c] :=
      ⟨_, _, (List.dropLast_concat_getLast hleft).symm⟩
    have hfront' : front = start ++ '=' :: front' := by
      rw [List.concat_eq_append, ← List.append_assoc] at hpassed
      simpa using (List.append_inj' hpassed rfl).1
    exact hfront (by simp [hfront'])

private theorem countFrom_chainedAssignment_name (hx : x ∉ operatorStarts) (hback : ∀ x ∈ back, isBlank x = true)
    (hname : identifier.accepts name = true) (hfront : ∀ x ∈ front, isBlank x = true)
    (hrest : ∀ x ∈ rest.head?, x ≠ '=') :
    chainedAssignment.countFrom identifier ('=' :: x :: before) (back ++ (name ++ (front ++ '=' :: rest))) =
      1 + chainedAssignment.countFrom identifier ((back ++ name).reverse ++ '=' :: x :: before)
        (front ++ '=' :: rest) := by
  have hassign {before : List Char} : assign.Spells before (front ++ ['=']) rest :=
    spells_assign.mpr ⟨front, hfront, rfl, hrest⟩
  have hsplit : front ++ '=' :: rest = (front ++ ['=']) ++ rest := by
    simp
  have hspells : chainedAssignment.Spells ('=' :: x :: before) back name [] (front ++ '=' :: rest) :=
    ⟨spells_chainedAssignment_lead.mpr ⟨⟨x, before, rfl, hx⟩, hback⟩, Identifier.spells_pattern.mpr hname,
      spells_chainedAssignment_tail.mpr ⟨rfl, _, rest, hsplit, hassign⟩⟩
  have hne : back ++ (name ++ []) ≠ [] := by
    obtain ⟨c, others, rfl, -⟩ := Identifier.exists_cons_of_accepts hname
    simp
  have hfound := Family.countFrom_of_spells identifier hne hspells ?_
  · rw [List.append_nil] at hfound
    exact hfound
  intro lead' bound' tail' after' h hother
  obtain ⟨-, hlead⟩ := spells_chainedAssignment_lead.mp hother.takes_lead
  have hbound : identifier.accepts bound' = true := Identifier.spells_pattern.mp hother.takes_bound
  obtain ⟨rfl, next, others, rfl, hnext⟩ := spells_chainedAssignment_tail.mp hother.takes_tail
  obtain ⟨rfl, hrests⟩ := stretch_unique hlead hback
    ((Identifier.Names.single hbound).not_blank_head? regular (by simp) _)
    ((Identifier.Names.single hname).not_blank_head? regular (by simp) _) h
  obtain ⟨rfl, -⟩ := stretch_unique (regular.isTail_of_mem hbound) (regular.isTail_of_mem hname)
    (not_isTail_head?_assign hnext) (regular.not_isTail_head?_mark hfront (by decide)) hrests
  exact ⟨rfl, rfl, rfl⟩

/-- Right before an equals sign stands a blank character or the end of a name. -/
theorem exists_concat_blanks (htext : ∃ start last, text = start ++ [last] ∧ identifier.isTail last = true)
    (hspace : ∀ x ∈ space, isBlank x = true) :
    ∃ start last, text ++ space = start ++ [last] ∧ last ∉ operatorStarts := by
  rcases List.eq_nil_or_concat space with rfl | ⟨others, c, rfl⟩
  · obtain ⟨start, last, rfl, hlast⟩ := htext
    exact ⟨start, last, List.append_nil _, not_mem_marks (by decide) (.inl hlast)⟩
  · exact ⟨text ++ others, c, by simp, not_mem_marks (by decide) (.inr (hspace c (by simp)))⟩

theorem not_mem_equals (hname : identifier.accepts name = true) (hspace : ∀ x ∈ space, isBlank x = true) :
    '=' ∉ name ++ space := by
  rw [List.mem_append, not_or]
  refine ⟨fun hmem => ?_, fun hmem => ?_⟩
  · cases regular.isTail_of_mem hname _ hmem
  · cases hspace _ hmem

/-- Behind an equals sign of a chain no other one stands. -/
theorem not_equals_head? {items : List (List Char)} (h : Listed '=' items text)
    (hitems : ∀ item ∈ items, item ≠ [] ∧ '=' ∉ item) (hspace : ∀ x ∈ space, isBlank x = true) :
    ∀ x ∈ (space ++ text).head?, x ≠ '=' := by
  cases space with
  | cons y space =>
    rintro x ⟨⟩ rfl
    cases hspace _ (List.mem_cons_self ..)
  | nil =>
    cases items with
    | nil =>
      cases h
      simp
    | cons item items =>
      obtain ⟨hne, hequals⟩ := hitems item (List.mem_cons_self ..)
      rw [List.nil_append, h.head?_eq hne]
      rintro x hx rfl
      exact hequals (List.mem_of_head? hx)

theorem items_of_chain (hnames : ∀ name ∈ names, identifier.accepts name = true) (hvalue : value ≠ [] ∧ '=' ∉ value) :
    ∀ item ∈ names ++ [value], item ≠ [] ∧ '=' ∉ item := by
  rw [List.forall_mem_append, List.forall_mem_singleton]
  refine ⟨fun name hname => ⟨?_, fun hmem => ?_⟩, hvalue⟩
  · obtain ⟨c, others, rfl, -⟩ := Identifier.exists_cons_of_accepts (hnames name hname)
    exact List.cons_ne_nil c others
  · cases regular.isTail_of_mem (hnames name hname) _ hmem

/-- The names of a chain behind an equals sign count one after the other. -/
theorem countFrom_chainedAssignment (hnames : ∀ name ∈ names, identifier.accepts name = true)
    (hvalue : value ≠ [] ∧ '=' ∉ value) (h : Listed '=' (names ++ [value]) text) (hx : x ∉ operatorStarts)
    (hback : ∀ x ∈ back, isBlank x = true) :
    chainedAssignment.countFrom identifier ('=' :: x :: before) (back ++ text) = names.length := by
  induction names generalizing text back x before with
  | nil =>
    cases h
    refine countFrom_chainedAssignment_eq_zero ?_
    rw [List.mem_append, not_or]
    refine ⟨fun hmem => ?_, hvalue.2⟩
    cases hback _ hmem
  | cons name names ih =>
    obtain ⟨hname, hlater⟩ := List.forall_mem_cons.mp hnames
    have hitems := items_of_chain hlater hvalue
    obtain ⟨next, items, hnext⟩ : ∃ next items, names ++ [value] = next :: items :=
      List.exists_cons_of_ne_nil (by simp)
    rw [List.cons_append, hnext] at h
    cases h with
    | @more _ front back' hfront hback' _ _ text' hlist =>
      rw [← hnext] at hlist
      have hequals : '=' ∉ front := fun hmem => by cases hfront _ hmem
      have hbefore : '=' ∉ ((back ++ name).reverse ++ '=' :: x :: before).head? := by
        obtain ⟨start, last, rfl, hlast⟩ := regular.exists_concat hname
        simp only [List.reverse_append, List.reverse_singleton, List.append_assoc, List.singleton_append]
        rintro ⟨⟩
        cases hlast
      obtain ⟨start, last, hstart, hlast⟩ := exists_concat_blanks (regular.exists_concat hname) hfront
      have hstate : front.reverse ++ ((back ++ name).reverse ++ '=' :: x :: before) =
          last :: (start.reverse ++ (back.reverse ++ '=' :: x :: before)) := by
        rw [List.reverse_append, List.append_assoc, ← List.append_assoc front.reverse, ← List.reverse_append, hstart]
        simp
      rw [countFrom_chainedAssignment_name hx hback hname hfront (not_equals_head? hlist hitems hback'),
        countFrom_chainedAssignment_passed hequals hbefore, hstate, ih hlater hlist hlast hback', List.length_cons,
        Nat.add_comm]

/-- All names of a chain but the first one count as chained. -/
theorem countFrom_chainedAssignment_start (hequals : '=' ∉ front)
    (hfront : ∃ start last, front = start ++ [last] ∧ last ∉ operatorStarts)
    (hnames : ∀ name ∈ names, identifier.accepts name = true) (hvalue : value ≠ [] ∧ '=' ∉ value)
    (h : Listed '=' (names ++ [value]) text) (hback : ∀ x ∈ back, isBlank x = true) :
    chainedAssignment.countFrom identifier [] (front ++ '=' :: (back ++ text)) = names.length := by
  obtain ⟨start, last, rfl, hlast⟩ := hfront
  rw [countFrom_chainedAssignment_passed hequals (by simp), List.append_nil, List.reverse_append]
  exact countFrom_chainedAssignment hnames hvalue h hlast hback

end Chains

end LineCensus.Declaration.Indented
