import LineCensus.Proofs.IndentedFamilies

/-! What the families of the indented languages find in the header of a block: the variables of a loop, the
parameters of a function, and the annotations that name a builtin type. -/
namespace LineCensus.Declaration.Indented

open Pattern hiding requires mem_of_requires
open Text (isBlank stretch_unique stretch_cons_unique first_mark_unique wholeWords)

variable {before lead bound tail rest after text name word front back space line : List Char}
  {names : List (List Char)}

section Loops

variable {opening closing : List Char}

private theorem spells_forBinder_lead : forBinder.lead.Spells before lead rest ↔ wordNext before = false ∧
    ∃ space opening, space ≠ [] ∧ (∀ x ∈ space, isBlank x = true) ∧ (opening = [] ∨ opening = ['(']) ∧
      lead = "for".toList ++ (space ++ opening) := by
  have hword {before text after : List Char} : (wordEdge ++ lit "for").Spells before text after ↔
      wordNext before = false ∧ text = "for".toList :=
    spells_wordEdge_lit (by decide) (by decide)
  change (wordEdge ++ lit "for" ++ gap ++ opt (lit "(")).Spells before lead rest ↔ _
  rw [spells_append]
  simp only [spells_append (p := wordEdge ++ lit "for"), hword, spells_gap, spells_opt, spells_lit]
  constructor
  · rintro ⟨_, opening, rfl, ⟨_, space, rfl, ⟨hbefore, rfl⟩, hne, hspace⟩, hopening⟩
    exact ⟨hbefore, space, opening, hne, hspace, hopening.symm, List.append_assoc ..⟩
  · rintro ⟨hbefore, space, opening, hne, hspace, hopening, rfl⟩
    exact ⟨_, opening, (List.append_assoc ..).symm, ⟨_, space, rfl, ⟨hbefore, rfl⟩, hne, hspace⟩, hopening.symm⟩

private theorem spells_forBinder_bound : forBinder.bound.Spells before bound rest ↔
    ∃ names, names ≠ [] ∧ identifier.Names names bound :=
  spells_identifiers

private theorem spells_forBinder_tail : forBinder.tail.Spells before tail rest ↔
    ∃ closing space, (closing = [] ∨ closing = [')']) ∧ space ≠ [] ∧ (∀ x ∈ space, isBlank x = true) ∧
      tail = closing ++ (space ++ "in".toList) ∧ wordNext rest = false := by
  change (opt (lit ")") ++ gap ++ lit "in" ++ wordEdge).Spells before tail rest ↔ _
  have hend {before : List Char} : wordNext ("in".toList.reverse ++ before) = true :=
    wordNext_append_of_word (by decide) (by decide) before
  simp only [spells_append, spells_opt, spells_lit, spells_gap, spells_wordEdge]
  constructor
  · rintro ⟨_, _, rfl, ⟨_, _, rfl, ⟨closing, space, rfl, hclosing, hne, hspace⟩, rfl⟩, rfl, hedge⟩
    rw [List.reverse_append, List.append_assoc, hend, ne_eq, eq_comm, Bool.not_eq_true] at hedge
    exact ⟨closing, space, hclosing.symm, hne, hspace, by simp, hedge⟩
  · rintro ⟨closing, space, hclosing, hne, hspace, rfl, hrest⟩
    refine ⟨(closing ++ space) ++ "in".toList, [], by simp,
      ⟨_, _, rfl, ⟨closing, space, rfl, hclosing.symm, hne, hspace⟩, rfl⟩, rfl, ?_⟩
    rw [List.reverse_append, List.append_assoc, hend, hrest]
    decide

private theorem ends_forBinder_tail (h : forBinder.tail.Spells before tail rest) : identifier.Ends (tail ++ rest) := by
  obtain ⟨closing, space, rfl | rfl, hne, hspace, rfl, -⟩ := spells_forBinder_tail.mp h
  · rw [List.nil_append, List.append_assoc]
    refine regular.ends hspace (absurd · hne) ?_
    rintro x ⟨⟩
    decide
  · exact regular.ends_mark (List.forall_mem_nil _) (by decide)

private theorem forBinder_tail_unique {before' tail' rest' : List Char} (h : forBinder.tail.Spells before tail rest)
    (h' : forBinder.tail.Spells before' tail' rest') (heq : tail ++ rest = tail' ++ rest') : tail = tail' := by
  obtain ⟨closing, space, hclosing, hne, hspace, rfl, -⟩ := spells_forBinder_tail.mp h
  obtain ⟨closing', space', hclosing', hne', hspace', rfl, -⟩ := spells_forBinder_tail.mp h'
  have hparen {space r s : List Char} (hne : space ≠ []) (hspace : ∀ x ∈ space, isBlank x = true) :
      space ++ r ≠ ')' :: s := by
    obtain ⟨x, space, rfl⟩ := List.exists_cons_of_ne_nil hne
    rintro ⟨⟩
    cases hspace _ (List.mem_cons_self ..)
  have hsame (heq : space ++ ("in".toList ++ rest) = space' ++ ("in".toList ++ rest')) : space = space' := by
    have hin {rest : List Char} : ∀ x ∈ ("in".toList ++ rest).head?, isBlank x = false := by
      rintro x ⟨⟩
      decide
    exact (stretch_unique hspace hspace' hin hin heq).1
  simp only [List.append_assoc] at heq
  rcases hclosing with rfl | rfl <;> rcases hclosing' with rfl | rfl
  · rw [hsame heq]
  · rw [List.nil_append] at heq
    exact absurd heq (hparen hne hspace)
  · rw [List.nil_append] at heq
    exact absurd heq.symm (hparen hne' hspace')
  · rw [hsame (List.cons.inj heq).2]

/-- The bracket and the list of names behind the gap of a loop do not begin with a blank character. -/
theorem not_blank_head?_opening (hopening : opening = [] ∨ opening = ['(']) (hnames : identifier.Names names text)
    (hne : names ≠ []) : ∀ x ∈ (opening ++ (text ++ rest)).head?, isBlank x = false := by
  rcases hopening with rfl | rfl
  · exact hnames.not_blank_head? regular hne rest
  · rintro x ⟨⟩
    decide

private theorem opening_unique {opening' text' rest' : List Char} {others : List (List Char)}
    (hopening : opening = [] ∨ opening = ['(']) (hopening' : opening' = [] ∨ opening' = ['('])
    (hnames : identifier.Names names text) (hothers : identifier.Names others text') (hne : names ≠ [])
    (hne' : others ≠ []) (heq : opening ++ (text ++ rest) = opening' ++ (text' ++ rest')) :
    opening = opening' ∧ text ++ rest = text' ++ rest' := by
  obtain ⟨c, back, rfl, hc⟩ := hnames.exists_cons hne
  obtain ⟨c', back', rfl, hc'⟩ := hothers.exists_cons hne'
  rcases hopening with rfl | rfl <;> rcases hopening' with rfl | rfl
  · exact ⟨rfl, heq⟩
  · obtain rfl := (List.cons.inj heq).1
    cases hc
  · obtain rfl := (List.cons.inj heq).1
    cases hc'
  · exact ⟨rfl, (List.cons.inj heq).2⟩

/-- The variables of a loop are found together. -/
theorem countFrom_forBinder (hopening : opening = [] ∨ opening = ['(']) (hclosing : closing = [] ∨ closing = [')'])
    (hnames : identifier.Names names text) (hne : names ≠ []) (hafter : wordNext after = false) :
    forBinder.countFrom identifier [] ("for ".toList ++ (opening ++ (text ++ (closing ++ (" in".toList ++ after))))) =
      names.length + forBinder.countFrom identifier
        ("for ".toList ++ (opening ++ (text ++ (closing ++ " in".toList)))).reverse after := by
  have hspells : forBinder.Spells [] ("for ".toList ++ opening) text (closing ++ " in".toList) after :=
    ⟨spells_forBinder_lead.mpr ⟨rfl, [' '], opening, by simp, by decide, hopening, by simp⟩,
      spells_forBinder_bound.mpr ⟨names, hne, hnames⟩,
      spells_forBinder_tail.mpr ⟨closing, [' '], hclosing, by simp, by decide, by simp, hafter⟩⟩
  have hcount : forBinder.binding.count identifier text = names.length := hnames.count_eq regular (by decide)
  have hfound := Family.countFrom_of_spells identifier (by simp) hspells ?_
  · rw [hcount] at hfound
    simpa only [List.append_assoc, List.append_nil] using hfound
  intro lead' bound' tail' after' h hother
  obtain ⟨-, space, opening', hspace, hblank, hopening', rfl⟩ := spells_forBinder_lead.mp hother.takes_lead
  obtain ⟨others, hothers, hbound⟩ := spells_forBinder_bound.mp hother.takes_bound
  have h : space ++ (opening' ++ (bound' ++ (tail' ++ after'))) =
      [' '] ++ (opening ++ (text ++ (closing ++ " in".toList ++ after))) := by
    simpa using h
  obtain ⟨rfl, hlists⟩ := stretch_unique hblank (by decide) (not_blank_head?_opening hopening' hbound hothers)
    (not_blank_head?_opening hopening hnames hne) h
  obtain ⟨rfl, htexts⟩ := opening_unique hopening' hopening hbound hnames hothers hne hlists
  obtain ⟨rfl, htails⟩ := hbound.unique regular hnames hothers hne (ends_forBinder_tail hother.takes_tail)
    (ends_forBinder_tail hspells.takes_tail) htexts
  refine ⟨by simp, rfl, ?_⟩
  exact forBinder_tail_unique hother.takes_tail hspells.takes_tail htails

end Loops

section Annotations

variable {type left : List Char} {mark : Char}

def types : List (List Char) :=
  builtinNames.map String.toList

theorem isName_of_mem_types (h : type ∈ types) : IsName type := by
  have htypes : ∀ type ∈ types, identifier.accepts type = true ∧ type ∉ keywords := by decide
  exact ⟨(htypes type h).1, (htypes type h).2⟩

private theorem spells_typeAnnotation_lead (hbound : identifier.accepts bound = true) :
    typeAnnotation.lead.Spells before lead (bound ++ rest) ↔ wordNext before = false ∧ lead = [] := by
  obtain ⟨c, others, rfl, hc, -⟩ := Identifier.exists_cons_of_accepts hbound
  have hnext : wordNext (c :: others ++ rest) = true := (isWordChar_of_isTail (regular.tail_of_head hc)).1
  change wordEdge.Spells before lead (c :: others ++ rest) ↔ _
  rw [spells_wordEdge]
  constructor
  · rintro ⟨rfl, hedge⟩
    rw [hnext, ne_eq, Bool.not_eq_true] at hedge
    exact ⟨hedge, rfl⟩
  · rintro ⟨hbefore, rfl⟩
    exact ⟨rfl, by rw [hnext, hbefore]; decide⟩

private theorem spells_typeAnnotation_tail : typeAnnotation.tail.Spells before tail rest ↔
    ∃ front back type, (∀ x ∈ front, isBlank x = true) ∧ (∀ x ∈ back, isBlank x = true) ∧ type ∈ types ∧
      tail = front ++ ':' :: (back ++ type) ∧ wordNext rest = false := by
  change (blanks ++ lit ":" ++ blanks ++ anyWord builtinNames ++ wordEdge).Spells before tail rest ↔ _
  have hend {type : List Char} (htype : type ∈ types) (before : List Char) :
      wordNext (type.reverse ++ before) = true := by
    have hname := isName_of_mem_types htype
    exact wordNext_append_of_word (by simpa using hname.ne_nil) (by simpa using hname.isWordChar) before
  simp only [spells_append, spells_blanks, spells_lit, spells_anyWord, spells_wordEdge]
  constructor
  · rintro ⟨_, _, rfl, ⟨_, type, rfl, ⟨_, back, rfl, ⟨front, _, rfl, hfront, rfl⟩, hback⟩, htype⟩, rfl, hedge⟩
    rw [List.reverse_append, List.append_assoc, hend htype, ne_eq, eq_comm, Bool.not_eq_true] at hedge
    exact ⟨front, back, type, hfront, hback, htype, by simp, hedge⟩
  · rintro ⟨front, back, type, hfront, hback, htype, rfl, hrest⟩
    refine ⟨((front ++ ":".toList) ++ back) ++ type, [], by simp,
      ⟨_, type, rfl, ⟨_, back, rfl, ⟨front, _, rfl, hfront, rfl⟩, hback⟩, htype⟩, rfl, ?_⟩
    rw [List.reverse_append, List.append_assoc, hend htype, hrest]
    decide

private theorem not_isTail_head?_type (h : typeAnnotation.tail.Spells before tail rest) :
    ∀ x ∈ (tail ++ rest).head?, identifier.isTail x = false := by
  obtain ⟨front, back, type, hfront, -, -, rfl, -⟩ := spells_typeAnnotation_tail.mp h
  rw [List.append_assoc]
  exact regular.not_isTail_head?_mark hfront (by decide)

/-- An annotated name counts where it stands. -/
theorem countFrom_typeAnnotation_name (hbefore : wordNext before = false) (hname : identifier.accepts name = true)
    (hfront : ∀ x ∈ front, isBlank x = true) (hback : ∀ x ∈ back, isBlank x = true) (htype : type ∈ types)
    (hafter : wordNext after = false) :
    typeAnnotation.countFrom identifier before (name ++ (front ++ ':' :: (back ++ (type ++ after)))) =
      1 + typeAnnotation.countFrom identifier ((name ++ (front ++ ':' :: (back ++ type))).reverse ++ before) after := by
  have hspells : typeAnnotation.Spells before [] name (front ++ ':' :: (back ++ type)) after :=
    ⟨(spells_typeAnnotation_lead hname).mpr ⟨hbefore, rfl⟩, Identifier.spells_pattern.mpr hname,
      spells_typeAnnotation_tail.mpr ⟨front, back, type, hfront, hback, htype, rfl, hafter⟩⟩
  have hcount : typeAnnotation.binding.count identifier name = 1 := rfl
  have hfound := Family.countFrom_of_spells identifier (by simp) hspells ?_
  · rw [hcount] at hfound
    simpa only [List.append_assoc, List.cons_append, List.nil_append] using hfound
  intro lead' bound' tail' after' h hother
  have hbound : identifier.accepts bound' = true := Identifier.spells_pattern.mp hother.takes_bound
  obtain ⟨-, rfl⟩ := (spells_typeAnnotation_lead hbound).mp hother.takes_lead
  obtain ⟨rfl, htails⟩ := stretch_unique (regular.isTail_of_mem hbound) (regular.isTail_of_mem hname)
    (not_isTail_head?_type hother.takes_tail) (not_isTail_head?_type hspells.takes_tail) h
  obtain ⟨front', back', type', hfront', hback', htype', rfl, hafter'⟩ :=
    spells_typeAnnotation_tail.mp hother.takes_tail
  simp only [List.append_assoc, List.cons_append] at htails
  obtain ⟨rfl, -, htypes⟩ := stretch_cons_unique hfront' hfront (by decide) (by decide) htails
  have hsolid {type rest : List Char} (h : type ∈ types) : ∀ x ∈ (type ++ rest).head?, isBlank x = false :=
    (Identifier.Names.single (isName_of_mem_types h).accepts).not_blank_head? regular (by simp) rest
  obtain ⟨rfl, hends⟩ := stretch_unique hback' hback (hsolid htype') (hsolid htype) htypes
  obtain ⟨rfl, -⟩ := stretch_unique (isName_of_mem_types htype').isWordChar (isName_of_mem_types htype).isWordChar
    (wordNext_eq_false_iff.mp hafter') (wordNext_eq_false_iff.mp hafter) hends
  exact ⟨rfl, rfl, rfl⟩

/-- No annotated name begins before a mark that closes the name in front of it. -/
theorem countFrom_typeAnnotation_passed (hleft : ∀ x ∈ left, x ∉ [mark, ':'])
    (hmark : identifier.isTail mark = false ∧ isBlank mark = false ∧ mark ≠ ':')
    (hback : ∀ x ∈ back, isBlank x = true) :
    typeAnnotation.countFrom identifier before (left ++ mark :: (back ++ rest)) =
      typeAnnotation.countFrom identifier ((left ++ mark :: back).reverse ++ before) rest := by
  have hsplit : left ++ mark :: (back ++ rest) = (left ++ mark :: back) ++ rest := by
    simp
  rw [hsplit]
  refine Family.countFrom_append fun passed part lead bound tail after hpassed hpart hrest hspells => ?_
  have hbound : identifier.accepts bound = true := Identifier.spells_pattern.mp hspells.takes_bound
  obtain ⟨-, rfl⟩ := (spells_typeAnnotation_lead hbound).mp hspells.takes_lead
  obtain ⟨space, gap, type, hspace, -, -, rfl, -⟩ := spells_typeAnnotation_tail.mp hspells.takes_tail
  rcases List.append_eq_append_iff.mp hpassed with ⟨front, -, hwithin⟩ | ⟨front, rfl, rfl⟩
  · obtain ⟨c, others, rfl, hc, -⟩ := Identifier.exists_cons_of_accepts hbound
    obtain ⟨x, part, rfl⟩ := List.exists_cons_of_ne_nil hpart
    obtain rfl : x = c := (List.cons.inj hrest).1
    have htail := regular.tail_of_head hc
    have hmem : x ∈ mark :: back := by simp [hwithin]
    rcases List.mem_cons.mp hmem with rfl | hmem
    · rw [htail] at hmark
      cases hmark.1
    · rw [regular.not_isTail_of_isBlank (hback x hmem)] at htail
      cases htail
  · have hmarks : ∀ x ∈ [mark, ':'], identifier.isTail x = false ∧ isBlank x = false := by
      rw [List.forall_mem_cons, List.forall_mem_singleton]
      exact ⟨⟨hmark.1, hmark.2.1⟩, by decide⟩
    have hname : ∀ x ∈ bound ++ space, outside [mark, ':'] x = true := by
      rw [List.forall_mem_append]
      simp only [outside_eq_true_iff]
      exact ⟨fun x hx => not_mem_marks hmarks (.inl (regular.isTail_of_mem hbound x hx)),
        fun x hx => not_mem_marks hmarks (.inr (hspace x hx))⟩
    have hfront : ∀ x ∈ front, outside [mark, ':'] x = true :=
      fun x hx => outside_eq_true_iff.mpr (hleft x (List.mem_append_right _ hx))
    have hrest : front ++ mark :: (back ++ rest) = (bound ++ space) ++ ':' :: (gap ++ (type ++ after)) := by
      simpa using hrest
    obtain ⟨-, h, -⟩ := stretch_cons_unique hfront hname (by simp) (by simp) hrest
    exact hmark.2.2 h

/-- A colon with nothing behind it annotates nothing. -/
theorem countFrom_typeAnnotation_eq_zero (hleft : ':' ∉ left) (hback : ∀ x ∈ back, isBlank x = true) :
    typeAnnotation.countFrom identifier before (left ++ ':' :: back) = 0 := by
  refine Family.countFrom_eq_zero fun passed lead bound tail after hrest hspells => ?_
  obtain ⟨space, gap, type, -, -, htype, rfl, -⟩ := spells_typeAnnotation_tail.mp hspells.takes_tail
  have htype := (isName_of_mem_types htype).accepts
  obtain ⟨c, others, rfl, hc, -⟩ := Identifier.exists_cons_of_accepts htype
  have hsplit : left ++ ':' :: back =
      (passed ++ (lead ++ (bound ++ space))) ++ ':' :: (gap ++ (c :: others ++ after)) := by
    simpa using hrest
  have hmem : c ∈ back := Text.mem_of_append_cons_eq hleft hsplit (by simp)
  have hblank := regular.not_blank (regular.tail_of_head hc)
  rw [hback c hmem] at hblank
  cases hblank

end Annotations

section Functions

variable {f : List Char}

private theorem spells_functionParams_lead : functionParams.lead.Spells before lead rest ↔ wordNext before = false ∧
    ∃ start, lead = start ++ ['('] ∧ ∃ space name gap, space ≠ [] ∧ (∀ x ∈ space, isBlank x = true) ∧
      identifier.accepts name = true ∧ (∀ x ∈ gap, isBlank x = true) ∧
        start = "def".toList ++ (space ++ (name ++ gap)) := by
  have hword {before text after : List Char} : (wordEdge ++ lit "def").Spells before text after ↔
      wordNext before = false ∧ text = "def".toList :=
    spells_wordEdge_lit (by decide) (by decide)
  have hident {before text after : List Char} : ident.Spells before text after ↔ identifier.accepts text = true :=
    Identifier.spells_pattern
  change (wordEdge ++ lit "def" ++ gap ++ ident ++ blanks ++ lit "(").Spells before lead rest ↔ _
  simp only [spells_append (p := wordEdge ++ lit "def" ++ gap ++ ident ++ blanks),
    spells_append (p := wordEdge ++ lit "def" ++ gap ++ ident), spells_append (p := wordEdge ++ lit "def" ++ gap),
    spells_append (p := wordEdge ++ lit "def"), hword, hident, spells_gap, spells_blanks, spells_lit]
  constructor
  · rintro ⟨_, _, rfl, ⟨_, gap, rfl, ⟨_, name, rfl, ⟨_, space, rfl, ⟨hbefore, rfl⟩, hne, hspace⟩, hname⟩, hgap⟩, rfl⟩
    exact ⟨hbefore, _, rfl, space, name, gap, hne, hspace, hname, hgap, by simp⟩
  · rintro ⟨hbefore, start, rfl, space, name, gap, hne, hspace, hname, hgap, rfl⟩
    exact ⟨_, _, rfl, ⟨_, gap, by simp, ⟨_, name, rfl, ⟨_, space, rfl, ⟨hbefore, rfl⟩, hne, hspace⟩, hname⟩, hgap⟩, rfl⟩

private theorem spells_functionParams_bound : functionParams.bound.Spells before bound rest ↔
    (∀ x ∈ bound, x ≠ ')') ∧ ∃ others, rest = ')' :: others := by
  change (upTo (outside [')'])).Spells before bound rest ↔ _
  simp

private theorem not_mem_functionParams_lead
    (h : functionParams.lead.Spells before (lead ++ ['(']) rest) : '(' ∉ lead := by
  obtain ⟨-, start, hstart, space, name, gap, -, hspace, hname, hgap, rfl⟩ := spells_functionParams_lead.mp h
  obtain rfl := List.append_cancel_right hstart
  simp only [List.mem_append, not_or]
  refine ⟨by decide, fun hmem => ?_, fun hmem => ?_, fun hmem => ?_⟩
  · cases hspace _ hmem
  · cases regular.isTail_of_mem hname _ hmem
  · cases hgap _ hmem

/-- Everything between the brackets is found as the parameters of a function. -/
theorem countFrom_functionParams (hf : identifier.accepts f = true) (htext : ∀ x ∈ text, x ≠ ')')
    (hafter : '(' ∉ after) :
    functionParams.countFrom identifier [] ("def ".toList ++ (f ++ '(' :: (text ++ ')' :: after))) =
      Binding.names.count identifier text := by
  have hspells : functionParams.Spells [] (("def ".toList ++ f) ++ ['(']) text [')'] after :=
    ⟨spells_functionParams_lead.mpr ⟨rfl, _, rfl, [' '], f, [], by simp, by decide, hf, List.forall_mem_nil _, by simp⟩,
      spells_functionParams_bound.mpr ⟨htext, after, rfl⟩, spells_lit.mpr rfl⟩
  have hsplit : "def ".toList ++ (f ++ '(' :: (text ++ ')' :: after)) =
      (("def ".toList ++ f) ++ ['(']) ++ (text ++ ([')'] ++ after)) := by
    simp
  rw [hsplit, Family.countFrom_of_spells identifier (by simp) hspells ?_,
    Family.countFrom_of_not_mem (show functionParams.requires '(' = true by decide) hafter]
  · rfl
  intro lead' bound' tail' after' h hother
  obtain ⟨-, start, rfl, -⟩ := spells_functionParams_lead.mp hother.takes_lead
  obtain ⟨hbound, -⟩ := spells_functionParams_bound.mp hother.takes_bound
  obtain rfl : tail' = [')'] := spells_lit.mp hother.takes_tail
  have hsame : start ++ '(' :: (bound' ++ ')' :: after') = ("def ".toList ++ f) ++ '(' :: (text ++ ')' :: after) := by
    simpa using h
  obtain ⟨rfl, htexts⟩ := first_mark_unique (not_mem_functionParams_lead hother.takes_lead)
    (not_mem_functionParams_lead hspells.takes_lead) hsame
  have hclose {text : List Char} (h : ∀ x ∈ text, x ≠ ')') : ')' ∉ text := fun hmem => h _ hmem rfl
  obtain ⟨rfl, -⟩ := first_mark_unique (hclose hbound) (hclose htext) htexts
  exact ⟨rfl, rfl, rfl⟩

end Functions

/-- The families that count in the head of a block. -/
theorem count_header (hmarks : ∀ mark ∈ ['=', '.'], mark ∉ line)
    (hwords : ∀ word ∈ ["with".toList, "lambda".toList], word ∉ wholeWords line)
    (hfirst : ∃ first others, line = first :: others ∧ isBlank first = false) (hlast : ∃ start, line = start ++ [':']) :
    indented.count line = forBinder.countFrom identifier [] line +
      (functionParams.countFrom identifier [] line + typeAnnotation.countFrom identifier [] line) := by
  obtain ⟨start, hend⟩ := hlast
  have htrim : Text.trim line = line := Text.trim_between hfirst ⟨start, ':', hend, by decide⟩
  have hcolon : ':' ∈ line := by
    simp [hend]
  rw [indented.count_eq_total ['=', '.'] htrim hcolon (by decide) hmarks]
  change chainedAssignment.countFrom identifier [] line + (forBinder.countFrom identifier [] line +
    (withBinder.countFrom identifier [] line + (functionParams.countFrom identifier [] line +
      (lambdaParams.countFrom identifier [] line + (Family.countFrom typeAnnotation identifier [] line + 0))))) = _
  rw [countFrom_chainedAssignment_eq_zero (hmarks '=' (by decide)),
    countFrom_eq_zero_of_words withBinder_begins (by decide) (hwords _ (by decide)),
    countFrom_eq_zero_of_words lambdaParams_begins (by decide) (hwords _ (by decide))]
  omega

end LineCensus.Declaration.Indented
