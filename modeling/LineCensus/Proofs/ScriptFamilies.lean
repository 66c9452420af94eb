import LineCensus.Declaration.Script
import LineCensus.Proofs.WholeWords

/-! The families of the brace languages without static types, one by one: where in a line a family finds
what it looks for, and which lines hold nothing for it. -/
namespace LineCensus.Declaration.Script

open Pattern Text

variable {word f text front back before rest lead bound tail after : List Char} {names : List (List Char)}

def keywords : List (List Char) :=
  ["let", "const", "var"].map String.toList

theorem regular : identifier.Regular where
  tail_of_head {c} h := by
    simp only [identifier, Bool.or_eq_true] at h ⊢
    rcases h with (h | h) | h
    · exact .inl (.inl (.inl h))
    · exact .inl (.inr h)
    · exact .inr h
  not_blank {c} h := by
    simp only [identifier, Bool.or_eq_true, beq_iff_eq] at h
    rcases h with (h | rfl) | rfl
    · exact not_blank_of_toNat (toNat_of_alphanumeric h).1 (toNat_of_alphanumeric h).2
    · decide
    · decide
  comma := by decide

theorem accepts_of_mem_keywords (h : word ∈ keywords) : identifier.accepts word = true := by
  revert h word
  decide

private theorem spells_keyword : keyword.Spells before word after ↔ word ∈ keywords :=
  spells_anyWord

theorem spells_edge_keyword : (wordEdge ++ keyword).Spells before word after ↔
    wordNext before = false ∧ word ∈ keywords := by
  have hwords : ∀ word ∈ keywords, word ≠ [] ∧ ∀ x ∈ word, isWordChar x = true := by decide
  rw [spells_wordEdge_append fun _ word _ h => ?_, spells_keyword]
  obtain ⟨hne, hword⟩ := hwords word (spells_keyword.mp h)
  exact wordNext_append_of_word hne hword _

def Closes (tail after : List Char) : Prop :=
  tail = [] ∧ after = [] ∨
    ∃ space mark, (∀ x ∈ space, isBlank x = true) ∧ mark ∈ ['=', ';', ':'] ∧ tail = space ++ [mark]

section Declarator

variable {c : Char}

private theorem closing_mark {mark : Char} (h : mark ∈ ['=', ';', ':']) :
    identifier.isTail mark = false ∧ isBlank mark = false ∧ mark ≠ ',' := by
  revert h mark
  decide

private theorem Closes.ends (h : Closes tail after) : identifier.Ends (tail ++ after) := by
  rcases h with ⟨rfl, rfl⟩ | ⟨space, mark, hspace, hmark, rfl⟩
  · exact regular.ends (List.forall_mem_nil _) (by simp) (by simp)
  · rw [List.append_assoc]
    exact regular.ends_mark hspace (closing_mark hmark)

private theorem spells_declarator_lead : declarator.lead.Spells before lead rest ↔ wordNext before = false ∧
    ∃ word ∈ keywords, ∃ space, space ≠ [] ∧ (∀ x ∈ space, isBlank x = true) ∧ lead = word ++ space := by
  change (wordEdge ++ keyword ++ gap).Spells before lead rest ↔ _
  rw [spells_append]
  simp only [spells_edge_keyword, spells_gap]
  constructor
  · rintro ⟨word, space, rfl, ⟨hbefore, hword⟩, hne, hspace⟩
    exact ⟨hbefore, word, hword, space, hne, hspace, rfl⟩
  · rintro ⟨hbefore, word, hword, space, hne, hspace, rfl⟩
    exact ⟨word, space, rfl, ⟨hbefore, hword⟩, hne, hspace⟩

private theorem spells_declarator_bound : declarator.bound.Spells before bound rest ↔
    ∃ names, names ≠ [] ∧ identifier.Names names bound :=
  spells_identifiers

private theorem spells_declarator_tail : declarator.tail.Spells before tail rest ↔
    ∃ space stop, tail = space ++ stop ∧ (∀ x ∈ space, isBlank x = true) ∧
      ((∃ mark ∈ ['=', ';', ':'], stop = [mark]) ∨ stop = [] ∧ (rest = [] ∨ rest = ['\n'])) := by
  change (blanks ++ (one (among ['=', ';', ':']) <|> atEnd)).Spells before tail rest ↔ _
  simp only [spells_append, spells_blanks, spells_orElse, spells_one, spells_atEnd, among_eq_true_iff]

private theorem ends_of_declarator_tail (h : declarator.tail.Spells before tail after) :
    identifier.Ends (tail ++ after) := by
  obtain ⟨space, stop, rfl, hspace, hstop⟩ := spells_declarator_tail.mp h
  rw [List.append_assoc]
  rcases hstop with ⟨mark, hmark, rfl⟩ | ⟨rfl, rfl | rfl⟩
  · exact regular.ends_mark hspace (closing_mark hmark)
  · exact regular.ends hspace (by simp) (by simp)
  · have hall : ∀ x ∈ space ++ ['\n'], isBlank x = true := by
      rw [List.forall_mem_append]
      exact ⟨hspace, by decide⟩
    have hends : identifier.Ends (space ++ ['\n'] ++ []) := regular.ends hall (by simp) (by simp)
    simpa using hends

/-- A mark that closes a list stands at one place only. -/
theorem Closes.unique {tail' after' : List Char} (h : Closes tail after)
    (htail : declarator.tail.Spells before tail' after') (heq : tail' ++ after' = tail ++ after) : tail' = tail := by
  obtain ⟨space', stop, rfl, hspace', hstop⟩ := spells_declarator_tail.mp htail
  rcases h with ⟨rfl, rfl⟩ | ⟨space, mark, hspace, hmark, rfl⟩
  · exact (List.append_eq_nil_iff.mp heq).1
  · have hblank := (closing_mark hmark).2.1
    rw [List.append_assoc, List.append_assoc] at heq
    rcases hstop with ⟨mark', hmark', rfl⟩ | ⟨rfl, hafter⟩
    · obtain ⟨rfl, rfl, -⟩ :=
        stretch_cons_unique hspace' hspace (closing_mark hmark').2.1 hblank heq
      rfl
    · have hmem : mark ∈ space' ++ ([] ++ after') := heq ▸ by simp
      have hmark' : isBlank mark = true := by
        rcases hafter with rfl | rfl <;> grind
      rw [hmark'] at hblank
      cases hblank

/-- A declaration is found as a whole, with all names of its list. -/
theorem countFrom_declarator (hword : word ∈ keywords) (hnames : identifier.Names names text) (hne : names ≠ [])
    (hcloses : Closes tail after) : declarator.countFrom identifier [] (word ++ ' ' :: (text ++ (tail ++ after))) =
      names.length + declarator.countFrom identifier ((word ++ ' ' :: (text ++ tail)).reverse) after := by
  have hspells : declarator.Spells [] (word ++ [' ']) text tail after := by
    refine ⟨spells_declarator_lead.mpr ⟨rfl, word, hword, [' '], by simp, by decide, rfl⟩,
      spells_declarator_bound.mpr ⟨names, hne, hnames⟩, spells_declarator_tail.mpr ?_⟩
    rcases hcloses with ⟨rfl, rfl⟩ | ⟨space, mark, hspace, hmark, rfl⟩
    · exact ⟨[], [], rfl, List.forall_mem_nil _, .inr ⟨rfl, .inl rfl⟩⟩
    · exact ⟨space, [mark], rfl, hspace, .inl ⟨mark, hmark, rfl⟩⟩
  have hcount : declarator.binding.count identifier text = names.length := hnames.count_eq regular (by decide)
  have hspace : ∀ x ∈ [' '], isBlank x = true := by decide
  have hfound := Family.countFrom_of_spells identifier (by simp) hspells ?_
  · simpa [hcount] using hfound
  intro lead' bound' tail' after' h hother
  obtain ⟨-, word', hword', space, hne', hblank, rfl⟩ := spells_declarator_lead.mp hother.takes_lead
  obtain ⟨others, hothers, hbound⟩ := spells_declarator_bound.mp hother.takes_bound
  rw [List.append_assoc, List.append_assoc] at h
  obtain ⟨rfl, hspaces⟩ := stretch_unique (regular.isTail_of_mem (accepts_of_mem_keywords hword'))
    (regular.isTail_of_mem (accepts_of_mem_keywords hword)) (regular.not_isTail_head?_of_ne_nil hblank hne' _)
    (regular.not_isTail_head?_of_ne_nil hspace (by simp) _) h
  obtain ⟨rfl, hlists⟩ := stretch_unique hblank hspace (hbound.not_blank_head? regular hothers _)
    (hnames.not_blank_head? regular hne _) hspaces
  obtain ⟨rfl, htails⟩ := hbound.unique regular hnames hothers hne
    (ends_of_declarator_tail hother.takes_tail) hcloses.ends hlists
  exact ⟨rfl, rfl, hcloses.unique hother.takes_tail htails⟩

end Declarator

section Binders

/-- Somewhere in a text a keyword, blank characters and the first character of a name stand one after the
other. -/
def HasBinder (text : List Char) : Prop :=
  ∃ word ∈ keywords, ∃ space, space ≠ [] ∧ (∀ x ∈ space, isBlank x = true) ∧
    ∃ c, identifier.isHead c = true ∧ word ++ (space ++ [c]) <:+: text

/-- No binder reaches over a mark. -/
theorem HasBinder.cut {mark : Char} (htail : identifier.isTail mark = false) (hblank : isBlank mark = false)
    (h : HasBinder (front ++ mark :: back)) : HasBinder front ∨ HasBinder back := by
  obtain ⟨word, hword, space, hne, hspace, c, hc, hcore⟩ := h
  have hmark : mark ∉ word ++ (space ++ [c]) := by
    simp only [List.mem_append, List.mem_singleton, not_or]
    refine ⟨fun hmem => ?_, fun hmem => ?_, ?_⟩
    · rw [regular.isTail_of_mem (accepts_of_mem_keywords hword) mark hmem] at htail
      cases htail
    · rw [hspace mark hmem] at hblank
      cases hblank
    · rintro rfl
      rw [regular.tail_of_head hc] at htail
      cases htail
  rcases infix_append_cons hmark hcore with hleft | hright
  · exact .inl ⟨word, hword, space, hne, hspace, c, hc, hleft⟩
  · exact .inr ⟨word, hword, space, hne, hspace, c, hc, hright⟩

theorem HasBinder.of_blanks_append (hfront : ∀ x ∈ front, isBlank x = true) (h : HasBinder (front ++ text)) :
    HasBinder text := by
  obtain ⟨word, hword, space, hne, hspace, c, hc, hcore⟩ := h
  obtain ⟨first, others, rfl, hfirst, -⟩ := Identifier.exists_cons_of_accepts (accepts_of_mem_keywords hword)
  have hnot : first ∉ front := fun hmem => by
    simpa [hfront first hmem] using regular.not_blank (regular.tail_of_head hfirst)
  exact ⟨_, hword, space, hne, hspace, c, hc, infix_of_infix_append hnot hcore⟩

theorem HasBinder.of_append_blanks (hback : ∀ x ∈ back, isBlank x = true) (h : HasBinder (text ++ back)) :
    HasBinder text := by
  obtain ⟨word, hword, space, hne, hspace, c, hc, hcore⟩ := h
  have hnot : c ∉ back := fun hmem => by
    simpa [hback c hmem] using regular.not_blank (regular.tail_of_head hc)
  refine ⟨word, hword, space, hne, hspace, c, hc, ?_⟩
  rw [← List.append_assoc] at hcore ⊢
  exact infix_of_append_infix hnot hcore

theorem not_hasBinder_of_solid (h : ∀ x ∈ text, isBlank x = false) : ¬HasBinder text := by
  rintro ⟨word, -, space, hne, hspace, c, -, hcore⟩
  obtain ⟨x, others, rfl⟩ := List.exists_cons_of_ne_nil hne
  have hx := h x (hcore.subset (by simp))
  rw [hspace x (List.mem_cons_self ..)] at hx
  cases hx

theorem not_hasBinder_of_not_head (h : ∀ x ∈ text, identifier.isHead x = false) : ¬HasBinder text := by
  rintro ⟨word, -, space, -, -, c, hc, hcore⟩
  rw [h c (hcore.subset (by simp))] at hc
  cases hc

theorem not_hasBinder_name (h : identifier.accepts f = true) : ¬HasBinder f :=
  not_hasBinder_of_solid fun x hx => regular.not_blank (regular.isTail_of_mem h x hx)

theorem not_hasBinder_names (h : identifier.Names names text) : ¬HasBinder text := by
  obtain ⟨h, hnames⟩ := h
  induction h with
  | nil => exact not_hasBinder_of_solid (List.forall_mem_nil _)
  | one name => exact not_hasBinder_name (hnames name (List.mem_cons_self ..))
  | more name hfront hback _ ih =>
    obtain ⟨hname, hlater⟩ := List.forall_mem_cons.mp hnames
    rw [← List.append_assoc]
    intro h
    rcases h.cut (by decide) (by decide) with h | h
    · exact not_hasBinder_name hname (h.of_append_blanks hfront)
    · exact ih hlater (h.of_blanks_append hback)

private theorem hasBinder_of_spells (hword : word ∈ keywords) {space : List Char} (hne : space ≠ [])
    (hspace : ∀ x ∈ space, isBlank x = true) (hnames : identifier.Names names text) (hne' : names ≠ []) :
    HasBinder (front ++ (word ++ (space ++ (text ++ rest)))) := by
  obtain ⟨c, others, rfl, hc⟩ := hnames.exists_cons hne'
  exact ⟨word, hword, space, hne, hspace, c, hc, front, others ++ rest, by simp⟩

theorem countFrom_declarator_eq_zero (h : ¬HasBinder rest) : declarator.countFrom identifier before rest = 0 := by
  refine Family.countFrom_eq_zero fun passed lead bound tail after hrest hspells => h ?_
  obtain ⟨-, word, hword, space, hne, hspace, rfl⟩ := spells_declarator_lead.mp hspells.takes_lead
  obtain ⟨names, hnames, hbound⟩ := spells_declarator_bound.mp hspells.takes_bound
  rw [hrest, List.append_assoc word]
  exact hasBinder_of_spells hword hne hspace hbound hnames

end Binders

section Parentheses

variable {left right : List Char}

private theorem exists_append_of_spells_lit {p : Pattern} {token : String}
    (h : (p ++ lit token).Spells before lead rest) : ∃ start, lead = start ++ token.toList ∧
      p.Spells before start (token.toList ++ rest) := by
  obtain ⟨start, last, rfl, hstart, hlast⟩ := spells_append.mp h
  rw [spells_lit] at hlast
  subst hlast
  exact ⟨start, rfl, hstart⟩

/-- A loop declares nothing if no keyword stands before a name behind its only parenthesis. -/
theorem countFrom_forBinder_eq_zero (hleft : '(' ∉ left) (hright : '(' ∉ right) (h : ¬HasBinder right) :
    forBinder.countFrom identifier before (left ++ '(' :: right) = 0 := by
  refine Family.countFrom_eq_zero fun passed lead bound tail after hrest hspells => h ?_
  have hlead : (wordEdge ++ lit "for" ++ blanks ++ lit "(" ++ blanks ++ keyword ++ gap).Spells _ lead _ :=
    hspells.takes_lead
  obtain ⟨name, space, rfl, hword, hspace⟩ := spells_append.mp hlead
  obtain ⟨start, word, rfl, hstart, hword⟩ := spells_append.mp hword
  obtain ⟨start, inner, rfl, hstart, -⟩ := spells_append.mp hstart
  obtain ⟨start, rfl, -⟩ := exists_append_of_spells_lit hstart
  have hbound : identifier.accepts bound = true := Identifier.spells_pattern.mp hspells.takes_bound
  have hsplit : left ++ '(' :: right =
      (passed ++ start) ++ '(' :: (inner ++ (word ++ (space ++ (bound ++ (tail ++ after))))) := by
    rw [hrest]
    simp
  obtain ⟨-, -, rfl⟩ := (List.append_cons_inj_of_notMem hleft hright).mp hsplit
  exact hasBinder_of_spells (spells_keyword.mp hword) (spells_gap.mp hspace).1 (spells_gap.mp hspace).2
    (.single hbound) (List.cons_ne_nil bound [])

private theorem functionParams_lead : functionParams.lead = wordEdge ++ lit "function" ++ wordEdge ++ blanks ++
    opt (lit "*") ++ blanks ++ opt ident ++ blanks ++ lit "(" :=
  rfl

private theorem spells_functionParams_bound : functionParams.bound.Spells before bound rest ↔
    (∀ x ∈ bound, x ≠ ')') ∧ ∃ others, rest = ')' :: others := by
  change (upTo (outside [')'])).Spells before bound rest ↔ _
  simp

private theorem spells_functionParams_tail : functionParams.tail.Spells before tail rest ↔ tail = [')'] :=
  spells_lit

private theorem spells_functionParams_lead (hf : identifier.accepts f = true) (rest : List Char) :
    functionParams.lead.Spells [] ("function".toList ++ ' ' :: (f ++ ['('])) rest := by
  have hstart : wordEdge.Spells [] [] ("function".toList ++ ' ' :: (f ++ '(' :: rest)) :=
    spells_wordEdge.mpr ⟨rfl, show false ≠ isWordChar 'f' by decide⟩
  have hend : wordEdge.Spells ("function".toList.reverse ++ []) [] (' ' :: (f ++ '(' :: rest)) :=
    spells_wordEdge.mpr ⟨rfl, show isWordChar 'n' ≠ isWordChar ' ' by decide⟩
  have hword : (wordEdge ++ lit "function" ++ wordEdge).Spells [] "function".toList (' ' :: (f ++ '(' :: rest)) :=
    (hstart.append (spells_lit.mpr rfl)).skip hend
  have hspace : (wordEdge ++ lit "function" ++ wordEdge ++ blanks).Spells [] ("function".toList ++ [' '])
      (f ++ '(' :: rest) :=
    hword.append (spells_blanks.mpr (by decide))
  have hname : (wordEdge ++ lit "function" ++ wordEdge ++ blanks ++ opt (lit "*") ++ blanks ++ opt ident).Spells []
      ("function".toList ++ [' '] ++ f) ('(' :: rest) :=
    ((hspace.skip (spells_opt.mpr (.inr rfl))).skip (spells_blanks.mpr (List.forall_mem_nil _))).append
      (spells_opt.mpr (.inl (Identifier.spells_pattern.mpr hf)))
  have hparen : (lit "(").Spells (("function".toList ++ [' '] ++ f).reverse ++ []) "(".toList rest :=
    spells_lit.mpr rfl
  have htext : "function".toList ++ ' ' :: (f ++ ['(']) = "function".toList ++ [' '] ++ f ++ "(".toList := by
    simp
  rw [functionParams_lead, htext]
  exact (hname.skip (spells_blanks.mpr (List.forall_mem_nil _))).append hparen

/-- The head of a function is found as a whole, with all its parameters. -/
theorem countFrom_functionParams (hf : identifier.accepts f = true) (hnames : identifier.Names names text)
    (hafter : '(' ∉ after) : functionParams.countFrom identifier []
      ("function".toList ++ ' ' :: (f ++ '(' :: (text ++ ')' :: after))) = names.length := by
  have hf' : identifier.Names [f] f := .single hf
  have hopen : '(' ∉ "function".toList ++ ' ' :: f := by
    rw [List.mem_append, List.mem_cons, not_or, not_or]
    exact ⟨by decide, by decide, hf'.not_mem regular (by decide)⟩
  have hbehind : '(' ∉ text ++ ')' :: after := by
    rw [List.mem_append, List.mem_cons, not_or, not_or]
    exact ⟨hnames.not_mem regular (by decide), by decide, hafter⟩
  have hclose : ∀ x ∈ text, x ≠ ')' := fun x hx h => hnames.not_mem regular (by decide) (h ▸ hx)
  have hspells : functionParams.Spells [] ("function".toList ++ ' ' :: (f ++ ['('])) text [')'] after := by
    exact ⟨spells_functionParams_lead hf _, spells_functionParams_bound.mpr ⟨hclose, after, rfl⟩,
      spells_functionParams_tail.mpr rfl⟩
  have hcount : functionParams.binding.count identifier text = names.length := hnames.count_eq regular (by decide)
  have hrest : functionParams.countFrom identifier
      (("function".toList ++ ' ' :: (f ++ ['(']) ++ (text ++ [')'])).reverse ++ []) after = 0 :=
    Family.countFrom_of_not_mem rfl hafter
  have hfound := Family.countFrom_of_spells identifier (by simp) hspells ?_
  · rw [hcount, hrest] at hfound
    simpa using hfound
  intro lead' bound' tail' after' h hother
  have hlead' := hother.takes_lead
  rw [functionParams_lead] at hlead'
  obtain ⟨start, rfl, -⟩ := exists_append_of_spells_lit hlead'
  obtain ⟨hclose', -⟩ := spells_functionParams_bound.mp hother.takes_bound
  obtain rfl := spells_functionParams_tail.mp hother.takes_tail
  have hsplit : ("function".toList ++ ' ' :: f) ++ '(' :: (text ++ ')' :: after) =
      start ++ '(' :: (bound' ++ ')' :: after') := by
    simpa using h.symm
  obtain ⟨rfl, -, hinner⟩ := (List.append_cons_inj_of_notMem hopen hbehind).mp hsplit
  obtain ⟨rfl, -, -⟩ := stretch_cons_unique (p := (· != ')')) (by simpa using hclose) (by simpa using hclose')
    (by decide) (by decide) hinner
  simp

/-- In front of the parenthesis of a function stands the word, a star or a name, but for blank characters. -/
theorem exists_last_of_functionParams_lead (h : functionParams.lead.Spells before lead rest) :
    ∃ start last space, lead = start ++ last :: space ++ ['('] ∧ (∀ x ∈ space, isBlank x = true) ∧
      isBlank last = false ∧ last ≠ '=' := by
  rw [functionParams_lead] at h
  obtain ⟨_, rfl, hupToThird⟩ := exists_append_of_spells_lit h
  obtain ⟨_, third, rfl, hupToName, hthird⟩ := spells_append.mp hupToThird
  obtain ⟨_, name, rfl, hupToSecond, hname⟩ := spells_append.mp hupToName
  obtain ⟨_, second, rfl, hupToStar, hsecond⟩ := spells_append.mp hupToSecond
  obtain ⟨_, star, rfl, hupToFirst, hstar⟩ := spells_append.mp hupToStar
  obtain ⟨_, first, rfl, hupToEdge, hfirst⟩ := spells_append.mp hupToFirst
  obtain ⟨_, edge, rfl, hupToWord, hedge⟩ := spells_append.mp hupToEdge
  obtain ⟨start, rfl, -⟩ := exists_append_of_spells_lit hupToWord
  obtain ⟨rfl, -⟩ := spells_wordEdge.mp hedge
  rw [spells_blanks] at hfirst hsecond hthird
  rcases spells_opt.mp hname with hname | rfl
  · obtain ⟨name, last, rfl, htail⟩ := regular.exists_concat (Identifier.spells_pattern.mp hname)
    refine ⟨start ++ "function".toList ++ [] ++ first ++ star ++ second ++ name, last, third, by simp, hthird,
      regular.not_blank htail, ?_⟩
    rintro rfl
    revert htail
    decide
  · rcases spells_opt.mp hstar with hstar | rfl
    · obtain rfl := spells_lit.mp hstar
      refine ⟨start ++ "function".toList ++ [] ++ first, '*', second ++ third, by simp, ?_, by decide, by decide⟩
      exact List.forall_mem_append.mpr ⟨hsecond, hthird⟩
    · refine ⟨start ++ "functio".toList, 'n', first ++ (second ++ third), by simp, ?_, by decide, by decide⟩
      exact List.forall_mem_append.mpr ⟨hfirst, List.forall_mem_append.mpr ⟨hsecond, hthird⟩⟩

/-- A parenthesis behind an equals sign is no parameter list of a function. -/
theorem countFrom_functionParams_eq_zero {space : List Char} (hspace : ∀ x ∈ space, isBlank x = true)
    (hleft : '(' ∉ left) (hright : '(' ∉ right) :
    functionParams.countFrom identifier before (left ++ '=' :: (space ++ '(' :: right)) = 0 := by
  refine Family.countFrom_eq_zero fun passed lead bound tail after hrest hspells => ?_
  obtain ⟨start, last, space', rfl, hspace', hblank, hlast⟩ :=
    exists_last_of_functionParams_lead hspells.takes_lead
  have hnot : '(' ∉ left ++ '=' :: space := by
    rw [List.mem_append, List.mem_cons, not_or, not_or]
    exact ⟨hleft, by decide, fun hmem => absurd (hspace '(' hmem) (by decide)⟩
  have hsplit : (left ++ '=' :: space) ++ '(' :: right =
      (passed ++ (start ++ last :: space')) ++ '(' :: (bound ++ (tail ++ after)) := by
    simpa using hrest
  obtain ⟨hends, -, -⟩ := (List.append_cons_inj_of_notMem hnot hright).mp hsplit
  rw [← List.append_assoc] at hends
  exact hlast (stretch_end_unique hspace hspace' (by decide) hblank hends).2.1.symm

private theorem spells_arrowParams_bound : arrowParams.bound.Spells before bound rest ↔
    (∀ x ∈ bound, x ∉ ['(', ')']) ∧ ∃ x others, rest = x :: others ∧ x ∈ ['(', ')'] := by
  change (upTo (outside ['(', ')'])).Spells before bound rest ↔ _
  simp only [spells_upTo, outside_eq_true_iff, outside_eq_false_iff]

private theorem spells_arrowParams_tail : arrowParams.tail.Spells before tail rest ↔
    ∃ space, (∀ x ∈ space, isBlank x = true) ∧ tail = ')' :: (space ++ ['=', '>']) := by
  change (lit ")" ++ blanks ++ lit "=>").Spells before tail rest ↔ _
  simp only [spells_append, spells_lit, spells_blanks]
  constructor
  · rintro ⟨_, _, rfl, ⟨_, space, rfl, rfl, hspace⟩, rfl⟩
    exact ⟨space, hspace, rfl⟩
  · rintro ⟨space, hspace, rfl⟩
    exact ⟨')' :: space, _, rfl, ⟨_, space, rfl, rfl, hspace⟩, rfl⟩

/-- The parameters of an arrow function are found behind the only parenthesis that opens. -/
theorem countFrom_arrowParams (hleft : '(' ∉ left) (hnames : identifier.Names names text) (hafter : '(' ∉ after) :
    arrowParams.countFrom identifier before (left ++ '(' :: (text ++ ')' :: ' ' :: '=' :: '>' :: after)) =
      names.length := by
  have hclose : ∀ x ∈ text, x ∉ ['(', ')'] := by
    intro x hx hparen
    have hnot : ∀ mark ∈ ['(', ')'], mark ∉ text := by
      intro mark hmark
      refine hnames.not_mem regular ?_
      revert hmark mark
      decide
    exact hnot x hparen hx
  rw [Family.countFrom_append]
  · have hspells : arrowParams.Spells (left.reverse ++ before) ['('] text [')', ' ', '=', '>'] after :=
      ⟨spells_lit.mpr rfl, spells_arrowParams_bound.mpr ⟨hclose, ')', _, rfl, by decide⟩,
        spells_arrowParams_tail.mpr ⟨[' '], by decide, rfl⟩⟩
    have hcount : arrowParams.binding.count identifier text = names.length := hnames.count_eq regular (by decide)
    have hfound := Family.countFrom_of_spells identifier (by simp) hspells ?_
    · rw [hcount, Family.countFrom_of_not_mem rfl hafter] at hfound
      simpa using hfound
    intro lead' bound' tail' after' h hother
    obtain rfl := spells_lit.mp hother.takes_lead
    obtain ⟨hclose', -⟩ := spells_arrowParams_bound.mp hother.takes_bound
    obtain ⟨space, hspace, rfl⟩ := spells_arrowParams_tail.mp hother.takes_tail
    have hinner : bound' ++ ')' :: (space ++ '=' :: '>' :: after') =
        text ++ ')' :: ([' '] ++ '=' :: '>' :: after) := by
      simpa using h
    obtain ⟨rfl, -, harrow⟩ := stretch_cons_unique (p := outside ['(', ')'])
      (fun x hx => outside_eq_true_iff.mpr (hclose' x hx)) (fun x hx => outside_eq_true_iff.mpr (hclose x hx))
      (by decide) (by decide) hinner
    obtain ⟨rfl, -, -⟩ := stretch_cons_unique hspace (by decide) (by decide) (by decide) harrow
    simp
  · intro passed left' lead bound tail after' hleft' hne hrest hspells
    obtain rfl := spells_lit.mp hspells.takes_lead
    obtain ⟨c, others, rfl⟩ := List.exists_cons_of_ne_nil hne
    have hc : c = '(' := (List.cons.inj hrest).1
    exact hleft (hleft' ▸ hc ▸ by simp)

/-- An arrow behind a parenthesis has no parameter of its own. -/
theorem countFrom_arrowParam_eq_zero (hleft : '>' ∉ left) (hright : '>' ∉ right) :
    arrowParam.countFrom identifier before (left ++ ')' :: ' ' :: '=' :: '>' :: right) = 0 := by
  refine Family.countFrom_eq_zero fun passed lead bound tail after hrest hspells => ?_
  obtain rfl : lead = [] := spells_empty.mp hspells.takes_lead
  have hbound : identifier.accepts bound = true := Identifier.spells_pattern.mp hspells.takes_bound
  obtain ⟨space, _, rfl, hspace, harrow⟩ : ∃ first second, tail = first ++ second ∧ _ ∧ _ :=
    spells_append.mp hspells.takes_tail
  obtain rfl := spells_lit.mp harrow
  have hnot : '>' ∉ left ++ ')' :: ' ' :: ['='] := by
    simp [hleft]
  have hsplit : (left ++ ')' :: ' ' :: ['=']) ++ '>' :: right =
      (passed ++ (bound ++ (space ++ ['=']))) ++ '>' :: after := by
    simpa using hrest
  obtain ⟨hbefore, -, -⟩ := (List.append_cons_inj_of_notMem hnot hright).mp hsplit
  obtain ⟨name, last, rfl, htail⟩ := regular.exists_concat hbound
  have hends : (left ++ ')' :: [' ']) ++ ['='] = ((passed ++ name) ++ last :: space) ++ ['='] := by
    simpa using hbefore
  obtain ⟨-, rfl, -⟩ := stretch_end_unique (p := isBlank) (by decide) (spells_blanks.mp hspace) (by decide)
    (regular.not_blank htail) (List.append_cancel_right hends)
  revert htail
  decide

end Parentheses

section Fields

def modifiers : List (List Char) :=
  ["public", "private", "protected", "static", "readonly"].map String.toList

private theorem spells_modifier {modifier : Pattern}
    (hmodifier : modifier = anyWord ["public", "private", "protected", "static", "readonly"] ++ gap) :
    modifier.Spells before text rest ↔ ∃ word ∈ modifiers, ∃ space, space ≠ [] ∧
      (∀ x ∈ space, isBlank x = true) ∧ text = word ++ space := by
  rw [hmodifier, spells_append]
  simp only [spells_anyWord, spells_gap]
  constructor
  · rintro ⟨word, space, rfl, hword, hne, hspace⟩
    exact ⟨word, hword, space, hne, hspace, rfl⟩
  · rintro ⟨word, hword, space, hne, hspace, rfl⟩
    exact ⟨word, space, rfl, hword, hne, hspace⟩

private theorem spells_classField_lead (h : classField.lead.Spells before lead rest) : before = [] ∧
    (lead = [] ∨ ∃ word ∈ modifiers, ∃ space more, space ≠ [] ∧ (∀ x ∈ space, isBlank x = true) ∧
      lead = word ++ (space ++ more)) := by
  obtain ⟨_, stop, rfl, hlead, hstop⟩ : ∃ first second, lead = first ++ second ∧ _ ∧ _ := spells_append.mp h
  obtain ⟨start, words, rfl, hstart, hwords⟩ := spells_append.mp hlead
  obtain ⟨rfl, rfl⟩ := spells_atStart.mp hstart
  obtain ⟨rfl, -⟩ := spells_notAhead.mp hstop
  refine ⟨rfl, ?_⟩
  rw [spells_star] at hwords
  · cases hwords with
    | nil => exact .inl rfl
    | @cons _ first more hfirst _ =>
      obtain ⟨word, hword, space, hne, hspace, rfl⟩ := (spells_modifier rfl).mp hfirst
      exact .inr ⟨word, hword, space, more, hne, hspace, by simp⟩
  · intro before after hnil
    obtain ⟨word, -, space, hne, -, h⟩ := (spells_modifier rfl).mp hnil
    exact hne (List.append_eq_nil_iff.mp h.symm).2

private theorem spells_classField_bound (h : classField.bound.Spells before bound rest) :
    ∃ name, identifier.accepts name = true ∧ (bound = name ∨ bound = '#' :: name) := by
  obtain ⟨sign, name, rfl, hsign, hname⟩ : ∃ first second, bound = first ++ second ∧ _ ∧ _ := spells_append.mp h
  refine ⟨name, Identifier.spells_pattern.mp hname, ?_⟩
  rcases spells_opt.mp hsign with hsign | rfl
  · obtain rfl := spells_lit.mp hsign
    exact .inr rfl
  · exact .inl rfl

private theorem spells_classField_tail (h : classField.tail.Spells before tail rest) :
    ∃ space mark, (∀ x ∈ space, isBlank x = true) ∧ mark ∈ [':', '='] ∧ tail = space ++ [mark] := by
  obtain ⟨_, stop, rfl, htail, hstop⟩ : ∃ first second, tail = first ++ second ∧ _ ∧ _ := spells_append.mp h
  obtain ⟨space, _, rfl, hspace, hone⟩ := spells_append.mp htail
  obtain ⟨mark, hmark, rfl⟩ := spells_one.mp hone
  obtain ⟨rfl, -⟩ := spells_notAhead.mp hstop
  exact ⟨space, mark, spells_blanks.mp hspace, among_eq_true_iff.mp hmark, List.append_nil _⟩

private theorem accepts_of_mem_modifiers (h : word ∈ modifiers) : identifier.accepts word = true := by
  revert h word
  decide

/-- A word with something else than a field's mark behind it begins no field. -/
theorem countFrom_classField_word {next : Char} (hword : identifier.accepts word = true) (hmodifier : word ∉ modifiers)
    (hblank : isBlank next = false) (hnext : next ∉ [':', '=']) :
    classField.countFrom identifier [] (word ++ ' ' :: next :: rest) = 0 := by
  refine Family.countFrom_eq_zero fun passed lead bound tail after hrest hspells => ?_
  obtain ⟨hbefore, hlead⟩ := spells_classField_lead hspells.takes_lead
  obtain ⟨name, hname, hbound⟩ := spells_classField_bound hspells.takes_bound
  obtain ⟨space, mark, hspace, hmark, rfl⟩ := spells_classField_tail hspells.takes_tail
  obtain rfl : passed = [] := by simpa using hbefore
  have hgap : ∀ x ∈ [' '], isBlank x = true := by decide
  have htail := regular.isTail_of_mem hword
  have hbehind := regular.not_isTail_head?_of_ne_nil hgap (by simp) (next :: rest)
  have hmarks : ∀ mark ∈ [':', '='], isBlank mark = false ∧ identifier.isTail mark = false := by decide
  have hmark' := hmarks mark hmark
  rcases hlead with rfl | ⟨other, hother, gap, more, hne, hgaps, rfl⟩
  · rcases hbound with rfl | rfl
    · have hends : ∀ x ∈ (space ++ mark :: after).head?, identifier.isTail x = false := by
        refine regular.not_isTail_head? hspace ?_
        rintro x ⟨⟩
        exact hmark'.2
      obtain ⟨rfl, hspaces⟩ := stretch_unique htail (regular.isTail_of_mem hname) hbehind hends (by simpa using hrest)
      obtain ⟨-, rfl, -⟩ := stretch_cons_unique hgap hspace hblank hmark'.1 hspaces
      exact hnext hmark
    · obtain ⟨c, others, rfl, hc, -⟩ := Identifier.exists_cons_of_accepts hword
      obtain ⟨rfl, -⟩ := List.cons.inj hrest
      revert hc
      decide
  · obtain ⟨rfl, -⟩ := stretch_unique htail (regular.isTail_of_mem (accepts_of_mem_modifiers hother)) hbehind
      (regular.not_isTail_head?_of_ne_nil hgaps hne _) (by simpa using hrest)
    exact hmodifier hother

/-- A mark at the start of a line begins no field. -/
theorem countFrom_classField_mark {mark : Char} (htail : identifier.isTail mark = false) (hmark : mark ≠ '#') :
    classField.countFrom identifier [] (mark :: rest) = 0 := by
  refine Family.countFrom_eq_zero fun passed lead bound tail after hrest hspells => ?_
  obtain ⟨hbefore, hlead⟩ := spells_classField_lead hspells.takes_lead
  obtain ⟨name, hname, hbound⟩ := spells_classField_bound hspells.takes_bound
  obtain rfl : passed = [] := by simpa using hbefore
  have hnot {word others : List Char} (hword : identifier.accepts word = true) : mark :: rest ≠ word ++ others := by
    intro h
    obtain ⟨c, letters, rfl, hc, -⟩ := Identifier.exists_cons_of_accepts hword
    rw [(List.cons.inj h).1, regular.tail_of_head hc] at htail
    cases htail
  rcases hlead with rfl | ⟨other, hother, gap, more, -, -, rfl⟩
  · rcases hbound with rfl | rfl
    · exact hnot hname hrest
    · exact hmark (List.cons.inj hrest).1
  · exact hnot (accepts_of_mem_modifiers hother) (by simpa using hrest)

end Fields

end LineCensus.Declaration.Script
