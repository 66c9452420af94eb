import LineCensus.Proofs.TypedDeclarations

/-! The families that look for parameters between parentheses: what they find in the head of a method or of a
constructor, and why the variables of a loop are not found there. -/
namespace LineCensus.Declaration.Typed

open Pattern hiding requires mem_of_requires
open Text (Listed isBlank isWordChar stretch_cons_unique wholeWords)

variable {family : Family} {before lead bound tail after rest text front left right word type f : List Char}
  {mods : List (List Char)}

section Parentheses

/-- The parameters between the only parentheses are found together, by a family that ends where they begin. -/
theorem countFrom_parenthesised
    (hlead : ∀ {before text after}, family.lead.Spells before text after → ∃ start, text = start ++ ['('])
    (hbound : family.bound = parameters) (htail : family.tail = lit ")")
    (h : family.lead.Spells before (front ++ ['(']) (text ++ ')' :: rest)) (hfront : '(' ∉ front)
    (htext : ∀ x ∈ text, x ∉ ['(', ')']) (hrest : '(' ∉ rest) (hrequires : family.requires '(' = true) :
    family.countFrom identifier before (front ++ '(' :: (text ++ ')' :: rest)) =
      family.binding.count identifier text := by
  have hspells_bound {before bound after : List Char} : family.bound.Spells before bound after ↔
      (∀ x ∈ bound, x ≠ ')') ∧ ∃ rest, after = ')' :: rest := by
    rw [hbound]
    change (upTo (outside [')'])).Spells before bound after ↔ _
    simp only [spells_upTo, outside_eq_true_iff, outside_eq_false_iff, List.mem_singleton]
    refine and_congr_right fun _ => ?_
    constructor
    · rintro ⟨_, rest, rfl, rfl⟩
      exact ⟨rest, rfl⟩
    · rintro ⟨rest, rfl⟩
      exact ⟨_, rest, rfl, rfl⟩
  have hclose : ∀ x ∈ text, x ≠ ')' := by
    rintro x hx rfl
    exact htext _ hx (by decide)
  have hspells : family.Spells before (front ++ ['(']) text [')'] rest :=
    ⟨h, hspells_bound.mpr ⟨hclose, rest, rfl⟩, by rw [htail]; exact spells_lit.mpr rfl⟩
  have hsplit : front ++ '(' :: (text ++ ')' :: rest) = (front ++ ['(']) ++ (text ++ ([')'] ++ rest)) := by
    simp
  have hbehind : '(' ∉ text ++ ')' :: rest := by
    rw [List.mem_append, List.mem_cons, not_or, not_or]
    exact ⟨fun hmem => htext _ hmem (by decide), by decide, hrest⟩
  rw [hsplit, Family.countFrom_of_spells identifier (by simp) hspells ?_, Family.countFrom_of_not_mem hrequires hrest,
    Nat.add_zero]
  intro lead' bound' tail' after' heq hother
  obtain ⟨start, rfl⟩ := hlead hother.takes_lead
  obtain ⟨hbound', -⟩ := hspells_bound.mp hother.takes_bound
  have htail' := hother.takes_tail
  rw [htail, spells_lit] at htail'
  obtain rfl : tail' = [')'] := htail'
  have hparens : front ++ '(' :: (text ++ ')' :: rest) = start ++ '(' :: (bound' ++ ')' :: after') := by
    simpa using heq.symm
  obtain ⟨rfl, -, hinner⟩ := (List.append_cons_inj_of_notMem hfront hbehind).mp hparens
  obtain ⟨rfl, -⟩ := Text.first_mark_unique (fun hmem => hclose _ hmem rfl) (fun hmem => hbound' _ hmem rfl) hinner
  exact ⟨rfl, rfl, rfl⟩

end Parentheses

section Types

def IsType (word : List Char) : Prop :=
  word ∈ primitives ∨ startsCapital word = true ∧ identifier.accepts word = true

def IsResult (word : List Char) : Prop :=
  IsType word ∨ word = "void".toList

private theorem IsResult.accepts (h : IsResult word) : identifier.accepts word = true := by
  rcases h with (h | h) | rfl
  · exact (isName_of_mem_primitives h).1.accepts
  · exact h.2
  · decide

private theorem IsResult.wordNext (h : IsResult word) (rest : List Char) : wordNext (word ++ rest) = true := by
  rcases h with (h | h) | rfl
  · exact (isName_of_mem_primitives h).1.wordNext rest
  · exact wordNext_of_startsCapital h.1 rest
  · rfl

private theorem spells_anyType : anyType.Spells before text rest ↔ wordNext before = false ∧ ∃ word arguments arrays,
    text = word ++ (arguments ++ arrays) ∧ IsType word ∧ (arguments = [] ∨ InAngles arguments) ∧ InSquares arrays := by
  have hwords {before word after : List Char} :
      (primitiveType <|> knownType <|> capitalized).Spells before word after ↔ IsType word := by
    rw [spells_orElse, spells_orElse, spells_capitalized]
    refine or_congr spells_anyWord ⟨fun h => ?_, .inr⟩
    rcases h with h | h
    · obtain ⟨hname, hcapital⟩ := isName_of_mem_catalogue (spells_anyWord.mp h)
      exact ⟨hcapital, hname.accepts⟩
    · exact h
  have hword {before word after : List Char} :
      (wordEdge ++ (primitiveType <|> knownType <|> capitalized)).Spells before word after ↔
        wordNext before = false ∧ IsType word := by
    rw [spells_wordEdge_append fun _ _ _ h => IsResult.wordNext (.inl (hwords.mp h)) _, hwords]
  change (wordEdge ++ (primitiveType <|> knownType <|> capitalized) ++ typeArguments ++ arrayMarks).Spells
    before text rest ↔ _
  simp only [spells_append (p := _ ++ typeArguments), spells_append (q := typeArguments), hword, spells_typeArguments,
    spells_arrayMarks]
  constructor
  · rintro ⟨_, arrays, rfl, ⟨word, arguments, rfl, ⟨hbefore, hword⟩, harguments⟩, harrays⟩
    exact ⟨hbefore, word, arguments, arrays, List.append_assoc .., hword, harguments, harrays⟩
  · rintro ⟨hbefore, word, arguments, arrays, rfl, hword, harguments, harrays⟩
    exact ⟨_, arrays, (List.append_assoc ..).symm, ⟨word, arguments, rfl, ⟨hbefore, hword⟩, harguments⟩, harrays⟩

end Types

section Methods

def statements : List (List Char) :=
  ["new", "return", "else", "throw", "case"].map String.toList

private theorem exists_of_methodParams_lead (h : methodParams.lead.Spells before text rest) : wordNext before = false ∧
    ∃ word joint name more, text = word ++ (joint ++ (name ++ more)) ∧ IsResult word ∧ identifier.accepts name = true ∧
      ∃ before, Kind.other.joint.Spells before joint (name ++ (more ++ rest)) := by
  obtain ⟨_, paren, rfl, h, -⟩ := spells_append.mp h
  obtain ⟨_, space, rfl, h, -⟩ := spells_append.mp h
  obtain ⟨_, name, rfl, h, hname⟩ := spells_append.mp h
  obtain ⟨_, _, rfl, h, hahead⟩ := spells_append.mp h
  obtain ⟨rfl, -⟩ := spells_notAhead.mp hahead
  obtain ⟨type, sep, rfl, htype, hsep⟩ := spells_append.mp h
  obtain ⟨hne, hblank⟩ := spells_separator.mp hsep
  have haccepts := Identifier.spells_pattern.mp hname
  rcases spells_orElse.mp htype with htype | hvoid
  · obtain ⟨hbefore, word, arguments, arrays, rfl, hword, harguments, harrays⟩ := spells_anyType.mp htype
    have hkind : arguments = [] ∨ Kind.other ≠ .primitive ∧ InAngles arguments :=
      harguments.imp_right fun h => ⟨by decide, h⟩
    exact ⟨hbefore, word, arguments ++ (arrays ++ sep), name, space ++ paren, by simp, .inl hword, haccepts, before,
      Kind.spells_joint.mpr ⟨arguments, arrays, sep, rfl, hkind, harrays, hne, hblank⟩⟩
  · obtain ⟨hbefore, rfl⟩ := (spells_wordEdge_lit (by decide) (by decide)).mp hvoid
    exact ⟨hbefore, _, sep, name, space ++ paren, by simp, .inr rfl, haccepts, before,
      Kind.spells_joint.mpr ⟨[], [], sep, rfl, .inl rfl, .nil, hne, hblank⟩⟩

/-- The parameters of a method begin with a type or nothing. -/
theorem methodParams_begins : methodParams.Begins identifier IsResult Kind.other.marks where
  takes := by
    intro before lead bound tail after h
    obtain ⟨hbefore, word, joint, name, more, rfl, hword, hname, _, hjoint⟩ := exists_of_methodParams_lead h.takes_lead
    have hopens := Kind.opens_joint hjoint hname
    refine ⟨hbefore, word, _, ?_, hword.accepts, hword, hopens⟩
    simp
  not_tail := fun c hc => (Kind.marks_eq hc).2.1

theorem spells_methodParams_lead (hbefore : wordNext before = false) (hresult : IsResult word) (hname : IsName f)
    (hnot : f ∉ statements) : methodParams.lead.Spells before (word ++ ' ' :: f ++ ['(']) rest := by
  have htype {after : List Char} : (anyType <|> wordEdge ++ lit "void").Spells before word after := by
    rcases hresult with hword | rfl
    · exact .inl (spells_anyType.mpr ⟨hbefore, word, [], [], by simp, hword, .inl rfl, .nil⟩)
    · exact .inr ((spells_wordEdge_lit (by decide) (by decide)).mpr ⟨hbefore, rfl⟩)
  have hspace {before after : List Char} : separator.Spells before [' '] after :=
    spells_separator.mpr ⟨List.cons_ne_nil _ _, by decide⟩
  have hahead {before : List Char} : nameAhead.Spells before [] (f ++ '(' :: rest) :=
    spells_notAhead_anyWord (by decide) (fun x hx => (hname.isWord x hx).2) rfl hnot
  have hident {before after : List Char} : ident.Spells before f after := Identifier.spells_pattern.mpr hname.accepts
  have hparen {before after : List Char} : (lit "(").Spells before ['('] after := spells_lit.mpr rfl
  have hblanks {before after : List Char} : blanks.Spells before [] after := spells_blanks.mpr (List.forall_mem_nil _)
  have hlead := ((((htype.append hspace).skip hahead).append hident).skip hblanks).append hparen
  have hsplit : word ++ ' ' :: f ++ ['('] = ((word ++ [' ']) ++ f) ++ ['('] := by
    simp
  rw [hsplit]
  exact hlead

end Methods

section Constructors

def access : List (List Char) :=
  ["public", "private", "protected", "internal"].map String.toList

theorem spells_constructorParams_lead : constructorParams.lead.Spells before text rest ↔ wordNext before = false ∧
    ∃ word space type back, text = word ++ (space ++ (type ++ (back ++ ['(']))) ∧ word ∈ access ∧
      (space ≠ [] ∧ ∀ x ∈ space, isBlank x = true) ∧ (startsCapital type = true ∧ identifier.accepts type = true) ∧
      ∀ x ∈ back, isBlank x = true := by
  have hword {before word after : List Char} :
      (wordEdge ++ anyWord ["public", "private", "protected", "internal"]).Spells before word after ↔
        wordNext before = false ∧ word ∈ access :=
    spells_wordEdge_anyWord (by decide)
  constructor
  · intro h
    obtain ⟨_, _, rfl, h, hparen⟩ := spells_append.mp h
    obtain rfl := spells_lit.mp hparen
    obtain ⟨_, back, rfl, h, hback⟩ := spells_append.mp h
    obtain ⟨_, type, rfl, h, htype⟩ := spells_append.mp h
    obtain ⟨word, space, rfl, h, hspace⟩ := spells_append.mp h
    obtain ⟨hbefore, hmem⟩ := hword.mp h
    exact ⟨hbefore, word, space, type, back, by simp, hmem, spells_gap.mp hspace, spells_capitalized.mp htype,
      spells_blanks.mp hback⟩
  · rintro ⟨hbefore, word, space, type, back, rfl, hmem, hspace, htype, hback⟩
    have hparen {before : List Char} : (lit "(").Spells before ['('] rest := spells_lit.mpr rfl
    have hlead :=
      ((((hword.mpr ⟨hbefore, hmem⟩).append (spells_gap.mpr hspace)).append (spells_capitalized.mpr htype)).append
        (spells_blanks.mpr hback)).append hparen
    have hsplit : word ++ (space ++ (type ++ (back ++ ['(']))) = (((word ++ space) ++ type) ++ back) ++ ['('] := by
      simp only [List.append_assoc]
    rw [hsplit]
    exact hlead

/-- A constructor begins with one of the words in front of its name, which is the last but one in front of the
parenthesis. -/
theorem countFrom_constructorParams_eq_zero (hleft : '(' ∉ left) (hright : '(' ∉ right) (hdollar : '$' ∉ left)
    {words : List (List Char)} {result : List Char} (hwords : wholeWords left = words ++ [result, f])
    (hnot : result ∉ access) : constructorParams.countFrom identifier [] (left ++ '(' :: right) = 0 := by
  refine Family.countFrom_eq_zero fun passed lead bound tail after heq hspells => hnot ?_
  obtain ⟨hbefore, word, space, type, back, rfl, hmem, ⟨hne, hspace⟩, htype, hback⟩ :=
    spells_constructorParams_lead.mp hspells.takes_lead
  have hparens : left ++ '(' :: right =
      (passed ++ (word ++ (space ++ (type ++ back)))) ++ '(' :: (bound ++ (tail ++ after)) := by
    simpa using heq
  obtain ⟨rfl, -, -⟩ := (List.append_cons_inj_of_notMem hleft hright).mp hparens
  have hgap {chars : List Char} (hchars : ∀ x ∈ chars, isBlank x = true) : ∀ x ∈ chars, isWordChar x = false :=
    fun x hx => Text.isWordChar_of_isBlank (hchars x hx)
  have hword : wholeWords word = [word] := by
    have haccess : ∀ word ∈ access, word ≠ [] ∧ ∀ x ∈ word, isWordChar x = true := by decide
    exact Text.wholeWords_of_word (haccess word hmem).1 (haccess word hmem).2
  have hname : wholeWords (type ++ back) = [type] := by
    have hchars : ∀ x ∈ type, isWordChar x = true := by
      intro x hx
      refine isWordChar_of_isTail (regular.isTail_of_mem htype.2 x hx) ?_
      rintro rfl
      exact hdollar (by simp [hx])
    have hne : type ≠ [] := by
      rintro rfl
      cases htype.1
    exact (Text.fields_append_gap (p := fun c => !isWordChar c) (by simpa using hgap hback)).trans
      (Text.wholeWords_of_word hne hchars)
  rw [List.append_nil] at hbefore
  rw [wholeWords_append_of_edge hbefore, Text.wholeWords_append_gap_append hne (hgap hspace), hword, hname] at hwords
  obtain rfl : word = result := (List.cons.inj (List.append_inj' hwords rfl).2).1
  exact hmem

end Constructors

section Loops

/-- The end of a type with a name behind it, and then the word that stands between a variable and what it runs
through. -/
inductive InLoop : List Char → Prop where
  | mk {c : Char} {sep name space : List Char} (hc : isBlank c = false) (hmark : c ∉ [',', ')'])
    (hne : sep ≠ []) (hsep : ∀ x ∈ sep, isSeparator x = true) (hname : identifier.accepts name = true)
    (hne' : space ≠ []) (hspace : ∀ x ∈ space, isBlank x = true) :
    InLoop (c :: (sep ++ (name ++ (space ++ ['i', 'n']))))

private theorem InSquares.eq_nil_or_concat (h : InSquares text) : text = [] ∨ ∃ start, text = start ++ [']'] := by
  induction h with
  | nil => exact .inl rfl
  | @more front back text _ _ _ ih =>
    rcases ih with rfl | ⟨start, rfl⟩
    · exact .inr ⟨front ++ '[' :: back, by simp⟩
    · exact .inr ⟨front ++ '[' :: (back ++ ']' :: start), by simp⟩

private theorem InAngles.exists_concat (h : InAngles text) : ∃ start, text = start ++ ['>'] := by
  obtain ⟨space, inner, closing, -, -, hne, hclosing, rfl⟩ := h
  obtain ⟨start, c, rfl⟩ := List.eq_nil_or_concat closing |>.resolve_left hne
  obtain rfl : c = '>' := List.mem_singleton.mp (hclosing c (by simp))
  exact ⟨space ++ '<' :: (inner ++ start), by simp⟩

private theorem exists_concat_of_anyType (h : anyType.Spells before text rest) :
    ∃ start c, text = start ++ [c] ∧ isBlank c = false ∧ c ∉ [',', ')'] := by
  obtain ⟨-, word, arguments, arrays, rfl, hword, harguments, harrays⟩ := spells_anyType.mp h
  rcases harrays.eq_nil_or_concat with rfl | ⟨start, rfl⟩
  · rcases harguments with rfl | harguments
    · obtain ⟨start, c, rfl, hc⟩ := regular.exists_concat (IsResult.accepts (.inl hword))
      refine ⟨start, c, by simp, regular.not_blank hc, fun hmem => ?_⟩
      have hmarks : ∀ x ∈ [',', ')'], identifier.isTail x = false := by decide
      rw [hmarks c hmem] at hc
      cases hc
    · obtain ⟨start, rfl⟩ := harguments.exists_concat
      exact ⟨word ++ start, '>', by simp, by decide, by decide⟩
  · exact ⟨word ++ (arguments ++ start), ']', by simp, by decide, by decide⟩

/-- Without a colon or an equals sign, the variable of a loop is one that runs through something. -/
theorem countFrom_forBinder_eq_zero (hleft : '(' ∉ left) (hmarks : ∀ x ∈ [':', '='], x ∉ right) (hdollar : '$' ∉ right)
    (hloop : ∀ core, InLoop core → ¬core <:+: right) :
    forBinder.countFrom identifier before (left ++ '(' :: right) = 0 := by
  refine Family.countFrom_eq_zero fun passed lead bound tail after heq hspells => ?_
  obtain ⟨_, sep, rfl, hlead, hsep⟩ := spells_append.mp hspells.takes_lead
  obtain ⟨opening, type, rfl, hopening, htype⟩ := spells_append.mp hlead
  obtain ⟨start, c, rfl, hc, hmark⟩ := exists_concat_of_anyType htype
  obtain ⟨front, back, rfl⟩ :=
    List.append_of_mem (Pattern.mem_of_requires (rfl : Pattern.requires '(' _ = true) hopening)
  have hparens : left ++ '(' :: right =
      (passed ++ front) ++ '(' :: ((back ++ start) ++ c :: (sep ++ (bound ++ (tail ++ after)))) := by
    simpa using heq
  have hright := Text.suffix_of_append_cons_eq hleft hparens
  have hbound : identifier.accepts bound = true := Identifier.spells_pattern.mp hspells.takes_bound
  obtain ⟨space, last, rfl, hspace, hlast⟩ := spells_append.mp hspells.takes_tail
  rcases spells_orElse.mp hlast with hlast | hlast
  · obtain ⟨x, hx, rfl⟩ := spells_one.mp hlast
    exact hmarks x (among_eq_true_iff.mp hx) (hright.subset (by simp))
  · obtain ⟨_, _, rfl, hlast, hedge⟩ := spells_append.mp hlast
    obtain ⟨rfl, -⟩ := spells_wordEdge.mp hedge
    obtain ⟨hbefore, rfl⟩ := (spells_wordEdge_lit (by decide) (by decide)).mp hlast
    obtain ⟨hne, hsep⟩ := spells_separator.mp hsep
    refine hloop _ (.mk hc hmark hne hsep hbound ?_ (spells_blanks.mp hspace)) ?_
    · rintro rfl
      obtain ⟨others, x, rfl, hx⟩ := regular.exists_concat hbound
      have hword : isWordChar x = true := by
        refine isWordChar_of_isTail hx ?_
        rintro rfl
        exact hdollar (hright.subset (by simp))
      rw [List.reverse_append] at hbefore
      change isWordChar x = false at hbefore
      rw [hword] at hbefore
      cases hbefore
    · refine List.IsInfix.trans ?_ hright.isInfix
      exact ⟨back ++ start, after, by simp⟩

end Loops

section Heads

/-- Only the families for parameters count in the head of a method or a constructor. -/
theorem count_head (hfirst : ∃ c others, left = c :: others ∧ identifier.isHead c = true)
    (hlast : ∃ start last, right = start ++ [last] ∧ isBlank last = false) (hleft : '(' ∉ left)
    (hmarks : ∀ x ∈ ['=', ';', '-', ':', '$'], x ∉ left ++ '(' :: right)
    (hloop : ∀ core, InLoop core → ¬core <:+: right) :
    typed.count (left ++ '(' :: right) = methodParams.countFrom identifier [] (left ++ '(' :: right) +
      constructorParams.countFrom identifier [] (left ++ '(' :: right) := by
  have hkind (kind : Kind) : kind.family.countFrom identifier [] (left ++ '(' :: right) = 0 :=
    kind.countFrom_eq_zero_of_not_mem fun x hx => hmarks x (List.mem_append_left ['-', ':', '$'] hx)
  have hright {x : Char} (hx : x ∈ ['=', ';', '-', ':', '$']) : x ∉ right := fun hmem =>
    hmarks x hx (by simp [hmem])
  have hfor : forBinder.countFrom identifier [] (left ++ '(' :: right) = 0 :=
    countFrom_forBinder_eq_zero hleft (by simpa using ⟨hright (by decide), hright (by decide)⟩) (hright (by decide))
      hloop
  have hresource : resourceBinder.countFrom identifier [] (left ++ '(' :: right) = 0 :=
    Family.countFrom_of_not_mem (show resourceBinder.requires '=' = true from rfl) (hmarks '=' (by decide))
  have harrowless : Arrowless (left ++ '(' :: right) := by
    simp only [Arrowless, List.forall_mem_cons]
    exact ⟨fun h => hmarks '-' (by decide) (h.subset (by simp)), fun h => hmarks '=' (by decide) (h.subset (by simp)),
      List.forall_mem_nil _⟩
  have hlambdas : lambdaParams.countFrom identifier [] (left ++ '(' :: right) = 0 :=
    harrowless.countFrom_eq_zero lambdaParams (by simp)
  have hlambda : lambdaParam.countFrom identifier [] (left ++ '(' :: right) = 0 :=
    harrowless.countFrom_eq_zero lambdaParam (by simp)
  have hprimitive : primitive.countFrom identifier [] (left ++ '(' :: right) = 0 := hkind .primitive
  have hknown : known.countFrom identifier [] (left ++ '(' :: right) = 0 := hkind .known
  have hgeneric : generic.countFrom identifier [] (left ++ '(' :: right) = 0 := hkind .other
  have hcount : typed.count (left ++ '(' :: right) =
      total (fun family => family.countFrom identifier [] (left ++ '(' :: right)) typed.families := by
    refine count_eq_total ?_ ?_
    · obtain ⟨c, others, rfl, hc⟩ := hfirst
      exact ⟨c, others ++ '(' :: right, rfl, hc⟩
    · obtain ⟨start, last, rfl, hblank⟩ := hlast
      exact ⟨left ++ '(' :: start, last, by simp, hblank⟩
  rw [hcount]
  simp only [typed, total, List.foldr_cons, List.foldr_nil, hprimitive, hknown, hgeneric, hfor, hresource, hlambdas,
    hlambda, Nat.zero_add, Nat.add_zero]

end Heads

end LineCensus.Declaration.Typed
