import LineCensus.Proofs.TypedHeaders

/-! The parameters of methods and constructors: the name that a piece of their list declares, and the heads in which
each of them counts once. -/
namespace LineCensus.Declaration.Typed

open Pattern hiding requires mem_of_requires
open Text (Listed isBlank isWordChar wholeWords)

variable {words params : List (List Char)} {x : Char}
  {front back text right word type suffix marks name param line f core : List Char}

def NamesType (word : List Char) : Prop :=
  word ∈ primitives ∨ word ∈ catalogue ∨ IsTypeName word

private theorem NamesType.isName (h : NamesType word) : IsName word := by
  rcases h with h | h | h
  · exact (isName_of_mem_primitives h).1
  · exact (isName_of_mem_catalogue h).1
  · exact h.toIsName

private theorem NamesType.isType (h : NamesType word) : IsType word := by
  rcases h with h | h | h
  · exact .inl h
  · exact .inr ⟨(isName_of_mem_catalogue h).2, (isName_of_mem_catalogue h).1.accepts⟩
  · exact .inr ⟨h.capital, h.accepts⟩

/-- What may stand behind the type of a parameter: one argument, array brackets, or nothing. -/
inductive Suffix : List Char → Prop where
  | none : Suffix []
  | argument {name : List Char} (h : IsTypeName name) : Suffix ('<' :: (name ++ ['>']))
  | array : Suffix ['[', ']']

inductive IsParameter : List Char → Prop where
  | mk {type suffix marks name : List Char} (htype : NamesType type) (hsuffix : Suffix suffix)
    (hmarks : ∀ x ∈ marks, x ∈ ['*', '&']) (hname : IsName name) :
    IsParameter (type ++ (suffix ++ ' ' :: (marks ++ name)))

section Characters

private theorem Suffix.mem (h : Suffix suffix) (hx : x ∈ suffix) : identifier.isTail x = true ∧ isWordChar x = true ∨
    x ∈ ['<', '>', '[', ']'] := by
  cases h with
  | none => cases hx
  | argument hname =>
    simp only [List.mem_cons, List.mem_append, List.not_mem_nil, or_false] at hx
    rcases hx with rfl | hx | rfl
    · exact .inr (by decide)
    · exact .inl (hname.isWord x hx)
    · exact .inr (by decide)
  | array => exact .inr (List.mem_append_right ['<', '>'] hx)

/-- The characters of parameters besides those of names. -/
theorem IsParameter.mem (h : IsParameter param) (hx : x ∈ param) :
    identifier.isTail x = true ∧ isWordChar x = true ∨ x ∈ ['<', '>', '[', ']'] ∨ x ∈ [' ', '*', '&'] := by
  cases h with
  | mk htype hsuffix hmarks hname =>
    simp only [List.mem_append, List.mem_cons] at hx
    rcases hx with hx | hx | rfl | hx | hx
    · exact .inl (htype.isName.isWord x hx)
    · exact (hsuffix.mem hx).imp_right .inl
    · exact .inr (.inr (by decide))
    · exact .inr (.inr (List.mem_cons_of_mem ' ' (hmarks x hx)))
    · exact .inl (hname.isWord x hx)

private theorem IsParameter.not_mem (h : IsParameter param)
    (hx : isWordChar x = false ∧ x ∉ ['<', '>', '[', ']'] ∧ x ∉ [' ', '*', '&']) : x ∉ param := by
  intro hmem
  rcases h.mem hmem with h | h | h
  · exact absurd h.2 (by simp [hx.1])
  · exact hx.2.1 h
  · exact hx.2.2 h

private theorem not_mem_parameters (hlist : Listed ',' params text) (hparams : ∀ param ∈ params, IsParameter param)
    (hx : isWordChar x = false ∧ x ∉ ['<', '>', '[', ']'] ∧ x ∉ [' ', '*', '&']) (hblank : isBlank x = false)
    (hcomma : x ≠ ',') : x ∉ text := by
  intro hmem
  rcases hlist.mem_item_or hmem with ⟨param, hparam, hmem⟩ | h | h
  · exact (hparams param hparam).not_mem hx hmem
  · exact absurd h (by simp [hblank])
  · exact hcomma h

end Characters

section Names

private theorem typedName_of_words {piece : List Char} {others : List (List Char)} (hequals : '=' ∉ piece)
    (hwords : Text.words piece = others ++ [word]) :
    typedName piece = (word.dropWhile (among ['*', '&'])).takeWhile (· != '[') := by
  have htake : piece.takeWhile (· != '=') = piece := by
    rw [List.takeWhile_eq_self_iff]
    intro x hx
    exact bne_iff_ne.mpr fun h => hequals (h ▸ hx)
  rw [typedName, htake, hwords, List.getLast?_concat]

/-- The last word of a parameter holds its name. -/
theorem IsParameter.typedName_accepted (h : IsParameter param) (hfront : ∀ x ∈ front, isBlank x = true)
    (hback : ∀ x ∈ back, isBlank x = true) :
    identifier.accepts (Text.trim (typedName (front ++ (param ++ back)))) = true := by
  have hequals : '=' ∉ front ++ (param ++ back) := by
    simp only [List.mem_append, not_or]
    exact ⟨fun hmem => absurd (hfront _ hmem) (by decide), h.not_mem (by decide),
      fun hmem => absurd (hback _ hmem) (by decide)⟩
  cases h with
  | @mk type suffix marks name htype hsuffix hmarks hname =>
    have hsplit : front ++ (type ++ (suffix ++ ' ' :: (marks ++ name)) ++ back) =
        (front ++ (type ++ suffix)) ++ ' ' :: ((marks ++ name) ++ back) := by
      simp
    have hlast : ∀ x ∈ marks ++ name, isBlank x = false := by
      have hpointer : ∀ x ∈ ['*', '&'], isBlank x = false := by decide
      exact List.forall_mem_append.mpr
        ⟨fun x hx => hpointer x (hmarks x hx), fun x hx => regular.not_blank (hname.isWord x hx).1⟩
    have hwords : Text.words ((front ++ (type ++ suffix)) ++ ' ' :: ((marks ++ name) ++ back)) =
        Text.words (front ++ (type ++ suffix)) ++ [marks ++ name] := by
      have hgap := (Text.fields_append_gap hback).trans (Text.fields_of_forall (by simp [hname.ne_nil]) hlast)
      exact (Text.fields_append_cons (by decide)).trans (congrArg _ hgap)
    obtain ⟨c, others, rfl, hc, -⟩ := Identifier.exists_cons_of_accepts hname.accepts
    have hdrop : (marks ++ c :: others).dropWhile (among ['*', '&']) = c :: others := by
      rw [List.dropWhile_append_of_pos fun x hx => among_eq_true_iff.mpr (hmarks x hx), List.dropWhile_cons_of_neg]
      have hpointer : ∀ x ∈ ['*', '&'], identifier.isHead x = false := by decide
      exact fun h => absurd hc (by simp [hpointer c (among_eq_true_iff.mp h)])
    have htake : (c :: others).takeWhile (· != '[') = c :: others := by
      rw [List.takeWhile_eq_self_iff]
      intro x hx
      refine bne_iff_ne.mpr ?_
      rintro rfl
      cases (hname.isWord _ hx).1
    rw [hsplit] at hequals ⊢
    rw [typedName_of_words hequals hwords, hdrop, htake, regular.trim_eq hname.accepts]
    exact hname.accepts

/-- Each piece of a list of parameters declares one name. -/
theorem count_typedNames (hlist : Listed ',' params text) (hparams : ∀ param ∈ params, IsParameter param) :
    Binding.typedNames.count identifier text = params.length := by
  change ((Text.splitAt ',' text).map typedName).countP _ = _
  cases params with
  | nil =>
    cases hlist
    rfl
  | cons param params =>
    rw [List.countP_map]
    exact hlist.countP_splitAt (List.cons_ne_nil param params)
      (fun param hparam => (hparams param hparam).not_mem (by decide)) (by decide)
      fun param hparam front back hfront hback => (hparams param hparam).typedName_accepted hfront hback

end Names

section Loops

private theorem InLoop.not_mem (h : InLoop core) (hx : x ∈ [',', ')']) : x ∉ core := by
  have hkind : ∀ x ∈ [',', ')'], isSeparator x = false ∧ identifier.isTail x = false ∧ x ∉ ['i', 'n'] := by decide
  obtain ⟨hseparator, htail, hword⟩ := hkind x hx
  cases h with
  | @mk c sep name space hc hmark hne hsep hname hne' hspace =>
    simp only [List.mem_cons, List.mem_append, not_or] at hword ⊢
    refine ⟨fun h => hmark (h ▸ hx), fun hmem => absurd (hsep x hmem) (by simp [hseparator]),
      fun hmem => absurd (regular.isTail_of_mem hname x hmem) (by simp [htail]),
      fun hmem => absurd (isSeparator_of_isBlank (hspace x hmem)) (by simp [hseparator]), hword⟩

/-- Behind what separates a type from its name a parameter has no blank character, so that no variable runs through
anything. -/
theorem IsParameter.not_loop (h : IsParameter param) (hcore : InLoop core) : ¬core <:+: param := by
  rintro ⟨front, back, hparam⟩
  cases h with
  | @mk type suffix marks name htype hsuffix hmarks hname =>
  cases hcore with
  | @mk c sep loopName space hc hmark hne hsep hloopName hne' hspace =>
    obtain ⟨s, sep, rfl⟩ := List.exists_cons_of_ne_nil hne
    obtain ⟨y, space, rfl⟩ := List.exists_cons_of_ne_nil hne'
    have hs : s ∉ type ++ suffix := by
      have hbracket : ∀ x ∈ ['<', '>', '[', ']'], isSeparator x = false := by decide
      have hseparator : isSeparator s = true := hsep s (List.mem_cons_self ..)
      intro hmem
      rcases List.mem_append.mp hmem with hmem | hmem
      · exact absurd (not_separator_of_isTail (htype.isName.isWord s hmem).1) (by simp [hseparator])
      · rcases hsuffix.mem hmem with hword | hmem
        · exact absurd (not_separator_of_isTail hword.1) (by simp [hseparator])
        · exact absurd (hbracket s hmem) (by simp [hseparator])
    have hsplit : (type ++ suffix) ++ ' ' :: (marks ++ name) =
        (front ++ [c]) ++ s :: (sep ++ (loopName ++ (y :: space ++ ['i', 'n'])) ++ back) := by
      simpa using hparam.symm
    have hmem : y ∈ marks ++ name := (Text.suffix_of_append_cons_eq hs hsplit).subset (by simp)
    have hblank : isBlank y = true := hspace y (List.mem_cons_self ..)
    rcases List.mem_append.mp hmem with hmem | hmem
    · have hpointer : ∀ x ∈ ['*', '&'], isBlank x = false := by decide
      exact absurd (hpointer y (hmarks y hmem)) (by simp [hblank])
    · exact absurd (regular.not_blank (hname.isWord y hmem).1) (by simp [hblank])

private theorem not_loop_parameters (hlist : Listed ',' params text) (hparams : ∀ param ∈ params, IsParameter param)
    (hcore : InLoop core) : ¬core <:+: text ++ [')', ' ', '\x7b'] := by
  obtain ⟨first, hfirst, hblank⟩ : ∃ first, core.head? = some first ∧ isBlank first = false := by
    cases hcore with
    | mk hc _ _ _ _ _ _ => exact ⟨_, rfl, hc⟩
  obtain ⟨start, rfl⟩ : ∃ start, core = start ++ ['n'] := by
    cases hcore with
    | @mk c sep name space _ _ _ _ _ _ _ => exact ⟨c :: (sep ++ (name ++ (space ++ ['i']))), by simp⟩
  intro hwithin
  rcases Text.infix_append_cons (hcore.not_mem (by decide)) hwithin with hwithin | hwithin
  · obtain ⟨param, hparam, hwithin⟩ := hlist.exists_infix_item (hcore.not_mem (by decide)) hfirst
      List.getLast?_concat ⟨hblank, by decide⟩ hwithin
    exact (hparams param hparam).not_loop hcore hwithin
  · exact absurd (hwithin.subset (List.mem_append_right start (List.mem_singleton_self 'n'))) (by decide)

end Loops

section Heads

inductive Head (params : List (List Char)) : List Char → Prop where
  | method {words : List (List Char)} {result f text : List Char} (hwords : ∀ word ∈ words, word ∈ modifiers)
    (hresult : result = "void".toList ∨ NamesType result) (hf : IsName f) (hnot : f ∉ statements)
    (hlist : Listed ',' params text) :
    Head params (spaced words ++ (result ++ ' ' :: f ++ '(' :: (text ++ [')', ' ', '\x7b'])))
  | constructor {word type text : List Char} (hword : word ∈ access) (htype : IsTypeName type)
    (hlist : Listed ',' params text) : Head params (word ++ ' ' :: type ++ '(' :: (text ++ [')', ' ', '\x7b']))

private theorem not_result (h : word ∈ modifiers ++ access) : IsName word ∧ ¬IsResult word := by
  have hwords : ∀ word ∈ modifiers ++ access,
      IsName word ∧ word ∉ primitives ∧ startsCapital word = false ∧ word ≠ "void".toList := by decide
  obtain ⟨hname, hprimitive, hcapital, hvoid⟩ := hwords word h
  refine ⟨hname, ?_⟩
  rintro ((hmem | hmem) | hmem)
  · exact hprimitive hmem
  · exact absurd hmem.1 (by simp [hcapital])
  · exact hvoid hmem

private theorem isName_of_result (h : word = "void".toList ∨ NamesType word) : IsName word ∧ IsResult word := by
  rcases h with rfl | h
  · exact ⟨by decide, .inr rfl⟩
  · exact ⟨h.isName, .inl h.isType⟩

private theorem not_mem_left (hwords : ∀ word ∈ words, IsName word) (hword : IsName word) (hf : IsName f)
    (hx : isWordChar x = false ∧ x ≠ ' ') : x ∉ spaced words ++ (word ++ ' ' :: f) := by
  have hname {name : List Char} (hname : IsName name) : x ∉ name := fun hmem =>
    absurd (hname.isWord x hmem).2 (by simp [hx.1])
  simp only [List.mem_append, List.mem_cons, not_or]
  refine ⟨fun hmem => ?_, hname hword, hx.2, hname hf⟩
  rcases mem_spaced hmem with ⟨other, hother, hmem⟩ | h
  · exact hname (hwords other hother) hmem
  · exact hx.2 h

private theorem ends_with_parenthesis {p : Pattern} {before text after : List Char}
    (h : (p ++ lit "(").Spells before text after) : ∃ start, text = start ++ ['('] := by
  obtain ⟨start, paren, rfl, -, hparen⟩ := spells_append.mp h
  obtain rfl := spells_lit.mp hparen
  exact ⟨start, rfl⟩

private theorem IsName.wholeWords_eq (h : IsName name) : wholeWords name = [name] :=
  Text.wholeWords_of_word h.ne_nil fun x hx => (h.isWord x hx).2

/-- A constructor begins with no result of a method. -/
theorem countFrom_methodParams_constructor (hword : word ∈ access) (htype : IsTypeName type) (hright : '(' ∉ right) :
    methodParams.countFrom identifier [] (word ++ ' ' :: type ++ '(' :: right) = 0 := by
  obtain ⟨hname, hnot⟩ := not_result (List.mem_append_right modifiers hword)
  have hpassed : ∀ other ∈ [word], identifier.IsWord other ∧ ¬IsResult other :=
    List.forall_mem_singleton.mpr ⟨hname.isWord, hnot⟩
  have hsplit : word ++ ' ' :: type ++ '(' :: right = spaced [word] ++ (type ++ ([] ++ '(' :: right)) := by
    simp [spaced]
  rw [hsplit, methodParams_begins.countFrom_spaced regular hpassed,
    methodParams_begins.countFrom_closed regular htype.isWord (List.forall_mem_nil _) (by decide)]
  exact Family.countFrom_of_not_mem rfl hright

section Parameters

variable (hlist : Listed ',' params text) (hparams : ∀ param ∈ params, IsParameter param)
include hlist hparams

private theorem not_mem_right
    (hx : isWordChar x = false ∧ isBlank x = false ∧ x ∉ ['<', '>', '[', ']'] ∧ x ∉ [' ', '*', '&'])
    (hclosing : x ∉ [',', ')', '\x7b']) : x ∉ text ++ [')', ' ', '\x7b'] := by
  obtain ⟨hword, hblank, hbracket, hmark⟩ := hx
  simp only [List.mem_cons, List.mem_append, List.not_mem_nil, or_false, not_or] at hclosing hmark ⊢
  have htext := not_mem_parameters hlist hparams ⟨hword, hbracket, by simpa using hmark⟩ hblank hclosing.1
  exact ⟨htext, hclosing.2.1, hmark.1, hclosing.2.2⟩

private theorem not_parenthesis_parameters : ∀ x ∈ text, x ∉ ['(', ')'] := by
  intro x hx hmem
  have hkind : ∀ x ∈ ['(', ')'], (isWordChar x = false ∧ x ∉ ['<', '>', '[', ']'] ∧ x ∉ [' ', '*', '&']) ∧
      isBlank x = false ∧ x ≠ ',' := by decide
  obtain ⟨houtside, hblank, hcomma⟩ := hkind x hmem
  exact not_mem_parameters hlist hparams houtside hblank hcomma hx

/-- The parameters of a method are found with its result and its name. -/
theorem countFrom_methodParams (hwords : ∀ word ∈ words, word ∈ modifiers) (hword : IsName word)
    (hresult : IsResult word) (hf : IsName f) (hnot : f ∉ statements) :
    methodParams.countFrom identifier [] (spaced words ++ (word ++ ' ' :: f ++ '(' :: (text ++ [')', ' ', '\x7b']))) =
      params.length := by
  have hpassed : ∀ word ∈ words, identifier.IsWord word ∧ ¬IsResult word := fun word hword =>
    (not_result (List.mem_append_left access (hwords word hword))).imp_left IsName.isWord
  have hfront : '(' ∉ word ++ ' ' :: f := @not_mem_left [] '(' word f (List.forall_mem_nil _) hword hf (by decide)
  rw [methodParams_begins.countFrom_spaced regular hpassed, countFrom_parenthesised ends_with_parenthesis rfl rfl
    (spells_methodParams_lead (wordNext_behind_spaced words) hresult hf hnot) hfront
    (not_parenthesis_parameters hlist hparams) (by decide) rfl]
  exact count_typedNames hlist hparams

private theorem countFrom_constructorParams (hword : word ∈ access) (htype : IsTypeName type) :
    constructorParams.countFrom identifier [] (word ++ ' ' :: type ++ '(' :: (text ++ [')', ' ', '\x7b'])) =
      params.length := by
  have hname : IsName word := (not_result (List.mem_append_right modifiers hword)).1
  have hfront : '(' ∉ word ++ ' ' :: type :=
    @not_mem_left [] '(' word type (List.forall_mem_nil _) hname htype.toIsName (by decide)
  have hlead : constructorParams.lead.Spells [] (word ++ ' ' :: type ++ ['(']) (text ++ [')', ' ', '\x7b']) :=
    spells_constructorParams_lead.mpr ⟨rfl, word, [' '], type, [], by simp, hword, ⟨List.cons_ne_nil _ _, by decide⟩,
      ⟨htype.capital, htype.accepts⟩, List.forall_mem_nil _⟩
  rw [countFrom_parenthesised ends_with_parenthesis rfl rfl hlead hfront (not_parenthesis_parameters hlist hparams)
    (by decide) rfl]
  exact count_typedNames hlist hparams

/-- The head of a method or a constructor counts what is found as its parameters. -/
theorem count_left (hwords : ∀ word ∈ words, IsName word) (hword : IsName word) (hf : IsName f) :
    let line := spaced words ++ (word ++ ' ' :: f) ++ '(' :: (text ++ [')', ' ', '\x7b'])
    typed.count line = methodParams.countFrom identifier [] line + constructorParams.countFrom identifier [] line := by
  intro line
  refine count_head (exists_head_of_spaced hwords hword (' ' :: f)) ⟨text ++ [')', ' '], '\x7b', by simp, by decide⟩
    (not_mem_left hwords hword hf (by decide)) ?_ fun core hcore => not_loop_parameters hlist hparams hcore
  have hkind : ∀ x ∈ ['=', ';', '-', ':', '$'], (isWordChar x = false ∧ x ≠ ' ') ∧ x ≠ '(' ∧
      (isWordChar x = false ∧ isBlank x = false ∧ x ∉ ['<', '>', '[', ']'] ∧ x ∉ [' ', '*', '&']) ∧
      x ∉ [',', ')', '\x7b'] := by decide
  intro x hx
  obtain ⟨hleft, hparen, houtside, hclosing⟩ := hkind x hx
  rw [List.mem_append, List.mem_cons, not_or, not_or]
  exact ⟨not_mem_left hwords hword hf hleft, hparen, not_mem_right hlist hparams houtside hclosing⟩

end Parameters

/-- Each parameter of a method or a constructor counts once. -/
theorem count_of_head (hparams : ∀ param ∈ params, IsParameter param) (h : Head params line) :
    typed.count line = params.length := by
  cases h with
  | @method words result f text hwords hresult hf hnot hlist =>
    have hnames : ∀ word ∈ words, IsName word := fun word hword => (isName_of_mem_modifiers (hwords word hword)).1
    obtain ⟨hname, hresult⟩ := isName_of_result hresult
    have hassoc : spaced words ++ (result ++ ' ' :: f ++ '(' :: (text ++ [')', ' ', '\x7b'])) =
        spaced words ++ (result ++ ' ' :: f) ++ '(' :: (text ++ [')', ' ', '\x7b']) := by
      simp
    have hmethod := countFrom_methodParams hlist hparams hwords hname hresult hf hnot
    have hlast : wholeWords (spaced words ++ (result ++ ' ' :: f)) = wholeWords (spaced words) ++ [result, f] := by
      have hedge : wordNext (spaced words).reverse = false := by
        simpa using wordNext_behind_spaced words
      rw [wholeWords_append_of_edge hedge, Text.wholeWords_append_cons (by decide), hname.wholeWords_eq,
        hf.wholeWords_eq]
      rfl
    have hconstructor := countFrom_constructorParams_eq_zero (not_mem_left hnames hname hf (by decide))
      (not_mem_right hlist hparams (by decide) (by decide)) (not_mem_left hnames hname hf (by decide)) hlast
      fun hmem => (not_result (List.mem_append_right modifiers hmem)).2 hresult
    rw [hassoc] at hmethod ⊢
    rw [count_left hlist hparams hnames hname hf, hmethod, hconstructor, Nat.add_zero]
  | @constructor word type text hword htype hlist =>
    have hname : IsName word := (not_result (List.mem_append_right modifiers hword)).1
    have hcount := @count_left [] params text word type hlist hparams (List.forall_mem_nil _) hname htype.toIsName
    have hmethod := countFrom_methodParams_constructor hword htype (not_mem_right hlist hparams (by decide) (by decide))
    have hconstructor := countFrom_constructorParams hlist hparams hword htype
    refine hcount.trans ?_
    change methodParams.countFrom identifier [] (word ++ ' ' :: type ++ '(' :: _) +
      constructorParams.countFrom identifier [] (word ++ ' ' :: type ++ '(' :: _) = _
    rw [hmethod, hconstructor, Nat.zero_add]

theorem count_of_two_heads :
    typed.count "public static void put(String[] key, int **n, Listing<Task> &xs) \x7b".toList = 3 ∧
      typed.count "protected Thread(Runnable r) \x7b".toList = 1 := by
  have hkey : IsParameter "String[] key".toList :=
    @IsParameter.mk "String".toList _ [] "key".toList (.inr (.inl (by decide))) .array (List.forall_mem_nil _)
      (by decide)
  have hn : IsParameter "int **n".toList :=
    @IsParameter.mk "int".toList _ "**".toList "n".toList (.inl (by decide)) .none (by decide) (by decide)
  have hxs : IsParameter "Listing<Task> &xs".toList :=
    @IsParameter.mk "Listing".toList _ "&".toList "xs".toList (.inr (.inr ⟨by decide, by decide⟩))
      (@Suffix.argument "Task".toList ⟨by decide, by decide⟩) (by decide) (by decide)
  have hr : IsParameter "Runnable r".toList :=
    @IsParameter.mk "Runnable".toList _ [] "r".toList (.inr (.inl (by decide))) .none (List.forall_mem_nil _)
      (by decide)
  have hspace : ∀ x ∈ [' '], isBlank x = true := by decide
  have hlist : Listed ',' ["String[] key".toList, "int **n".toList, "Listing<Task> &xs".toList]
      "String[] key, int **n, Listing<Task> &xs".toList :=
    .more "String[] key".toList (List.forall_mem_nil _) hspace
      (.more "int **n".toList (List.forall_mem_nil _) hspace (.one "Listing<Task> &xs".toList))
  have hmethod : Head _ "public static void put(String[] key, int **n, Listing<Task> &xs) \x7b".toList :=
    @Head.method _ ["public".toList, "static".toList] "void".toList "put".toList _ (by decide) (.inl rfl) (by decide)
      (by decide) hlist
  have hconstructor : Head _ "protected Thread(Runnable r) \x7b".toList :=
    @Head.constructor _ "protected".toList "Thread".toList _ (by decide) ⟨by decide, by decide⟩
      (.one "Runnable r".toList)
  refine ⟨count_of_head ?_ hmethod, count_of_head ?_ hconstructor⟩
  · simp only [List.forall_mem_cons]
    exact ⟨hkey, hn, hxs, List.forall_mem_nil _⟩
  · exact List.forall_mem_singleton.mpr hr

end Heads

end LineCensus.Declaration.Typed
