import LineCensus.Proofs.TypedFamilies

/-! Declarations of one variable behind its type. A plain one is found by the family for the kind of its type and
by no other family; behind a pointer mark the types of the standard libraries are not found. -/
namespace LineCensus.Declaration.Typed

open Pattern hiding requires mem_of_requires
open Text (Listed isBlank)

variable {family : Family} {kind : Kind} {words names : List (List Char)} {n : Nat}
  {before rest text head arguments marks name value ending : List Char}

def modifiers : List (List Char) :=
  ["public", "private", "protected", "static", "final"].map String.toList

theorem isName_of_mem_modifiers {word : List Char} (h : word ∈ modifiers) :
    IsName word ∧ word ∉ primitives ∧ startsCapital word = false := by
  revert h word
  decide

private theorem not_has_of_mem_modifiers {word : List Char} (h : word ∈ modifiers) : ¬kind.Has word := by
  obtain ⟨-, hprimitive, hcapital⟩ := isName_of_mem_modifiers h
  intro hhas
  cases kind with
  | primitive => exact hprimitive hhas
  | known =>
    rw [(isName_of_mem_catalogue hhas).2] at hcapital
    cases hcapital
  | other =>
    rw [hhas.1] at hcapital
    cases hcapital

section Parts

structure IsTypeName (name : List Char) : Prop extends IsName name where
  capital : startsCapital name = true

inductive Arguments : List Char → Prop where
  | none : Arguments []
  | listed {names : List (List Char)} {text : List Char} (hne : names ≠ []) (hnames : ∀ name ∈ names, IsTypeName name)
    (hlist : Listed ',' names text) : Arguments ('<' :: (text ++ ['>']))

def squares (n : Nat) : List Char :=
  (List.replicate n ['[', ']']).flatten

def IsValue (value : List Char) : Prop :=
  IsName value ∨ value ≠ [] ∧ ∀ c ∈ value, Text.isDigit c = true

inductive Ending : List Char → Prop where
  | plain : Ending [';']
  | value {value : List Char} (h : IsValue value) : Ending (' ' :: '=' :: ' ' :: (value ++ [';']))

def declaration (words : List (List Char)) (head arguments : List Char) (n : Nat) (marks name ending : List Char) :
    List Char :=
  spaced words ++ (head ++ (arguments ++ (squares n ++ (' ' :: marks ++ (name ++ ending)))))

structure Declared (words : List (List Char)) (head arguments marks name ending : List Char) : Prop where
  modifiers : ∀ word ∈ words, word ∈ modifiers
  head : IsName head
  arguments : Arguments arguments
  marks : ∀ x ∈ marks, x ∈ ['*', '&']
  name : IsName name
  ending : Ending ending

private theorem Declared.isName_of_modifier (h : Declared words head arguments marks name ending) :
    ∀ word ∈ words, IsName word :=
  fun word hword => (isName_of_mem_modifiers (h.modifiers word hword)).1

private theorem IsValue.isWord (h : IsValue value) : identifier.IsWord value := by
  rcases h with h | ⟨-, h⟩
  · exact h.isWord
  · intro x hx
    have htail : identifier.isTail x = true := by
      simp [identifier, Script.identifier, h x hx]
    refine ⟨htail, isWordChar_of_isTail htail ?_⟩
    rintro rfl
    cases h _ hx

private theorem isSeparator_of_mem {x : Char} (h : x ∈ ['*', '&']) : isSeparator x = true := by
  revert h x
  decide

private theorem Arguments.mem (h : Arguments arguments) {x : Char} (hx : x ∈ arguments) :
    identifier.isTail x = true ∨ isBlank x = true ∨ x ∈ ['<', '>', ','] := by
  cases h with
  | none => cases hx
  | listed _ hnames hlist =>
    simp only [List.mem_cons, List.mem_append, List.not_mem_nil, or_false] at hx
    rcases hx with rfl | hx | rfl
    · simp
    · rcases hlist.mem_item_or hx with ⟨name, hname, hmem⟩ | hx | rfl
      · exact .inl (regular.isTail_of_mem (hnames name hname).accepts x hmem)
      · exact .inr (.inl hx)
      · simp
    · simp

private theorem Arguments.inAngles (h : Arguments arguments) : arguments = [] ∨ InAngles arguments := by
  cases h with
  | none => exact .inl rfl
  | @listed names text _ hnames hlist =>
    refine .inr ⟨[], text, ['>'], List.forall_mem_nil _, ?_, by simp, by simp, rfl⟩
    have hkind : ∀ x ∈ [';', '=', '(', ')', '\x7b', '\x7d'],
        identifier.isTail x = false ∧ isBlank x = false ∧ x ∉ ['<', '>', ','] := by decide
    intro x hx hmem
    obtain ⟨htail, hblank, hmark⟩ := hkind x hmem
    have hx : x ∈ '<' :: (text ++ ['>']) := by simp [hx]
    rcases (Arguments.listed ‹_› hnames hlist).mem hx with h | h | h
    · exact absurd h (by simp [htail])
    · exact absurd h (by simp [hblank])
    · exact hmark h

private theorem mem_squares {x : Char} (h : x ∈ squares n) : x ∈ ['[', ']'] := by
  obtain ⟨pair, hpair, hx⟩ := List.mem_flatten.mp h
  rw [(List.mem_replicate.mp hpair).2] at hx
  exact hx

private theorem inSquares_squares (n : Nat) : InSquares (squares n) := by
  induction n with
  | zero => exact .nil
  | succ n ih => exact @InSquares.more [] [] _ (List.forall_mem_nil _) (List.forall_mem_nil _) ih

private theorem not_tail_behind_type (h : Arguments arguments) (n : Nat) :
    ∀ x ∈ (arguments ++ (squares n ++ (' ' :: marks ++ rest))).head?, identifier.isTail x = false := by
  cases h with
  | listed _ _ _ =>
    rintro x ⟨⟩
    decide
  | none =>
    cases n with
    | zero =>
      rintro x ⟨⟩
      decide
    | succ n =>
      rintro x ⟨⟩
      decide

end Parts

section Scan

variable {Own : List Char → Prop} {starts : List Char} (hbegins : family.Begins identifier Own starts)
include hbegins

/-- Nothing begins inside type arguments. -/
theorem countFrom_arguments (hcloses : ∀ mark ∈ [',', '>'], identifier.Closes starts mark) (h : Arguments arguments) :
    family.countFrom identifier before (arguments ++ rest) =
      family.countFrom identifier (arguments.reverse ++ before) rest := by
  cases h with
  | none => rfl
  | @listed names text _ hnames hlist =>
    have hopening : ∀ x ∈ ['<'], identifier.isHead x = false := by decide
    have hsplit : '<' :: (text ++ ['>']) ++ rest = ['<'] ++ (text ++ '>' :: rest) := by
      simp
    rw [hsplit, hbegins.countFrom_gap hopening,
      hbegins.countFrom_listed regular hlist (fun name hname => (hnames name hname).isWord)
        (hcloses ',' (by simp)) (hcloses '>' (by simp))]
    simp

/-- Nothing begins in the name and the value of a declaration. -/
theorem countFrom_ending (hcloses : ∀ mark ∈ ['=', ';'], identifier.Closes starts mark) (hname : IsName name)
    (h : Ending ending) : family.countFrom identifier before (name ++ ending) = 0 := by
  have hend {word before : List Char} (hword : identifier.IsWord word) :
      family.countFrom identifier before (word ++ [';']) = 0 :=
    hbegins.countFrom_closed regular hword (List.forall_mem_nil _) (hcloses ';' (by simp))
  have hspace : ∀ x ∈ [' '], isBlank x = true := by decide
  cases h with
  | plain => exact hend hname.isWord
  | @value value hvalue =>
    calc family.countFrom identifier before (name ++ ([' '] ++ '=' :: ([' '] ++ (value ++ [';']))))
      _ = family.countFrom identifier _ ([' '] ++ (value ++ [';'])) :=
        hbegins.countFrom_closed regular hname.isWord hspace (hcloses '=' (by simp))
      _ = family.countFrom identifier _ (value ++ [';']) := hbegins.countFrom_blanks regular hspace
      _ = 0 := hend hvalue.isWord

/-- A family finds nothing in a declaration whose type it does not begin with. -/
theorem countFrom_declaration_eq_zero (hcloses : ∀ mark ∈ [',', '>', '=', ';'], identifier.Closes starts mark)
    (hstarts : ∀ word ∈ modifiers, ¬Own word) (h : Declared words head arguments marks name ending)
    (hnot : Own head → ¬identifier.Opens starts (arguments ++ (squares n ++ (' ' :: marks ++ (name ++ ending))))) :
    family.countFrom identifier [] (declaration words head arguments n marks name ending) = 0 := by
  have hwords : ∀ word ∈ words, identifier.IsWord word ∧ ¬Own word := fun word hword =>
    ⟨(h.isName_of_modifier word hword).isWord, hstarts word (h.modifiers word hword)⟩
  have hgap : ∀ x ∈ squares n ++ ' ' :: marks, identifier.isHead x = false := by
    have hkind : ∀ x ∈ ['[', ']', ' ', '*', '&'], identifier.isHead x = false := by decide
    intro x hx
    rcases List.mem_append.mp hx with hx | hx
    · exact hkind x (List.mem_append_left [' ', '*', '&'] (mem_squares hx))
    · rcases List.mem_cons.mp hx with rfl | hx
      · exact hkind ' ' (by simp)
      · exact hkind x (List.mem_append_right ['[', ']', ' '] (h.marks x hx))
  rw [declaration, hbegins.countFrom_spaced regular hwords,
    hbegins.countFrom_word regular h.head.isWord (not_tail_behind_type h.arguments n) hnot,
    countFrom_arguments hbegins (fun mark hmark => hcloses mark (List.mem_append_left ['=', ';'] hmark)) h.arguments,
    ← List.append_assoc (squares n), hbegins.countFrom_gap hgap]
  exact countFrom_ending hbegins (fun mark hmark => hcloses mark (List.mem_append_right [',', '>'] hmark)) h.name
    h.ending

end Scan

section Occurrence

private theorem Ending.exists_end (h : Ending ending) : ∃ space mark rest, ending = space ++ mark :: rest ∧
    (∀ x ∈ space, isBlank x = true) ∧ mark ∈ ['=', ';'] ∧ Kind.Unseparated rest := by
  cases h with
  | plain => exact ⟨[], ';', [], rfl, List.forall_mem_nil _, by decide, fun front c back h => by simp at h⟩
  | @value value hvalue =>
    refine ⟨[' '], '=', ' ' :: (value ++ [';']), rfl, by decide, by decide, fun front c back heq hc x hx => ?_⟩
    cases front with
    | nil =>
      obtain rfl : ' ' = c := (List.cons.inj heq).1
      cases hc
    | cons y front =>
      have hmem : x ∈ value ++ [';'] := by
        rw [(List.cons.inj heq).2]
        simp [hx]
      rw [List.mem_append, List.mem_singleton] at hmem
      rcases hmem with hmem | rfl
      · exact not_separator_of_isTail (hvalue.isWord x hmem).1
      · decide

theorem wordNext_behind_spaced (words : List (List Char)) : wordNext ((spaced words).reverse ++ []) = false := by
  rcases List.eq_nil_or_concat words with rfl | ⟨words, word, rfl⟩
  · rfl
  · simp [spaced, wordNext]
    decide

/-- The family for the kind of its type finds a declaration once. -/
theorem countFrom_own (h : Declared words head arguments marks name ending) (hhas : kind.Has head)
    (harguments : kind = .primitive → arguments = []) (hmarks : kind = .known → marks = []) :
    kind.family.countFrom identifier [] (declaration words head arguments n marks name ending) = 1 := by
  have hwords : ∀ word ∈ words, identifier.IsWord word ∧ ¬kind.Has word := fun word hword =>
    ⟨(h.isName_of_modifier word hword).isWord, not_has_of_mem_modifiers (h.modifiers word hword)⟩
  obtain ⟨space, mark, rest, rfl, hspace, hmark, hrest⟩ := h.ending.exists_end
  have hsep : ∀ x ∈ ' ' :: marks, kind.separates x = true := by
    cases kind with
    | known =>
      rw [hmarks rfl]
      decide
    | primitive | other => exact List.forall_mem_cons.mpr ⟨by decide, fun x hx => isSeparator_of_mem (h.marks x hx)⟩
  have hfirst : ∀ x ∈ arguments ++ squares n, x ∉ ['=', ';'] := by
    intro x hx hend
    have hkind : ∀ x ∈ ['=', ';'],
        identifier.isTail x = false ∧ isBlank x = false ∧ x ∉ ['<', '>', ','] ∧ x ∉ ['[', ']'] := by decide
    obtain ⟨htail, hblank, hangle, hsquare⟩ := hkind x hend
    rcases List.mem_append.mp hx with hx | hx
    · rcases h.arguments.mem hx with hx | hx | hx
      · exact absurd hx (by simp [htail])
      · exact absurd hx (by simp [hblank])
      · exact hangle hx
    · exact hsquare (mem_squares hx)
  have hangles : arguments = [] ∨ kind ≠ .primitive ∧ InAngles arguments := by
    by_cases hkind : kind = .primitive
    · exact .inl (harguments hkind)
    · exact h.arguments.inAngles.imp_right fun h => ⟨hkind, h⟩
  rw [declaration, (Kind.begins kind).countFrom_spaced regular hwords]
  exact Kind.countFrom_declaration h.head h.name.accepts hsep hspace hmark hfirst hhas hangles (inSquares_squares n)
    (List.cons_ne_nil ' ' marks) (wordNext_behind_spaced words) hrest

end Occurrence

section Count

def opening (words : List (List Char)) (head arguments : List Char) (n : Nat) (marks name : List Char) : List Char :=
  spaced words ++ (head ++ (arguments ++ (squares n ++ (' ' :: marks ++ name))))

private theorem declaration_eq : declaration words head arguments n marks name ending =
    opening words head arguments n marks name ++ ending := by
  simp [declaration, opening]

/-- The marks of a type and what stands between it and the name. -/
theorem not_mem_opening (h : Declared words head arguments marks name ending) {mark : Char}
    (hmark : identifier.isTail mark = false ∧ isSeparator mark = false ∧ mark ∉ ['<', '>', ','] ∧ mark ∉ ['[', ']']) :
    mark ∉ opening words head arguments n marks name := by
  obtain ⟨htail, hseparator, hangle, hsquare⟩ := hmark
  have hname {word : List Char} (hword : IsName word) : mark ∉ word := fun hmem =>
    absurd (hword.isWord mark hmem).1 (by simp [htail])
  have hspace : mark ≠ ' ' := by
    rintro rfl
    cases hseparator
  simp only [opening, List.mem_append, List.mem_cons, not_or]
  refine ⟨fun hmem => ?_, hname h.head, fun hmem => ?_, fun hmem => hsquare (mem_squares hmem),
    ⟨hspace, fun hmem => ?_⟩, hname h.name⟩
  · rcases mem_spaced hmem with ⟨word, hword, hmem⟩ | hx
    · exact hname (h.isName_of_modifier word hword) hmem
    · exact hspace hx
  · rcases h.arguments.mem hmem with hx | hx | hx
    · exact absurd hx (by simp [htail])
    · exact absurd (isSeparator_of_isBlank hx) (by simp [hseparator])
    · exact hangle hx
  · exact absurd (isSeparator_of_mem (h.marks mark hmem)) (by simp [hseparator])

private theorem Ending.not_mem (h : Ending ending) {mark : Char}
    (hmark : identifier.isTail mark = false ∧ mark ∉ ['=', ';', ' ']) : mark ∉ ending := by
  have hkind : mark ≠ '=' ∧ mark ≠ ';' ∧ mark ≠ ' ' := by
    simpa using hmark.2
  cases h with
  | plain => simp [hkind]
  | value hvalue =>
    have hmem : mark ∉ _ := fun hmem => absurd (hvalue.isWord mark hmem).1 (by simp [hmark.1])
    simp [hkind, hmem]

private theorem not_mem_declaration (h : Declared words head arguments marks name ending) {mark : Char}
    (hopening : identifier.isTail mark = false ∧ isSeparator mark = false ∧ mark ∉ ['<', '>', ','] ∧ mark ∉ ['[', ']'])
    (hending : mark ∉ ['=', ';', ' ']) : mark ∉ declaration words head arguments n marks name ending := by
  rw [declaration_eq, List.mem_append, not_or]
  exact ⟨not_mem_opening h hopening, h.ending.not_mem ⟨hopening.1, hending⟩⟩

/-- No arrow stands in a declaration: behind the name there is no angle bracket. -/
theorem arrowless_declaration (h : Declared words head arguments marks name ending) :
    Arrowless (declaration words head arguments n marks name ending) := by
  simp only [Arrowless, List.forall_mem_cons]
  refine ⟨fun hwithin => ?_, fun hwithin => ?_, List.forall_mem_nil _⟩
  · exact not_mem_declaration h (by decide) (by decide) (hwithin.subset (by simp : '-' ∈ ['-', '>']))
  · rw [declaration_eq] at hwithin
    have hending := Text.infix_of_infix_append (not_mem_opening h (by decide)) hwithin
    exact h.ending.not_mem (by decide) (hending.subset (by simp : '>' ∈ ['=', '>']))

/-- The families that need a bracket or an arrow find nothing in a declaration. -/
theorem countFrom_further (h : Declared words head arguments marks name ending) :
    ∀ family ∈ [methodParams, constructorParams, forBinder, resourceBinder, lambdaParams, lambdaParam],
      family.countFrom identifier [] (declaration words head arguments n marks name ending) = 0 := by
  have hbracket {family : Family} (hneeds : family.requires '(' = true) :
      family.countFrom identifier [] (declaration words head arguments n marks name ending) = 0 :=
    Family.countFrom_of_not_mem hneeds (not_mem_declaration h (by decide) (by decide))
  simp only [List.forall_mem_cons]
  exact ⟨hbracket rfl, hbracket rfl, hbracket rfl, hbracket rfl, hbracket rfl,
    (arrowless_declaration h).countFrom_eq_zero lambdaParam (by simp), List.forall_mem_nil _⟩

theorem exists_head_of_spaced (hwords : ∀ word ∈ words, IsName word) (hhead : IsName head) (rest : List Char) :
    ∃ c others, spaced words ++ (head ++ rest) = c :: others ∧ identifier.isHead c = true := by
  have hfirst {word : List Char} (hword : IsName word) (rest : List Char) :
      ∃ c others, word ++ rest = c :: others ∧ identifier.isHead c = true := by
    obtain ⟨c, others, rfl, hc, -⟩ := Identifier.exists_cons_of_accepts hword.accepts
    exact ⟨c, others ++ rest, rfl, hc⟩
  cases words with
  | nil => exact hfirst hhead rest
  | cons word words =>
    obtain ⟨c, others, heq, hc⟩ :=
      hfirst (hwords word (List.mem_cons_self ..)) (' ' :: (spaced words ++ (head ++ rest)))
    exact ⟨c, others, by rw [← heq]; simp [spaced], hc⟩

/-- A line that begins with a name is searched by all families. -/
theorem count_eq_total {line : List Char} (hfirst : ∃ c others, line = c :: others ∧ identifier.isHead c = true)
    (hlast : ∃ start last, line = start ++ [last] ∧ isBlank last = false) :
    typed.count line = total (fun family => family.countFrom identifier [] line) typed.families := by
  obtain ⟨c, others, rfl, hc⟩ := hfirst
  have htrim : Text.trim (c :: others) = c :: others :=
    Text.trim_between ⟨c, others, rfl, regular.not_blank (regular.tail_of_head hc)⟩ hlast
  have hletter : isPunctuation [c] = false := by
    have hmarks : ∀ c ∈ ['\x7b', '\x7d', '(', ')', ';', ',', '[', ']'], identifier.isHead c = false := by decide
    rw [← Bool.not_eq_true]
    intro hpunctuation
    rw [hmarks c (by simpa [isPunctuation] using hpunctuation)] at hc
    cases hc
  exact Heuristic.count_eq_total [] htrim (List.mem_cons_self ..) hletter (List.forall_mem_nil _)

/-- Only the families for the kinds of types count in a declaration. -/
theorem count_declaration (h : Declared words head arguments marks name ending) :
    typed.count (declaration words head arguments n marks name ending) =
      total (fun kind : Kind =>
        kind.family.countFrom identifier [] (declaration words head arguments n marks name ending))
        [.primitive, .known, .other] := by
  obtain ⟨start, hend⟩ : ∃ start, ending = start ++ [';'] := by
    cases h.ending with
    | plain => exact ⟨[], rfl⟩
    | @value value _ => exact ⟨' ' :: '=' :: ' ' :: value, rfl⟩
  have hlast : declaration words head arguments n marks name ending =
      opening words head arguments n marks name ++ start ++ [';'] := by
    rw [declaration_eq, hend, List.append_assoc]
  have hfurther := countFrom_further (n := n) h
  simp only [List.forall_mem_cons] at hfurther
  have hcount : typed.count (declaration words head arguments n marks name ending) = total _ typed.families :=
    count_eq_total (exists_head_of_spaced h.isName_of_modifier h.head _) ⟨_, ';', hlast, by decide⟩
  rw [hcount]
  simp only [typed, total, List.foldr_cons, List.foldr_nil, hfurther]
  rfl

private theorem closes (kind : Kind) : ∀ mark ∈ [',', '>', '=', ';'], identifier.Closes kind.marks mark := by
  cases kind <;> decide

private theorem countFrom_kind (h : Declared words head arguments marks name ending) (hhas : kind.Has head)
    (hprimitive : kind = .primitive → arguments = []) (hknown : kind = .known → marks = []) (kind' : Kind) :
    kind'.family.countFrom identifier [] (declaration words head arguments n marks name ending) =
      if kind' = kind then 1 else 0 := by
  split
  · rename_i hkind
    rw [hkind]
    exact countFrom_own h hhas hprimitive hknown
  · rename_i hkind
    exact countFrom_declaration_eq_zero (Kind.begins kind') (closes kind') (fun _ => not_has_of_mem_modifiers) h
      fun hhas' => absurd (hhas'.unique hhas) hkind

private theorem count_of_kind (h : Declared words head arguments marks name ending) (hhas : kind.Has head)
    (hprimitive : kind = .primitive → arguments = []) (hknown : kind = .known → marks = []) :
    typed.count (declaration words head arguments n marks name ending) = 1 := by
  rw [count_declaration h]
  simp only [total, List.foldr_cons, List.foldr_nil, countFrom_kind h hhas hprimitive hknown]
  cases kind <;> rfl

/-- A plain declaration is found once, by the family for the kind of its type alone. -/
theorem declared_by_one_family (h : Declared words head arguments [] name ending) (hhas : kind.Has head)
    (hprimitive : kind = .primitive → arguments = []) (n : Nat) :
    let line := declaration words head arguments n [] name ending
    typed.count line = 1 ∧ kind.family.count typed.identifier line = 1 ∧
      ∀ family ∈ typed.families, family.name ≠ kind.family.name → family.count typed.identifier line = 0 := by
  intro line
  have hknown : kind = .known → ([] : List Char) = [] := fun _ => rfl
  have hother {kind' : Kind} (hname : kind'.family.name ≠ kind.family.name) :
      kind'.family.countFrom identifier [] (declaration words head arguments n [] name ending) = 0 := by
    rw [countFrom_kind h hhas hprimitive hknown, if_neg]
    rintro rfl
    exact hname rfl
  refine ⟨count_of_kind h hhas hprimitive hknown, countFrom_own h hhas hprimitive hknown, ?_⟩
  have hfurther := countFrom_further (n := n) h
  simp only [List.forall_mem_cons] at hfurther
  obtain ⟨hmethod, hconstructor, hfor, hresource, hlambdas, hlambda, -⟩ := hfurther
  simp only [typed, List.forall_mem_cons]
  exact ⟨@hother .primitive, @hother .known, @hother .other, fun _ => hmethod, fun _ => hconstructor, fun _ => hfor,
    fun _ => hresource, fun _ => hlambdas, fun _ => hlambda, List.forall_mem_nil _⟩

/-- A name that begins with the name of a standard type, with such types as its arguments and as the name. -/
theorem listing_declared_once :
    let line := "private static Listing<Set, Task>[] String = 10;".toList
    typed.count line = 1 ∧ Kind.other.family.count typed.identifier line = 1 ∧
      ∀ family ∈ typed.families, family.name ≠ Kind.other.family.name → family.count typed.identifier line = 0 := by
  have hnames : ∀ name ∈ ["Set".toList, "Task".toList], IsTypeName name := by
    simp only [List.forall_mem_cons]
    exact ⟨⟨by decide, by decide⟩, ⟨by decide, by decide⟩, List.forall_mem_nil _⟩
  have hlist : Listed ',' ["Set".toList, "Task".toList] "Set, Task".toList :=
    .more "Set".toList (List.forall_mem_nil _) (by decide : ∀ x ∈ [' '], isBlank x = true) (.one "Task".toList)
  have hending : Ending " = 10;".toList := @Ending.value "10".toList (.inr ⟨List.cons_ne_nil _ _, by decide⟩)
  have hdeclared : Declared ["private".toList, "static".toList] "Listing".toList "<Set, Task>".toList [] "String".toList
      " = 10;".toList :=
    ⟨by decide, by decide, .listed (List.cons_ne_nil _ _) hnames hlist, List.forall_mem_nil _, by decide, hending⟩
  have hhas : Kind.other.Has "Listing".toList := ⟨by decide, by decide⟩
  exact declared_by_one_family hdeclared hhas (fun h => by cases h) 1

/-- Behind a pointer mark, a type of the standard libraries is not found. -/
theorem count_known_pointer (h : Declared words head [] marks name ending) (hhead : head ∈ catalogue)
    (hne : marks ≠ []) : typed.count (declaration words head [] 0 marks name ending) = 0 := by
  have hzero (kind : Kind) :
      kind.family.countFrom identifier [] (declaration words head [] 0 marks name ending) = 0 := by
    refine countFrom_declaration_eq_zero (Kind.begins kind) (closes kind) (fun _ => not_has_of_mem_modifiers) h
      fun hhas => ?_
    obtain rfl : kind = .known := hhas.unique (show Kind.known.Has head from hhead)
    obtain ⟨mark, marks, rfl⟩ := List.exists_cons_of_ne_nil hne
    have hcloses : ∀ mark ∈ ['*', '&'], identifier.Closes Kind.known.marks mark := by decide
    have hspace : ∀ x ∈ [' '], isBlank x = true := by decide
    have hnot : ¬identifier.Opens Kind.known.marks ([' '] ++ mark :: (marks ++ (name ++ ending))) :=
      (hcloses mark (h.marks mark (List.mem_cons_self ..))).not_opens regular hspace
    exact hnot
  rw [count_declaration h]
  simp only [total, List.foldr_cons, List.foldr_nil, hzero]

/-- Pointer and reference marks make no difference but for the types of the standard libraries, of which no pointer
is found. -/
theorem count_pointer (hhead : IsName head) (hhas : kind.Has head) (hname : IsName name) (hvalue : IsName value)
    (hmarks : ∀ x ∈ marks, x ∈ ['*', '&']) (hne : marks ≠ []) :
    typed.count (head ++ ' ' :: (name ++ " = ".toList ++ value ++ [';'])) = 1 ∧
      typed.count (head ++ ' ' :: (marks ++ name ++ " = ".toList ++ value ++ [';'])) =
        if head ∈ catalogue then 0 else 1 := by
  have hdeclared {marks : List Char} (hmarks : ∀ x ∈ marks, x ∈ ['*', '&']) :
      Declared [] head [] marks name (' ' :: '=' :: ' ' :: (value ++ [';'])) :=
    ⟨List.forall_mem_nil _, hhead, .none, hmarks, hname, .value (.inl hvalue)⟩
  have hplain : head ++ ' ' :: (name ++ " = ".toList ++ value ++ [';']) =
      declaration [] head [] 0 [] name (' ' :: '=' :: ' ' :: (value ++ [';'])) := by
    simp [declaration, spaced, squares]
  have hpointer : head ++ ' ' :: (marks ++ name ++ " = ".toList ++ value ++ [';']) =
      declaration [] head [] 0 marks name (' ' :: '=' :: ' ' :: (value ++ [';'])) := by
    simp [declaration, spaced, squares]
  rw [hplain, hpointer]
  refine ⟨count_of_kind (hdeclared (List.forall_mem_nil _)) hhas (fun _ => rfl) fun _ => rfl, ?_⟩
  split
  · rename_i hknown
    exact count_known_pointer (hdeclared hmarks) hknown hne
  · rename_i hunknown
    refine count_of_kind (hdeclared hmarks) hhas (fun _ => rfl) ?_
    rintro rfl
    exact absurd hhas hunknown

theorem count_pointer_of_two_types :
    (typed.count "char x = v;".toList = 1 ∧ typed.count "char **x = v;".toList = 1) ∧
      typed.count "String x = v;".toList = 1 ∧ typed.count "String &x = v;".toList = 0 := by
  have hprimitive : "char".toList ∈ primitives := by decide
  have hunknown : "char".toList ∉ catalogue := by decide
  have hknown : "String".toList ∈ catalogue := by decide
  have hchar := @count_pointer .primitive "char".toList "**".toList ['x'] ['v'] (by decide) hprimitive (by decide)
    (by decide) (by decide) (List.cons_ne_nil _ _)
  have hstring := @count_pointer .known "String".toList "&".toList ['x'] ['v'] (by decide) hknown (by decide)
    (by decide) (by decide) (List.cons_ne_nil _ _)
  rw [if_neg hunknown] at hchar
  rw [if_pos hknown] at hstring
  exact ⟨hchar, hstring⟩

/-- A pointer to a type of the standard libraries is not found as the plain declaration is. -/
theorem pointer_counts_differ : typed.count "String *x = v;".toList ≠ typed.count "String x = v;".toList := by
  decide

end Count

end LineCensus.Declaration.Typed
