import LineCensus.Declaration.Typed
import LineCensus.Proofs.IndentedFamilies
import LineCensus.Proofs.ScriptFamilies
import LineCensus.Proofs.WordScan

/-! The families of the languages with static types that declare one variable behind its type, a family for each
kind of type: what stands for a type, and where a declaration is found and where none is. -/
namespace LineCensus.Declaration.Typed

open Pattern hiding requires mem_of_requires
open Text (Listed isBlank isWordChar stretch_unique stretch_cons_unique stretch_end_unique)

variable {before lead bound tail rest after text word name front back space : List Char}
  {names : List (List Char)} {mark : Char}

theorem regular : identifier.Regular :=
  Script.regular

section Names

structure IsName (name : List Char) : Prop where
  accepts : identifier.accepts name = true
  no_dollar : '$' ∉ name

theorem isWordChar_of_isTail {c : Char} (h : identifier.isTail c = true) (hdollar : c ≠ '$') : isWordChar c = true := by
  have htail : Indented.identifier.isTail c = true := by
    simpa [identifier, Script.identifier, Indented.identifier, hdollar] using h
  exact (Indented.isWordChar_of_isTail htail).1

theorem IsName.isWord (h : IsName name) : identifier.IsWord name := by
  intro x hx
  have htail := regular.isTail_of_mem h.accepts x hx
  refine ⟨htail, isWordChar_of_isTail htail ?_⟩
  rintro rfl
  exact h.no_dollar hx

theorem IsName.ne_nil (h : IsName name) : name ≠ [] := by
  obtain ⟨c, others, rfl, -⟩ := Identifier.exists_cons_of_accepts h.accepts
  exact List.cons_ne_nil c others

theorem IsName.wordNext (h : IsName name) (rest : List Char) : wordNext (name ++ rest) = true :=
  wordNext_append_of_word h.ne_nil (fun x hx => (h.isWord x hx).2) rest

instance (name : List Char) : Decidable (IsName name) :=
  decidable_of_iff (identifier.accepts name = true ∧ '$' ∉ name) ⟨fun h => ⟨h.1, h.2⟩, fun h => ⟨h.1, h.2⟩⟩

def primitives : List (List Char) :=
  primitiveNames.map String.toList

def catalogue : List (List Char) :=
  knownNames.map String.toList

def startsCapital : List Char → Bool
  | [] => false
  | c :: _ => 'A' ≤ c && c ≤ 'Z'

theorem wordNext_of_startsCapital (h : startsCapital word = true) (rest : List Char) :
    wordNext (word ++ rest) = true := by
  cases word with
  | nil => cases h
  | cons c word =>
    have htail : identifier.isTail c = true := by
      simp [identifier, Script.identifier, Text.isLetter, show ('A' ≤ c && c ≤ 'Z') = true from h]
    refine isWordChar_of_isTail htail ?_
    rintro rfl
    cases h

theorem isName_of_mem_primitives (h : word ∈ primitives) : IsName word ∧ startsCapital word = false := by
  revert h word
  decide

theorem isName_of_mem_catalogue (h : word ∈ catalogue) : IsName word ∧ startsCapital word = true := by
  revert h word
  decide

end Names

section Types

def InAngles (text : List Char) : Prop :=
  ∃ space inner closing, (∀ x ∈ space, isBlank x = true) ∧ (∀ x ∈ inner, x ∉ [';', '=', '(', ')', '\x7b', '\x7d']) ∧
    closing ≠ [] ∧ (∀ x ∈ closing, x ∈ ['>']) ∧ text = space ++ '<' :: (inner ++ closing)

inductive InSquares : List Char → Prop where
  | nil : InSquares []
  | more {front back text : List Char} (hfront : ∀ x ∈ front, isBlank x = true) (hback : ∀ x ∈ back, isBlank x = true)
    (h : InSquares text) : InSquares (front ++ '[' :: (back ++ ']' :: text))

def isSeparator (c : Char) : Bool :=
  isBlank c || c == '*' || c == '&'

theorem isSeparator_of_isBlank {c : Char} (h : isBlank c = true) : isSeparator c = true := by
  simp [isSeparator, h]

theorem not_separator_of_isTail {c : Char} (h : identifier.isTail c = true) : isSeparator c = false := by
  have hblank : isBlank c = false := regular.not_blank h
  simp only [isSeparator, hblank, Bool.false_or, Bool.or_eq_false_iff, beq_eq_false_iff_ne]
  constructor <;> (rintro rfl; cases h)

theorem spells_typeArguments : typeArguments.Spells before text rest ↔ text = [] ∨ InAngles text := by
  change (opt (blanks ++ lit "<" ++ fewest (outside [';', '=', '(', ')', '\x7b', '\x7d']) ++
    oneOrMore (among ['>']))).Spells before text rest ↔ _
  rw [spells_opt, or_comm]
  refine or_congr_right ?_
  simp only [spells_append, spells_blanks, spells_lit, spells_fewest, spells_oneOrMore, among_eq_true_iff,
    outside_eq_true_iff]
  constructor
  · rintro ⟨_, closing, rfl, ⟨_, inner, rfl, ⟨space, _, rfl, hspace, rfl⟩, hinner⟩, hne, hclosing⟩
    exact ⟨space, inner, closing, hspace, hinner, hne, hclosing, by simp⟩
  · rintro ⟨space, inner, closing, hspace, hinner, hne, hclosing, rfl⟩
    exact ⟨_, closing, by simp, ⟨_, inner, rfl, ⟨space, _, rfl, hspace, rfl⟩, hinner⟩, hne, hclosing⟩

private theorem spells_square : (blanks ++ lit "[" ++ blanks ++ lit "]").Spells before text rest ↔
    ∃ front back, (∀ x ∈ front, isBlank x = true) ∧ (∀ x ∈ back, isBlank x = true) ∧
      text = front ++ '[' :: (back ++ [']']) := by
  simp only [spells_append, spells_blanks, spells_lit]
  constructor
  · rintro ⟨_, _, rfl, ⟨_, back, rfl, ⟨front, _, rfl, hfront, rfl⟩, hback⟩, rfl⟩
    exact ⟨front, back, hfront, hback, by simp⟩
  · rintro ⟨front, back, hfront, hback, rfl⟩
    exact ⟨_, _, by simp, ⟨_, back, rfl, ⟨front, _, rfl, hfront, rfl⟩, hback⟩, rfl⟩

theorem spells_arrayMarks : arrayMarks.Spells before text rest ↔ InSquares text := by
  have hne {before after : List Char} : ¬(blanks ++ lit "[" ++ blanks ++ lit "]").Spells before [] after := by
    rw [spells_square]
    rintro ⟨front, back, -, -, h⟩
    simp at h
  change (star (blanks ++ lit "[" ++ blanks ++ lit "]")).Spells before text rest ↔ _
  rw [spells_star hne]
  constructor
  · intro h
    induction h with
    | nil before => exact .nil
    | cons hfirst _ ih =>
      obtain ⟨front, back, hfront, hback, rfl⟩ := spells_square.mp hfirst
      simpa using InSquares.more hfront hback ih
  · intro h
    induction h generalizing before with
    | nil => exact .nil before
    | @more front back text hfront hback _ ih =>
      have hrepeated :=
        Repeated.cons (spells_square.mpr ⟨front, back, hfront, hback, rfl⟩) (ih : Repeated _ _ (_ ++ before) _)
      simpa using hrepeated

theorem spells_separator : separator.Spells before text rest ↔ text ≠ [] ∧ ∀ x ∈ text, isSeparator x = true :=
  spells_oneOrMore

theorem spells_capitalized : capitalized.Spells before text rest ↔
    startsCapital text = true ∧ identifier.accepts text = true := by
  change (one (fun c => 'A' ≤ c && c ≤ 'Z') ++ many identifier.isTail).Spells before text rest ↔ _
  have hhead {c : Char} (h : ('A' ≤ c && c ≤ 'Z') = true) : identifier.isHead c = true := by
    simp [identifier, Script.identifier, Text.isLetter, h]
  simp only [spells_append, spells_one, spells_many]
  constructor
  · rintro ⟨_, more, rfl, ⟨c, hc, rfl⟩, hmore⟩
    exact ⟨hc, Bool.and_eq_true_iff.mpr ⟨hhead hc, List.all_eq_true.mpr hmore⟩⟩
  · rintro ⟨hcapital, haccepts⟩
    obtain ⟨c, more, rfl, -, hmore⟩ := Identifier.exists_cons_of_accepts haccepts
    exact ⟨[c], more, rfl, ⟨c, hcapital, rfl⟩, hmore⟩

private theorem isWordChar_of_mem_catalogue (h : word ∈ catalogue) : word ≠ [] ∧ ∀ x ∈ word, isWordChar x = true := by
  have hname := (isName_of_mem_catalogue h).1
  exact ⟨hname.ne_nil, fun x hx => (hname.isWord x hx).2⟩

end Types

section Kinds

inductive Kind where
  | primitive
  | known
  | other
deriving DecidableEq

namespace Kind

variable {kind : Kind}

def family : Kind → Family
  | primitive => Typed.primitive
  | known => Typed.known
  | other => Typed.generic

def Has : Kind → List Char → Prop
  | primitive, word => word ∈ primitives
  | known, word => word ∈ catalogue
  | other, word => startsCapital word = true ∧ word ∉ catalogue

def marks : Kind → List Char
  | primitive => ['[', '*', '&']
  | known => ['<', '[']
  | other => ['<', '[', '*', '&']

def separates : Kind → Char → Bool
  | primitive => isSeparator
  | known => isBlank
  | other => isSeparator

def naming : Kind → Pattern
  | primitive => primitiveType
  | known => knownType
  | other => notAhead (knownType ++ wordEdge) ++ capitalized

def joint : Kind → Pattern
  | primitive => arrayMarks ++ separator
  | known => typeArguments ++ (arrayMarks ++ gap)
  | other => typeArguments ++ (arrayMarks ++ separator)

private theorem family_lead : kind.family.lead = wordEdge ++ (kind.naming ++ kind.joint) := by
  cases kind <;> rfl

private theorem family_bound : kind.family.bound = identifier.pattern := by
  cases kind <;> rfl

theorem marks_eq (hmark : mark ∈ kind.marks) :
    isWordChar mark = false ∧ identifier.isTail mark = false ∧ mark ∉ ['=', ';'] := by
  revert mark
  cases kind <;> decide

private theorem isSeparator_of_separates {c : Char} (h : kind.separates c = true) : isSeparator c = true := by
  cases kind with
  | known => exact isSeparator_of_isBlank h
  | primitive | other => exact h

/-- A word names types of one kind only. -/
theorem Has.unique {kind' : Kind} (h : kind.Has word) (h' : kind'.Has word) : kind = kind' := by
  have hprimitive (h : word ∈ primitives) : startsCapital word = false := (isName_of_mem_primitives h).2
  have hknown (h : word ∈ catalogue) : startsCapital word = true := (isName_of_mem_catalogue h).2
  cases kind <;> cases kind' <;> simp only [Has] at h h' <;> grind

theorem spells_joint : kind.joint.Spells before text rest ↔ ∃ arguments arrays sep,
    text = arguments ++ (arrays ++ sep) ∧ (arguments = [] ∨ kind ≠ .primitive ∧ InAngles arguments) ∧
      InSquares arrays ∧ sep ≠ [] ∧ ∀ x ∈ sep, kind.separates x = true := by
  have hback {before text : List Char} : (arrayMarks ++ oneOrMore kind.separates).Spells before text rest ↔
      ∃ arrays sep, text = arrays ++ sep ∧ InSquares arrays ∧ sep ≠ [] ∧ ∀ x ∈ sep, kind.separates x = true := by
    simp only [spells_append, spells_arrayMarks, spells_oneOrMore]
  have hfull {before text : List Char} :
      (typeArguments ++ (arrayMarks ++ oneOrMore kind.separates)).Spells before text rest ↔ ∃ arguments arrays sep,
        text = arguments ++ (arrays ++ sep) ∧ (arguments = [] ∨ InAngles arguments) ∧
          InSquares arrays ∧ sep ≠ [] ∧ ∀ x ∈ sep, kind.separates x = true := by
    rw [spells_append]
    simp only [spells_typeArguments, hback]
    constructor
    · rintro ⟨arguments, _, rfl, harguments, arrays, sep, rfl, h⟩
      exact ⟨arguments, arrays, sep, rfl, harguments, h⟩
    · rintro ⟨arguments, arrays, sep, rfl, harguments, h⟩
      exact ⟨arguments, _, rfl, harguments, arrays, sep, rfl, h⟩
  cases kind with
  | primitive =>
    refine hback.trans ?_
    simp
  | known | other =>
    refine hfull.trans ?_
    simp

/-- The word that a family takes for a type is whole, if no word character stands behind it. It may begin with a word of
the catalogue, since the lookahead compares whole words. -/
theorem has_of_spells_naming (h : kind.naming.Spells before word rest) (hrest : wordNext rest = false) :
    kind.Has word ∧ identifier.accepts word = true := by
  cases kind with
  | primitive =>
    have hword : word ∈ primitives := spells_anyWord.mp h
    exact ⟨hword, (isName_of_mem_primitives hword).1.accepts⟩
  | known =>
    have hword : word ∈ catalogue := spells_anyWord.mp h
    exact ⟨hword, (isName_of_mem_catalogue hword).1.accepts⟩
  | other =>
    obtain ⟨_, word, rfl, hnone, hword⟩ := spells_append.mp h
    obtain ⟨rfl, hahead⟩ := spells_notAhead.mp hnone
    obtain ⟨hcapital, haccepts⟩ := spells_capitalized.mp hword
    refine ⟨⟨hcapital, fun hknown => hahead ⟨word, rest, rfl, ?_⟩⟩, haccepts⟩
    exact (spells_anyWord_edge fun _ => isWordChar_of_mem_catalogue).mpr ⟨hknown, hrest⟩

private theorem spells_naming (hname : IsName word) (hhas : kind.Has word) (hrest : wordNext rest = false) :
    kind.naming.Spells before word rest := by
  cases kind with
  | primitive | known => exact spells_anyWord.mpr hhas
  | other =>
    obtain ⟨hcapital, hknown⟩ := hhas
    exact spells_append.mpr ⟨[], word, rfl, spells_notAhead_anyWord (fun _ => isWordChar_of_mem_catalogue)
      (fun x hx => (hname.isWord x hx).2) hrest hknown, spells_capitalized.mpr ⟨hcapital, hname.accepts⟩⟩

section Opening

private theorem opens_separated {sep : List Char} (hne : sep ≠ []) (hsep : ∀ x ∈ sep, kind.separates x = true)
    (hname : identifier.accepts name = true) : identifier.Opens kind.marks (sep ++ (name ++ rest)) := by
  obtain ⟨c, others, rfl, hc, -⟩ := Identifier.exists_cons_of_accepts hname
  obtain ⟨first, back, rfl, hfirst, hback⟩ : ∃ first back, sep = first ++ back ∧ (∀ x ∈ first, isBlank x = true) ∧
      ∀ x ∈ back.head?, isBlank x = false := by
    refine ⟨_, _, List.takeWhile_append_dropWhile.symm, fun x hx => List.mem_takeWhile_imp hx, fun x hx => ?_⟩
    have hstop := List.head?_dropWhile_not isBlank sep
    rw [Option.mem_def.mp hx] at hstop
    exact hstop
  cases back with
  | nil =>
    rw [List.append_nil] at hne ⊢
    exact ⟨first, c, others ++ rest, rfl, hfirst, regular.not_blank (regular.tail_of_head hc), .inr ⟨hne, hc⟩⟩
  | cons mark more =>
    have hblank : isBlank mark = false := hback mark rfl
    refine ⟨first, mark, more ++ (c :: others ++ rest), by simp, hfirst, hblank, .inl ?_⟩
    have hmark := hsep mark (by simp)
    cases kind with
    | known => exact absurd hmark (Bool.eq_false_iff.mp hblank)
    | primitive | other =>
      simp only [separates, isSeparator, hblank, Bool.false_or, Bool.or_eq_true, beq_iff_eq] at hmark
      rcases hmark with rfl | rfl <;> decide

theorem opens_joint (h : kind.joint.Spells before text (name ++ rest)) (hname : identifier.accepts name = true) :
    identifier.Opens kind.marks (text ++ (name ++ rest)) := by
  obtain ⟨arguments, arrays, sep, rfl, harguments, harrays, hne, hsep⟩ := spells_joint.mp h
  have hsquare : '[' ∈ kind.marks := by
    cases kind <;> decide
  have hlast : identifier.Opens kind.marks (sep ++ (name ++ rest)) := opens_separated hne hsep hname
  have hbehind : identifier.Opens kind.marks (arrays ++ (sep ++ (name ++ rest))) := by
    cases harrays with
    | nil => exact hlast
    | @more front back text hfront _ _ =>
      exact ⟨front, '[', back ++ ']' :: (text ++ (sep ++ (name ++ rest))), by simp, hfront, by decide, .inl hsquare⟩
  rw [List.append_assoc, List.append_assoc]
  rcases harguments with rfl | ⟨hkind, space, inner, closing, hspace, -, -, -, rfl⟩
  · exact hbehind
  · refine ⟨space, '<', inner ++ (closing ++ (arrays ++ (sep ++ (name ++ rest)))), by simp, hspace, by decide, .inl ?_⟩
    cases kind with
    | primitive => exact absurd rfl hkind
    | known | other => decide

private theorem wordNext_of_opens (h : identifier.Opens kind.marks text) : wordNext text = false := by
  obtain ⟨space, c, more, rfl, hspace, -, hc⟩ := h
  cases space with
  | cons x space => exact Text.isWordChar_of_isBlank (hspace x (List.mem_cons_self ..))
  | nil => exact (marks_eq (hc.resolve_right fun h => h.1 rfl)).1

private theorem wordNext_of_spells_naming (h : kind.naming.Spells before word after) (rest : List Char) :
    wordNext (word ++ rest) = true := by
  cases kind with
  | primitive => exact (isName_of_mem_primitives (spells_anyWord.mp h)).1.wordNext rest
  | known => exact (isName_of_mem_catalogue (spells_anyWord.mp h)).1.wordNext rest
  | other =>
    obtain ⟨_, word, rfl, hnone, hword⟩ := spells_append.mp h
    obtain ⟨rfl, -⟩ := spells_notAhead.mp hnone
    exact wordNext_of_startsCapital (spells_capitalized.mp hword).1 rest

private theorem spells_lead : kind.family.lead.Spells before text rest ↔ wordNext before = false ∧ ∃ word joint,
    text = word ++ joint ∧ kind.naming.Spells before word (joint ++ rest) ∧
      kind.joint.Spells (word.reverse ++ before) joint rest := by
  rw [family_lead, spells_wordEdge_append, spells_append]
  intro before text after h
  obtain ⟨word, joint, rfl, hword, -⟩ := spells_append.mp h
  rw [List.append_assoc]
  exact wordNext_of_spells_naming hword _

private theorem accepts_of_spells (h : kind.family.Spells before lead bound tail after) :
    identifier.accepts bound = true := by
  have hbound := h.takes_bound
  rw [family_bound] at hbound
  exact Identifier.spells_pattern.mp hbound

/-- What a family finds begins with a type of its kind. -/
theorem exists_of_spells (h : kind.family.Spells before lead bound tail after) :
    wordNext before = false ∧ ∃ word joint, lead = word ++ joint ∧ kind.Has word ∧ identifier.accepts word = true ∧
      kind.joint.Spells (word.reverse ++ before) joint (bound ++ (tail ++ after)) := by
  obtain ⟨hbefore, word, joint, rfl, hword, hjoint⟩ := spells_lead.mp h.takes_lead
  obtain ⟨hhas, haccepts⟩ :=
    has_of_spells_naming hword (wordNext_of_opens (opens_joint hjoint (accepts_of_spells h)))
  exact ⟨hbefore, word, joint, rfl, hhas, haccepts, hjoint⟩

theorem begins (kind : Kind) : kind.family.Begins identifier kind.Has kind.marks where
  takes := by
    intro before lead bound tail after h
    obtain ⟨hbefore, word, joint, rfl, hhas, haccepts, hjoint⟩ := exists_of_spells h
    exact ⟨hbefore, word, _, List.append_assoc .., haccepts, hhas, opens_joint hjoint (accepts_of_spells h)⟩
  not_tail := fun c hc => (marks_eq hc).2.1

end Opening

section Occurrences

private theorem spells_declarationEnd : declarationEnd.Spells before text rest ↔
    ∃ space mark, (∀ x ∈ space, isBlank x = true) ∧ mark ∈ ['=', ';'] ∧ text = space ++ [mark] := by
  simp only [declarationEnd, spells_append, spells_blanks, spells_one, among_eq_true_iff]
  constructor
  · rintro ⟨space, _, rfl, hspace, mark, hmark, rfl⟩
    exact ⟨space, mark, hspace, hmark, rfl⟩
  · rintro ⟨space, mark, hspace, hmark, rfl⟩
    exact ⟨space, _, rfl, hspace, mark, hmark, rfl⟩

private theorem exists_concat_of_spells_tail (h : kind.family.tail.Spells before text rest) :
    ∃ start mark, text = start ++ [mark] ∧ mark ∈ ['=', ';'] := by
  cases kind with
  | known | other =>
    obtain ⟨space, mark, -, hmark, rfl⟩ := spells_declarationEnd.mp h
    exact ⟨space, mark, rfl, hmark⟩
  | primitive =>
    obtain ⟨arrays, last, rfl, -, hlast⟩ := spells_append.mp h
    obtain ⟨space, mark, -, hmark, rfl⟩ := spells_declarationEnd.mp hlast
    exact ⟨arrays ++ space, mark, (List.append_assoc ..).symm, hmark⟩

theorem countFrom_eq_zero_of_not_mem (kind : Kind) (h : ∀ x ∈ ['=', ';'], x ∉ text) :
    kind.family.countFrom identifier before text = 0 := by
  refine Family.countFrom_eq_zero fun passed lead bound tail after htext hspells => ?_
  obtain ⟨start, mark, rfl, hmark⟩ := exists_concat_of_spells_tail hspells.takes_tail
  exact h mark hmark (by simp [htext])

private theorem spells_tail (kind : Kind) (hspace : ∀ x ∈ space, isBlank x = true) (hmark : mark ∈ ['=', ';']) :
    kind.family.tail.Spells before (space ++ [mark]) rest := by
  have hend {before : List Char} : declarationEnd.Spells before (space ++ [mark]) rest :=
    spells_declarationEnd.mpr ⟨space, mark, hspace, hmark, rfl⟩
  cases kind with
  | known | other => exact hend
  | primitive =>
    refine spells_append.mpr ⟨[], _, rfl, (spells_star fun h => ?_).mpr (.nil _), hend⟩
    cases Pattern.mem_of_requires (rfl : Pattern.requires '[' _ = true) h

/-- Behind the first character that begins a name there is nothing that separates a type from one. -/
def Unseparated (text : List Char) : Prop :=
  ∀ front c back, text = front ++ c :: back → identifier.isHead c = true → ∀ x ∈ back, isSeparator x = false

private theorem Unseparated.of_suffix (h : Unseparated text) (hsuffix : after <:+ text) : Unseparated after := by
  rintro front c back rfl
  obtain ⟨start, rfl⟩ := hsuffix
  exact h (start ++ front) c back (List.append_assoc ..).symm

private theorem Unseparated.countFrom_eq_zero (h : Unseparated text) :
    kind.family.countFrom identifier before text = 0 := by
  refine Family.countFrom_eq_zero fun passed lead bound tail after htext hspells => ?_
  obtain ⟨-, word, joint, rfl, -, haccepts, hjoint⟩ := exists_of_spells hspells
  obtain ⟨c, others, rfl, hc, -⟩ := Identifier.exists_cons_of_accepts haccepts
  obtain ⟨arguments, arrays, sep, rfl, -, -, hne, hsep⟩ := spells_joint.mp hjoint
  obtain ⟨x, sep, rfl⟩ := List.exists_cons_of_ne_nil hne
  have hx := isSeparator_of_separates (hsep x (List.mem_cons_self ..))
  rw [h passed c _ htext hc x (by simp)] at hx
  cases hx

section Declarations

variable {arguments arrays sep : List Char} (hword : IsName word) (hname : identifier.accepts name = true)
  (hsep : ∀ x ∈ sep, kind.separates x = true) (hspace : ∀ x ∈ space, isBlank x = true) (hmark : mark ∈ ['=', ';'])
  (hfirst : ∀ x ∈ arguments ++ arrays, x ∉ ['=', ';'])
include hword hname hsep hspace hmark hfirst

/-- No end of a declaration stands in front of the first one. -/
theorem not_mem_before_end : mark ∉ word ++ (arguments ++ (arrays ++ (sep ++ (name ++ space)))) := by
  have hkind : ∀ x ∈ ['=', ';'], identifier.isTail x = false ∧ isSeparator x = false := by decide
  obtain ⟨htail, hseparator⟩ := hkind mark hmark
  simp only [List.mem_append]
  rintro (hmem | hmem | hmem | hmem | hmem | hmem)
  · exact absurd (regular.isTail_of_mem hword.accepts _ hmem) (by simp [htail])
  · exact hfirst mark (List.mem_append_left _ hmem) hmark
  · exact hfirst mark (List.mem_append_right _ hmem) hmark
  · exact absurd (isSeparator_of_separates (hsep _ hmem)) (by simp [hseparator])
  · exact absurd (regular.isTail_of_mem hname _ hmem) (by simp [htail])
  · exact absurd (isSeparator_of_isBlank (hspace _ hmem)) (by simp [hseparator])

/-- A type, what stands between it and the name, the name and the end of the declaration are found as one declaration.
Array brackets may be taken in several ways, and each of them ends with an end of a declaration. -/
theorem countFrom_declaration (hhas : kind.Has word)
    (harguments : arguments = [] ∨ kind ≠ .primitive ∧ InAngles arguments) (harrays : InSquares arrays)
    (hne : sep ≠ []) (hbefore : wordNext before = false) (hrest : Unseparated rest) :
    kind.family.countFrom identifier before
      (word ++ (arguments ++ (arrays ++ (sep ++ (name ++ (space ++ mark :: rest)))))) = 1 := by
  have hjoint : kind.joint.Spells (word.reverse ++ before) (arguments ++ (arrays ++ sep))
      (name ++ ((space ++ [mark]) ++ rest)) :=
    spells_joint.mpr ⟨arguments, arrays, sep, rfl, harguments, harrays, hne, hsep⟩
  have hspells : kind.family.Spells before (word ++ (arguments ++ (arrays ++ sep))) name (space ++ [mark]) rest := by
    refine ⟨spells_lead.mpr ⟨hbefore, word, _, rfl, ?_, hjoint⟩, ?_, spells_tail kind hspace hmark⟩
    · exact spells_naming hword hhas (wordNext_of_opens (opens_joint hjoint hname))
    · rw [family_bound]
      exact Identifier.spells_pattern.mpr hname
  have hsplit : word ++ (arguments ++ (arrays ++ (sep ++ (name ++ (space ++ mark :: rest))))) =
      (word ++ (arguments ++ (arrays ++ sep))) ++ (name ++ ((space ++ [mark]) ++ rest)) := by
    simp
  rw [hsplit]
  refine Family.countFrom_of_single (by cases kind <;> rfl) hspells ?_
  intro lead' bound' tail' after' heq hother
  refine ⟨?_, fun before => (hrest.of_suffix ?_).countFrom_eq_zero⟩
  · rintro rfl
    cases accepts_of_spells hother
  · obtain ⟨start, mark', rfl, hmark'⟩ := exists_concat_of_spells_tail hother.takes_tail
    have hend : (word ++ (arguments ++ (arrays ++ (sep ++ (name ++ space))))) ++ mark :: rest =
        (lead' ++ (bound' ++ start)) ++ mark' :: after' := by
      simpa using heq.symm
    exact Text.suffix_of_append_cons_eq (not_mem_before_end hword hname hsep hspace hmark' hfirst) hend

end Declarations

end Occurrences

end Kind

end Kinds

section Arrows

def Arrowless (text : List Char) : Prop :=
  ∀ token ∈ [['-', '>'], ['=', '>']], ¬token <:+: text

/-- Function values have arrows. -/
theorem Arrowless.countFrom_eq_zero (h : Arrowless rest) :
    ∀ family ∈ [lambdaParams, lambdaParam], family.countFrom identifier before rest = 0 := by
  intro family hfamily
  refine Family.countFrom_eq_zero fun passed lead bound tail after hrest hspells => ?_
  obtain ⟨front, token, back, htoken, rfl⟩ : ∃ front token back, token ∈ [['-', '>'], ['=', '>']] ∧
      tail = front ++ (token ++ back) := by
    simp only [List.mem_cons, List.not_mem_nil, or_false] at hfamily
    rcases hfamily with rfl | rfl
    · obtain ⟨front, token, rfl, -, htoken⟩ := spells_append.mp hspells.takes_tail
      exact ⟨front, token, [], spells_anyWord.mp htoken, by simp⟩
    · obtain ⟨_, back, rfl, hfirst, -⟩ := spells_append.mp hspells.takes_tail
      obtain ⟨front, token, rfl, -, htoken⟩ := spells_append.mp hfirst
      exact ⟨front, token, back, spells_anyWord.mp htoken, List.append_assoc ..⟩
  refine h token htoken ⟨passed ++ (lead ++ (bound ++ front)), back ++ after, ?_⟩
  simp [hrest]

end Arrows

end LineCensus.Declaration.Typed
