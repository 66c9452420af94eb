import LineCensus.Proofs.ScriptFamilies

/-! Names taken out of a value: the families of the brace languages that look into brackets, one pair for each
kind of bracket. -/
namespace LineCensus.Declaration.Script

open Pattern Text

variable {word f text front back before rest lead bound tail after : List Char} {names : List (List Char)}

inductive Bracket where
  | brace
  | square
deriving DecidableEq

namespace Bracket

def opening : Bracket → Char
  | brace => '\x7b'
  | square => '['

def closing : Bracket → Char
  | brace => '\x7d'
  | square => ']'

def other : Bracket → Bracket
  | brace => square
  | square => brace

def destructuring : Bracket → Family
  | brace => objectDestructuring
  | square => arrayDestructuring

def target : Bracket → Family
  | brace => objectTarget
  | square => arrayTarget

variable {bracket : Bracket}

private theorem destructuring_lead :
    bracket.destructuring.lead = wordEdge ++ keyword ++ blanks ++ literal [bracket.opening] := by
  cases bracket <;> rfl

private theorem target_lead : bracket.target.lead = targetStart ++ blanks ++ literal [bracket.opening] := by
  cases bracket <;> rfl

private theorem spells_destructuring_lead :
    bracket.destructuring.lead.Spells before lead rest ↔ wordNext before = false ∧
    ∃ word ∈ keywords, ∃ space, (∀ x ∈ space, isBlank x = true) ∧ lead = word ++ (space ++ [bracket.opening]) := by
  simp only [destructuring_lead, spells_append (p := wordEdge ++ keyword ++ blanks),
    spells_append (p := wordEdge ++ keyword), spells_edge_keyword, spells_blanks, spells_literal]
  constructor
  · rintro ⟨_, _, rfl, ⟨word, space, rfl, ⟨hbefore, hword⟩, hspace⟩, rfl⟩
    exact ⟨hbefore, word, hword, space, hspace, List.append_assoc ..⟩
  · rintro ⟨hbefore, word, hword, space, hspace, rfl⟩
    exact ⟨_, _, (List.append_assoc ..).symm, ⟨word, space, rfl, ⟨hbefore, hword⟩, hspace⟩, rfl⟩

private theorem spells_destructuring_bound : bracket.destructuring.bound.Spells before bound rest ↔
    bound ≠ [] ∧ (∀ x ∈ bound, x ≠ bracket.closing) ∧ ∃ others, rest = bracket.closing :: others := by
  have hbound : bracket.destructuring.bound = someUpTo [bracket.closing] := by
    cases bracket <;> rfl
  simp [hbound]

private theorem spells_destructuring_tail :
    bracket.destructuring.tail.Spells before tail rest ↔ tail = [bracket.closing] := by
  have htail : bracket.destructuring.tail = literal [bracket.closing] := by
    cases bracket <;> rfl
  rw [htail, spells_literal]

private theorem spells_target_lead : bracket.target.lead.Spells before lead rest ↔
    ∃ start space, (start = [] ∧ before = [] ∨ ∃ mark ∈ ['(', ','], start = [mark]) ∧
      (∀ x ∈ space, isBlank x = true) ∧ lead = start ++ (space ++ [bracket.opening]) := by
  have hstart {before start rest : List Char} : targetStart.Spells before start rest ↔
      start = [] ∧ before = [] ∨ ∃ mark ∈ ['(', ','], start = [mark] := by
    simp only [targetStart, spells_orElse, spells_atStart, spells_one, among_eq_true_iff]
  simp only [target_lead, spells_append, hstart, spells_blanks, spells_literal]
  constructor
  · rintro ⟨_, _, rfl, ⟨start, space, rfl, hstart, hspace⟩, rfl⟩
    exact ⟨start, space, hstart, hspace, List.append_assoc ..⟩
  · rintro ⟨start, space, hstart, hspace, rfl⟩
    exact ⟨_, _, (List.append_assoc ..).symm, ⟨start, space, rfl, hstart, hspace⟩, rfl⟩

private theorem spells_target_bound : bracket.target.bound.Spells before bound rest ↔
    bound ≠ [] ∧ (∀ x ∈ bound, x ∉ [bracket.opening, bracket.closing]) ∧
      ∃ x others, rest = x :: others ∧ x ∈ [bracket.opening, bracket.closing] := by
  have hbound : bracket.target.bound = someUpTo [bracket.opening, bracket.closing] := by
    cases bracket <;> rfl
  rw [hbound, spells_someUpTo]
  simp only [outside_eq_true_iff, outside_eq_false_iff]

private theorem spells_target_tail : bracket.target.tail.Spells before tail rest ↔ ∃ space,
    (∀ x ∈ space, isBlank x = true) ∧ tail = bracket.closing :: (space ++ ['=']) ∧
      ∀ x ∈ rest.head?, x ∉ ['=', '>'] := by
  have htail : bracket.target.tail = literal [bracket.closing] ++ blanks ++ assign := by
    cases bracket <;> rfl
  have hassign {before text rest : List Char} : assign.Spells before text rest ↔
      text = ['='] ∧ ∀ x ∈ rest.head?, x ∉ ['=', '>'] := by
    simp only [assign, spells_append, spells_lit, spells_notAhead_one, among_eq_false_iff]
    constructor
    · rintro ⟨_, _, rfl, rfl, rfl, hrest⟩
      exact ⟨rfl, hrest⟩
    · rintro ⟨rfl, hrest⟩
      exact ⟨_, [], rfl, rfl, rfl, hrest⟩
  simp only [htail, spells_append, spells_literal, spells_blanks, hassign]
  constructor
  · rintro ⟨_, _, rfl, ⟨_, space, rfl, rfl, hspace⟩, rfl, hrest⟩
    exact ⟨space, hspace, rfl, hrest⟩
  · rintro ⟨space, hspace, rfl, hrest⟩
    exact ⟨bracket.closing :: space, _, rfl, ⟨_, space, rfl, rfl, hspace⟩, rfl, hrest⟩

theorem isMark_opening : identifier.isTail bracket.opening = false ∧ isBlank bracket.opening = false ∧
    bracket.opening ≠ ',' := by
  cases bracket <;> decide

theorem isMark_closing : identifier.isTail bracket.closing = false ∧ isBlank bracket.closing = false ∧
    bracket.closing ≠ ',' := by
  cases bracket <;> decide

private theorem not_mem_keyword (hword : word ∈ keywords) : bracket.opening ∉ word := by
  intro hmem
  have htail := regular.isTail_of_mem (accepts_of_mem_keywords hword) _ hmem
  rw [isMark_opening.1] at htail
  cases htail

/-- Names taken out of a value in a declaration are found together. -/
theorem countFrom_destructuring (hword : word ∈ keywords) (hnames : identifier.Names names text) (hne : names ≠ [])
    (hafter : bracket.opening ∉ after) : bracket.destructuring.countFrom identifier []
      (word ++ ' ' :: bracket.opening :: (text ++ bracket.closing :: after)) = names.length := by
  have hclose : ∀ x ∈ text, x ≠ bracket.closing := fun x hx h => hnames.not_mem regular isMark_closing (h ▸ hx)
  have hgap : ∀ x ∈ [' '], isBlank x = true := by decide
  have hspells :
      bracket.destructuring.Spells [] (word ++ ([' '] ++ [bracket.opening])) text [bracket.closing] after := by
    refine ⟨spells_destructuring_lead.mpr ⟨rfl, word, hword, [' '], hgap, rfl⟩,
      spells_destructuring_bound.mpr ⟨?_, hclose, after, rfl⟩, spells_destructuring_tail.mpr rfl⟩
    obtain ⟨c, others, rfl, -⟩ := hnames.exists_cons hne
    exact List.cons_ne_nil c others
  have hcount : bracket.destructuring.binding.count identifier text = names.length := by
    cases bracket <;> exact hnames.count_eq regular (by decide)
  have hrequires : bracket.destructuring.requires bracket.opening = true := by
    cases bracket <;> rfl
  have hfound := Family.countFrom_of_spells identifier (by simp) hspells ?_
  · rw [hcount, Family.countFrom_of_not_mem hrequires hafter] at hfound
    simpa using hfound
  intro lead' bound' tail' after' h hother
  obtain ⟨-, word', hword', space, hspace, rfl⟩ := spells_destructuring_lead.mp hother.takes_lead
  obtain ⟨-, hclose', -⟩ := spells_destructuring_bound.mp hother.takes_bound
  obtain rfl := spells_destructuring_tail.mp hother.takes_tail
  have hmark : ∀ {rest : List Char}, ∀ x ∈ (bracket.opening :: rest).head?, identifier.isTail x = false := by
    rintro rest x ⟨⟩
    exact isMark_opening.1
  have hwords : word' ++ (space ++ bracket.opening :: (bound' ++ bracket.closing :: after')) =
      word ++ ([' '] ++ bracket.opening :: (text ++ bracket.closing :: after)) := by
    simpa using h
  obtain ⟨rfl, hspaces⟩ := stretch_unique (regular.isTail_of_mem (accepts_of_mem_keywords hword'))
    (regular.isTail_of_mem (accepts_of_mem_keywords hword)) (regular.not_isTail_head? hspace hmark)
    (regular.not_isTail_head? hgap hmark) hwords
  obtain ⟨rfl, -, hinner⟩ := stretch_cons_unique hspace hgap isMark_opening.2.1 isMark_opening.2.1 hspaces
  obtain ⟨rfl, -, -⟩ := stretch_cons_unique (p := (· != bracket.closing)) (by simpa using hclose')
    (by simpa using hclose) (by simp) (by simp) hinner
  exact ⟨rfl, rfl, rfl⟩

/-- In an assignment to names in brackets no declaration stands in front of the bracket. -/
theorem countFrom_destructuring_eq_zero (hafter : bracket.opening ∉ after) :
    bracket.destructuring.countFrom identifier [] (bracket.opening :: after) = 0 := by
  refine Family.countFrom_eq_zero fun passed lead bound tail rest hrest hspells => ?_
  obtain ⟨-, word, hword, space, -, rfl⟩ := spells_destructuring_lead.mp hspells.takes_lead
  have hsplit : [] ++ bracket.opening :: after =
      (passed ++ (word ++ space)) ++ bracket.opening :: (bound ++ (tail ++ rest)) := by
    simpa using hrest
  obtain ⟨hnil, -, -⟩ := (List.append_cons_inj_of_notMem List.not_mem_nil hafter).mp hsplit
  simp only [List.nil_eq, List.append_eq_nil_iff] at hnil
  have haccepts := accepts_of_mem_keywords hword
  rw [hnil.2.1] at haccepts
  cases haccepts

/-- Names taken out of a value in an assignment are found together. -/
theorem countFrom_target (hnames : identifier.Names names text) (hne : names ≠ [])
    (hafter : bracket.opening ∉ after) (hnext : ∀ x ∈ after.head?, x ∉ ['=', '>']) :
    bracket.target.countFrom identifier []
      (bracket.opening :: (text ++ bracket.closing :: ' ' :: '=' :: after)) = names.length := by
  have hgap : ∀ x ∈ [' '], isBlank x = true := by decide
  have hclose : ∀ x ∈ text, x ∉ [bracket.opening, bracket.closing] := by
    intro x hx hmem
    rcases List.mem_pair.mp hmem with rfl | rfl
    · exact hnames.not_mem regular isMark_opening hx
    · exact hnames.not_mem regular isMark_closing hx
  have hspells : bracket.target.Spells [] ([] ++ ([] ++ [bracket.opening])) text
      (bracket.closing :: ([' '] ++ ['='])) after := by
    refine ⟨spells_target_lead.mpr ⟨[], [], .inl ⟨rfl, rfl⟩, List.forall_mem_nil _, rfl⟩,
      spells_target_bound.mpr ⟨?_, hclose, _, _, rfl, by simp⟩, spells_target_tail.mpr ⟨[' '], hgap, rfl, hnext⟩⟩
    obtain ⟨c, others, rfl, -⟩ := hnames.exists_cons hne
    exact List.cons_ne_nil c others
  have hcount : bracket.target.binding.count identifier text = names.length := by
    cases bracket <;> exact hnames.count_eq regular (by decide)
  have hrequires : bracket.target.requires bracket.opening = true := by
    cases bracket <;> rfl
  have hfound := Family.countFrom_of_spells identifier (by simp) hspells ?_
  · rw [hcount, Family.countFrom_of_not_mem hrequires hafter] at hfound
    simpa using hfound
  intro lead' bound' tail' after' h hother
  obtain ⟨start, space, -, -, rfl⟩ := spells_target_lead.mp hother.takes_lead
  obtain ⟨-, hclose', -⟩ := spells_target_bound.mp hother.takes_bound
  obtain ⟨behind, hbehind, rfl, -⟩ := spells_target_tail.mp hother.takes_tail
  have hright : bracket.opening ∉ text ++ bracket.closing :: ' ' :: '=' :: after := by
    simp only [List.mem_append, List.mem_cons, not_or]
    refine ⟨hnames.not_mem regular isMark_opening, ?_, ?_, ?_, hafter⟩ <;> cases bracket <;> decide
  have hsplit : [] ++ bracket.opening :: (text ++ bracket.closing :: ' ' :: '=' :: after) =
      (start ++ space) ++ bracket.opening :: (bound' ++ bracket.closing :: (behind ++ '=' :: after')) := by
    simpa using h.symm
  obtain ⟨hnil, -, hinner⟩ := (List.append_cons_inj_of_notMem List.not_mem_nil hright).mp hsplit
  obtain ⟨rfl, rfl⟩ := List.append_eq_nil_iff.mp hnil.symm
  obtain ⟨rfl, -, hequals⟩ := stretch_cons_unique (p := outside [bracket.opening, bracket.closing])
    (fun x hx => outside_eq_true_iff.mpr (hclose x hx)) (fun x hx => outside_eq_true_iff.mpr (hclose' x hx))
    (by simp) (by simp) hinner
  obtain ⟨rfl, -, -⟩ := stretch_cons_unique hgap hbehind (by decide) (by decide) hequals
  exact ⟨rfl, rfl, rfl⟩

/-- In a declaration no assignment to names in brackets begins. -/
theorem countFrom_target_eq_zero (hword : word ∈ keywords) (hafter : bracket.opening ∉ after) :
    bracket.target.countFrom identifier [] (word ++ ' ' :: bracket.opening :: after) = 0 := by
  refine Family.countFrom_eq_zero fun passed lead bound tail rest hrest hspells => ?_
  obtain ⟨start, space, hstart, hspace, rfl⟩ := spells_target_lead.mp hspells.takes_lead
  have hleft : bracket.opening ∉ word ++ [' '] := by
    rw [List.mem_append, not_or]
    refine ⟨not_mem_keyword hword, ?_⟩
    cases bracket <;> decide
  have hsplit : (word ++ [' ']) ++ bracket.opening :: after =
      (passed ++ (start ++ space)) ++ bracket.opening :: (bound ++ (tail ++ rest)) := by
    simpa using hrest
  obtain ⟨hends, -, -⟩ := (List.append_cons_inj_of_notMem hleft hafter).mp hsplit
  obtain ⟨letters, last, rfl, hlast⟩ := regular.exists_concat (accepts_of_mem_keywords hword)
  have hblank := regular.not_blank hlast
  rw [List.append_assoc, List.singleton_append] at hends
  rcases hstart with ⟨rfl, hbefore⟩ | ⟨mark, hmark, rfl⟩
  · obtain rfl : passed = [] := by simpa using hbefore
    have hmem : last ∈ space := by
      rw [List.nil_append, List.nil_append] at hends
      exact hends ▸ by simp
    rw [hspace last hmem] at hblank
    cases hblank
  · have hmarks : ∀ mark ∈ ['(', ','], identifier.isTail mark = false ∧ isBlank mark = false := by decide
    obtain ⟨htail, hblank'⟩ := hmarks mark hmark
    obtain ⟨-, rfl, -⟩ := stretch_end_unique (p := isBlank) (by decide) hspace hblank hblank' hends
    rw [hlast] at htail
    cases htail

end Bracket

end LineCensus.Declaration.Script
