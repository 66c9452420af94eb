import LineCensus.Proofs.FamilyScan
import LineCensus.Proofs.WrittenLists

/-! The words of a text: its stretches of word characters. A family that begins with a fixed word does not
occur in a text that has other words only. -/
namespace LineCensus

open Text (isBlank isWordChar)

namespace Text

variable {a b gap text : List Char} {c : Char}

theorem isWordChar_of_isBlank (h : isBlank c = true) : isWordChar c = false := by
  have hranges : ∀ n ∈ [0x85, 0xA0, 0x1680, 0x2000, 0x2001, 0x2002, 0x2003, 0x2004, 0x2005, 0x2006, 0x2007, 0x2008,
      0x2009, 0x200A, 0x2028, 0x2029, 0x202F, 0x205F, 0x3000], wordRanges.contains n = false := by
    decide +kernel
  simp only [isBlank, Bool.or_eq_true, Bool.and_eq_true, decide_eq_true_eq, beq_iff_eq] at h
  rw [isWordChar]
  split
  · simp only [isLetter, isDigit, Bool.or_eq_false_iff, Bool.and_eq_false_iff, decide_eq_false_iff_not,
      beq_eq_false_iff_ne, Char.le_def, UInt32.le_iff_toNat_le, Char.reduceVal, UInt32.reduceToNat]
    have hval : c.toNat = c.val.toNat := rfl
    refine ⟨⟨⟨by omega, by omega⟩, by omega⟩, ?_⟩
    rintro rfl
    revert h
    decide
  · apply hranges
    simp only [List.mem_cons, List.not_mem_nil, or_false]
    omega

def fields (p : Char → Bool) (text : List Char) : List (List Char) :=
  (splitWhere p text).filter (!·.isEmpty)

section Fields

variable {p : Char → Bool}

theorem fields_append_cons (h : p c = true) : fields p (a ++ c :: b) = fields p a ++ fields p b := by
  simp only [fields, splitWhere_eq_splitOnP]
  rw [List.splitOnP_append_cons a b h, List.filter_append]

private theorem fields_gap_append (h : ∀ x ∈ gap, p x = true) : fields p (gap ++ b) = fields p b := by
  induction gap with
  | nil => rfl
  | cons x gap ih =>
    obtain ⟨hx, hgap⟩ := List.forall_mem_cons.mp h
    rw [List.cons_append, ← ih hgap]
    exact fields_append_cons (a := []) hx

theorem fields_append_gap (h : ∀ x ∈ gap, p x = true) : fields p (a ++ gap) = fields p a := by
  cases gap with
  | nil => rw [List.append_nil]
  | cons x gap =>
    obtain ⟨hx, hgap⟩ := List.forall_mem_cons.mp h
    have hnone : fields p gap = [] := by
      rw [← List.append_nil gap, fields_gap_append hgap]
      rfl
    rw [fields_append_cons hx, hnone, List.append_nil]

theorem fields_of_forall (hne : text ≠ []) (h : ∀ x ∈ text, p x = false) : fields p text = [text] := by
  rw [fields, splitWhere_eq_splitOnP, List.splitOnP_eq_singleton fun x hx => by simp [h x hx]]
  simp [hne]

end Fields

def wholeWords (text : List Char) : List (List Char) :=
  (splitWhere (fun c => !isWordChar c) text).filter (!·.isEmpty)

@[simp] theorem wholeWords_nil : wholeWords [] = [] :=
  rfl

theorem wholeWords_append_cons (h : isWordChar c = false) :
    wholeWords (a ++ c :: b) = wholeWords a ++ wholeWords b :=
  fields_append_cons (p := fun c => !isWordChar c) (by simp [h])

theorem wholeWords_cons (h : isWordChar c = false) : wholeWords (c :: b) = wholeWords b :=
  wholeWords_append_cons (a := []) h

private theorem wholeWords_gap_append (h : ∀ x ∈ gap, isWordChar x = false) : wholeWords (gap ++ b) = wholeWords b :=
  fields_gap_append (p := fun c => !isWordChar c) (by simpa using h)

/-- The words on both sides of a gap. -/
theorem wholeWords_append_gap_append (hne : gap ≠ []) (h : ∀ x ∈ gap, isWordChar x = false) :
    wholeWords (a ++ (gap ++ b)) = wholeWords a ++ wholeWords b := by
  obtain ⟨x, gap, rfl⟩ := List.exists_cons_of_ne_nil hne
  obtain ⟨hx, hgap⟩ := List.forall_mem_cons.mp h
  rw [List.cons_append, wholeWords_append_cons hx, wholeWords_gap_append hgap]

theorem wholeWords_of_word (hne : text ≠ []) (h : ∀ x ∈ text, isWordChar x = true) : wholeWords text = [text] :=
  fields_of_forall (p := fun c => !isWordChar c) hne (by simpa using h)

theorem Listed.wholeWords_eq {sep : Char} {items : List (List Char)} (hsep : isWordChar sep = false)
    (h : Listed sep items text) : wholeWords text = items.flatMap wholeWords := by
  induction h with
  | nil => rfl
  | one item => simp
  | @more item front back hfront hback next items text _ ih =>
    have hgap : ∀ x ∈ front ++ sep :: back, isWordChar x = false := by
      simp only [List.mem_append, List.mem_cons]
      rintro x (hx | rfl | hx)
      · exact isWordChar_of_isBlank (hfront x hx)
      · exact hsep
      · exact isWordChar_of_isBlank (hback x hx)
    have hassoc : front ++ sep :: (back ++ text) = (front ++ sep :: back) ++ text := by
      simp
    rw [hassoc, wholeWords_append_gap_append (by simp) hgap, ih]
    rfl

end Text

open Text (wholeWords)

namespace Pattern

variable {p q : Pattern} {before text after left right word : List Char}

private theorem wordNext_of_append {rest : List Char} (h : wordNext (text ++ rest) = false) :
    wordNext text = false := by
  cases text with
  | nil => rfl
  | cons c text => exact h

theorem wordNext_eq_false_iff : wordNext after = false ↔ ∀ x ∈ after.head?, Text.isWordChar x = false := by
  cases after with
  | nil => simp [wordNext]
  | cons x after => simp [wordNext]

theorem wordNext_append_of_word (hne : word ≠ []) (hword : ∀ x ∈ word, Text.isWordChar x = true) (rest : List Char) :
    wordNext (word ++ rest) = true := by
  obtain ⟨c, word, rfl⟩ := List.exists_cons_of_ne_nil hne
  exact hword c (List.mem_cons_self ..)

theorem wholeWords_append_of_edge (h : wordNext left.reverse = false) :
    wholeWords (left ++ right) = wholeWords left ++ wholeWords right := by
  rcases List.eq_nil_or_concat left with rfl | ⟨front, c, rfl⟩
  · rfl
  · rw [List.concat_eq_append, List.reverse_append] at h
    have hfront : wholeWords (front ++ [c]) = wholeWords front := by
      rw [Text.wholeWords_append_cons h, Text.wholeWords_nil, List.append_nil]
    rw [List.concat_eq_append, hfront, List.append_assoc, List.singleton_append, Text.wholeWords_append_cons h]

private theorem mem_wholeWords (hne : word ≠ []) (hword : ∀ x ∈ word, Text.isWordChar x = true)
    (hleft : wordNext left.reverse = false) (hright : wordNext right = false) :
    word ∈ wholeWords (left ++ (word ++ right)) := by
  have hstart : word ∈ wholeWords (word ++ right) := by
    cases right with
    | nil => simp [Text.wholeWords_of_word hne hword]
    | cons c right => simp [Text.wholeWords_append_cons hright, Text.wholeWords_of_word hne hword]
  rw [wholeWords_append_of_edge hleft]
  exact List.mem_append_right _ hstart

/-- Whether every text of a pattern begins with the given word, which is one on its own there. -/
def BeginsWith (word : List Char) (p : Pattern) : Prop :=
  ∀ before text after, p.Spells before text after → wordNext before = false ∧
    ∃ more, text = word ++ more ∧ wordNext (more ++ after) = false

theorem BeginsWith.append (h : p.BeginsWith word) : (p ++ q).BeginsWith word := by
  intro before text after hspells
  obtain ⟨first, second, rfl, hfirst, -⟩ := spells_append.mp hspells
  obtain ⟨hbefore, more, rfl, hmore⟩ := h _ _ _ hfirst
  rw [← List.append_assoc] at hmore
  exact ⟨hbefore, more ++ second, List.append_assoc .., hmore⟩

/-- A text that begins with a word character begins a word where no word character stands in front of it. -/
theorem spells_wordEdge_append
    (hp : ∀ before text after, p.Spells before text after → wordNext (text ++ after) = true) :
    (wordEdge ++ p).Spells before text after ↔ wordNext before = false ∧ p.Spells before text after := by
  simp only [spells_append, spells_wordEdge]
  constructor
  · rintro ⟨_, text, rfl, ⟨rfl, hedge⟩, htext⟩
    rw [hp _ _ _ htext, ne_eq, Bool.not_eq_true] at hedge
    exact ⟨hedge, htext⟩
  · rintro ⟨hbefore, htext⟩
    refine ⟨[], text, rfl, ⟨rfl, ?_⟩, htext⟩
    rw [hp _ _ _ htext, hbefore]
    decide

section Words

variable {token : String} (hne : token.toList ≠ []) (htoken : ∀ x ∈ token.toList, Text.isWordChar x = true)
include hne htoken

theorem spells_wordEdge_lit : (wordEdge ++ lit token).Spells before text after ↔
    wordNext before = false ∧ text = token.toList := by
  rw [spells_wordEdge_append fun _ _ _ h => ?_, spells_lit]
  rw [spells_lit.mp h]
  exact wordNext_append_of_word hne htoken _

theorem beginsWith_gap : (wordEdge ++ lit token ++ gap).BeginsWith token.toList := by
  intro before text after h
  obtain ⟨word, space, rfl, hword, hspace⟩ := spells_append.mp h
  obtain ⟨hbefore, rfl⟩ := (spells_wordEdge_lit hne htoken).mp hword
  obtain ⟨hspace, hblank⟩ := spells_gap.mp hspace
  obtain ⟨x, space, rfl⟩ := List.exists_cons_of_ne_nil hspace
  exact ⟨hbefore, x :: space, rfl, Text.isWordChar_of_isBlank (hblank x (List.mem_cons_self ..))⟩

theorem beginsWith_edge : (wordEdge ++ lit token ++ wordEdge).BeginsWith token.toList := by
  intro before text after h
  obtain ⟨word, edge, rfl, hword, hedge⟩ := spells_append.mp h
  obtain ⟨hbefore, rfl⟩ := (spells_wordEdge_lit hne htoken).mp hword
  obtain ⟨rfl, hchange⟩ := spells_wordEdge.mp hedge
  have hend : wordNext (token.toList.reverse ++ before) = true :=
    wordNext_append_of_word (by simpa using hne) (by simpa using htoken) before
  rw [hend, ne_eq, eq_comm, Bool.not_eq_true] at hchange
  exact ⟨hbefore, [], rfl, hchange⟩

end Words

section WordLists

variable {words : List String}
  (hwords : ∀ word ∈ words.map String.toList, word ≠ [] ∧ ∀ x ∈ word, Text.isWordChar x = true)
include hwords

/-- One of several words, on its own. -/
theorem spells_anyWord_edge : (anyWord words ++ wordEdge).Spells before text after ↔
    text ∈ words.map String.toList ∧ wordNext after = false := by
  have hend {word : List Char} (hword : word ∈ words.map String.toList) (before : List Char) :
      wordNext (word.reverse ++ before) = true := by
    obtain ⟨hne, hchars⟩ := hwords word hword
    exact wordNext_append_of_word (by simpa using hne) (by simpa using hchars) before
  simp only [spells_append, spells_anyWord, spells_wordEdge]
  constructor
  · rintro ⟨word, _, rfl, hword, rfl, hedge⟩
    rw [hend hword, ne_eq, eq_comm, Bool.not_eq_true] at hedge
    rw [List.append_nil]
    exact ⟨hword, hedge⟩
  · rintro ⟨hword, hafter⟩
    refine ⟨text, [], (List.append_nil _).symm, hword, rfl, ?_⟩
    rw [hend hword, hafter]
    decide

/-- None of the words stands in front of another whole word. -/
theorem spells_notAhead_anyWord (hword : ∀ x ∈ word, Text.isWordChar x = true) (hafter : wordNext after = false)
    (hnot : word ∉ words.map String.toList) :
    (notAhead (anyWord words ++ wordEdge)).Spells before [] (word ++ after) := by
  refine spells_notAhead.mpr ⟨rfl, ?_⟩
  rintro ⟨next, rest, heq, hnext⟩
  obtain ⟨hmem, hrest⟩ := (spells_anyWord_edge hwords).mp hnext
  obtain ⟨rfl, -⟩ := Text.stretch_unique hword (hwords next hmem).2 (wordNext_eq_false_iff.mp hafter)
    (wordNext_eq_false_iff.mp hrest) heq
  exact hnot hmem

theorem spells_wordEdge_anyWord : (wordEdge ++ anyWord words).Spells before text after ↔
    wordNext before = false ∧ text ∈ words.map String.toList := by
  rw [spells_wordEdge_append fun _ _ _ h => ?_, spells_anyWord]
  obtain ⟨hne, hchars⟩ := hwords _ (spells_anyWord.mp h)
  exact wordNext_append_of_word hne hchars _

end WordLists

end Pattern

namespace Declaration

variable {family : Family} {identifier : Identifier} {before rest word : List Char}

theorem Family.countFrom_of_not_mem_wholeWords (hbegins : family.lead.BeginsWith word) (hne : word ≠ [])
    (hword : ∀ x ∈ word, isWordChar x = true) (h : word ∉ wholeWords rest) :
    family.countFrom identifier before rest = 0 := by
  refine countFrom_eq_zero fun passed lead bound tail after hrest hspells => h ?_
  obtain ⟨hbefore, more, rfl, hmore⟩ := hbegins _ _ _ hspells.takes_lead
  rw [hrest, List.append_assoc]
  exact Pattern.mem_wholeWords hne hword (Pattern.wordNext_of_append hbefore) hmore

end Declaration

end LineCensus
