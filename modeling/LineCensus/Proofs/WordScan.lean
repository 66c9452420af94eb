import LineCensus.Proofs.WholeWords

/-! The scan of a line word by word. A family whose occurrences begin with a word of its own passes over every
other word, and over its own words where what stands behind them does not go on as an occurrence has to. -/
namespace LineCensus.Declaration

open Pattern (wordNext)
open Text (Listed isBlank isWordChar stretch_unique stretch_cons_unique)

variable {family : Family} {identifier : Identifier} {Own : List Char → Prop} {words : List (List Char)} {mark : Char}
  {marks word text gap space before rest : List Char}

def Identifier.Opens (identifier : Identifier) (marks text : List Char) : Prop :=
  ∃ space c rest, text = space ++ c :: rest ∧ (∀ x ∈ space, isBlank x = true) ∧ isBlank c = false ∧
    (c ∈ marks ∨ space ≠ [] ∧ identifier.isHead c = true)

/-- Every occurrence of a family begins with a whole word of a certain kind, and behind it the line goes on with
one of the marks or with another name. -/
structure Family.Begins (family : Family) (identifier : Identifier) (Own : List Char → Prop) (marks : List Char) :
    Prop where
  takes : ∀ {before lead bound tail after}, family.Spells before lead bound tail after → wordNext before = false ∧
    ∃ word rest, lead ++ (bound ++ (tail ++ after)) = word ++ rest ∧ identifier.accepts word = true ∧ Own word ∧
      identifier.Opens marks rest
  not_tail : ∀ c ∈ marks, identifier.isTail c = false

def Identifier.IsWord (identifier : Identifier) (word : List Char) : Prop :=
  ∀ x ∈ word, identifier.isTail x = true ∧ isWordChar x = true

/-- A mark ends what stands in front of it: it is none of the marks that go on, and neither blank nor part of a
name. -/
def Identifier.Closes (identifier : Identifier) (marks : List Char) (mark : Char) : Prop :=
  mark ∉ marks ∧ isBlank mark = false ∧ identifier.isTail mark = false

instance (identifier : Identifier) (marks : List Char) (mark : Char) : Decidable (identifier.Closes marks mark) :=
  inferInstanceAs (Decidable (_ ∧ _))

def spaced (words : List (List Char)) : List Char :=
  words.flatMap (· ++ [' '])

theorem mem_spaced {c : Char} (h : c ∈ spaced words) : (∃ word ∈ words, c ∈ word) ∨ c = ' ' := by
  obtain ⟨word, hword, hmem⟩ := List.mem_flatMap.mp h
  rcases List.mem_append.mp hmem with hmem | hmem
  · exact .inl ⟨word, hword, hmem⟩
  · exact .inr (List.mem_singleton.mp hmem)

namespace Identifier

variable (hregular : identifier.Regular)
include hregular

private theorem Opens.not_tail_head? (htail : ∀ c ∈ marks, identifier.isTail c = false)
    (h : identifier.Opens marks text) :
    ∀ x ∈ text.head?, identifier.isTail x = false := by
  obtain ⟨space, c, rest, rfl, hspace, -, hc⟩ := h
  rcases hc with hc | ⟨hne, -⟩
  · exact hregular.not_isTail_head?_mark hspace (htail c hc)
  · exact hregular.not_isTail_head?_of_ne_nil hspace hne _

private theorem Regular.not_isHead {c : Char} (h : identifier.isTail c = false) : identifier.isHead c = false := by
  rw [← Bool.not_eq_true]
  intro hhead
  rw [hregular.tail_of_head hhead] at h
  cases h

theorem Closes.not_opens (hclose : identifier.Closes marks mark) (hspace : ∀ x ∈ space, isBlank x = true) :
    ¬identifier.Opens marks (space ++ mark :: rest) := by
  rintro ⟨front, c, others, heq, hfront, hblank, hc⟩
  obtain ⟨-, rfl, -⟩ := stretch_cons_unique hspace hfront hclose.2.1 hblank heq
  rcases hc with hc | ⟨-, hc⟩
  · exact hclose.1 hc
  · rw [hregular.not_isHead hclose.2.2] at hc
    cases hc

end Identifier

namespace Family.Begins

variable (hbegins : family.Begins identifier Own marks)
include hbegins

theorem countFrom_gap (hgap : ∀ x ∈ gap, identifier.isHead x = false) :
    family.countFrom identifier before (gap ++ rest) = family.countFrom identifier (gap.reverse ++ before) rest := by
  refine countFrom_append fun passed left lead bound tail after hpassed hleft hrest hspells => ?_
  obtain ⟨-, word, others, hword, haccepts, -, -⟩ := hbegins.takes hspells
  obtain ⟨c, word, rfl, hc, -⟩ := Identifier.exists_cons_of_accepts haccepts
  obtain ⟨x, left, rfl⟩ := List.exists_cons_of_ne_nil hleft
  obtain rfl : x = c := (List.cons.inj (hrest.trans hword)).1
  rw [hgap x (by simp [hpassed])] at hc
  cases hc

variable (hregular : identifier.Regular)
include hregular

/-- A word that no occurrence begins with is passed over. -/
theorem countFrom_word (hword : identifier.IsWord word) (hrest : ∀ x ∈ rest.head?, identifier.isTail x = false)
    (hnot : Own word → ¬identifier.Opens marks rest) :
    family.countFrom identifier before (word ++ rest) = family.countFrom identifier (word.reverse ++ before) rest := by
  refine countFrom_append fun passed left lead bound tail after hpassed hleft heq hspells => ?_
  obtain ⟨hbefore, own, others, hown, haccepts, hOwn, hopens⟩ := hbegins.takes hspells
  rcases List.eq_nil_or_concat passed with rfl | ⟨start, c, rfl⟩
  · obtain rfl : word = left := hpassed
    obtain ⟨rfl, rfl⟩ := stretch_unique (fun x hx => (hword x hx).1) (hregular.isTail_of_mem haccepts) hrest
      (hopens.not_tail_head? hregular hbegins.not_tail) (heq.trans hown)
    exact hnot hOwn hopens
  · have hc : isWordChar c = true := (hword c (by simp [hpassed])).2
    rw [List.concat_eq_append, List.reverse_append] at hbefore
    change isWordChar c = false at hbefore
    rw [hc] at hbefore
    cases hbefore

/-- A word with a mark behind it that closes it is passed over. -/
theorem countFrom_closed (hword : identifier.IsWord word) (hspace : ∀ x ∈ space, isBlank x = true)
    (hclose : identifier.Closes marks mark) :
    family.countFrom identifier before (word ++ (space ++ mark :: rest)) =
      family.countFrom identifier (mark :: (space.reverse ++ (word.reverse ++ before))) rest := by
  have hgap : ∀ x ∈ space ++ [mark], identifier.isHead x = false := by
    rw [List.forall_mem_append, List.forall_mem_singleton]
    exact ⟨fun x hx => hregular.not_isHead (hregular.not_isTail_of_isBlank (hspace x hx)),
      hregular.not_isHead hclose.2.2⟩
  have hsplit : space ++ mark :: rest = (space ++ [mark]) ++ rest := by
    simp
  rw [hbegins.countFrom_word hregular hword (hregular.not_isTail_head?_mark hspace hclose.2.2)
    fun _ => hclose.not_opens hregular hspace, hsplit, hbegins.countFrom_gap hgap]
  simp

theorem countFrom_blanks (hspace : ∀ x ∈ space, isBlank x = true) :
    family.countFrom identifier before (space ++ rest) = family.countFrom identifier (space.reverse ++ before) rest :=
  hbegins.countFrom_gap fun x hx => hregular.not_isHead (hregular.not_isTail_of_isBlank (hspace x hx))

/-- The words of a list are passed over up to the mark that closes it. -/
theorem countFrom_listed {sep : Char} (hlist : Listed sep words text) (hwords : ∀ word ∈ words, identifier.IsWord word)
    (hsep : identifier.Closes marks sep) (hclose : identifier.Closes marks mark) :
    family.countFrom identifier before (text ++ mark :: rest) =
      family.countFrom identifier (mark :: (text.reverse ++ before)) rest := by
  induction hlist generalizing before with
  | nil => exact hbegins.countFrom_closed hregular (List.forall_mem_nil _) (List.forall_mem_nil _) hclose
  | one word =>
    exact hbegins.countFrom_closed hregular (hwords word (List.mem_cons_self ..)) (List.forall_mem_nil _) hclose
  | @more word front back hfront hback next words text _ ih =>
    obtain ⟨hword, hlater⟩ := List.forall_mem_cons.mp hwords
    simp only [List.append_assoc, List.cons_append]
    rw [hbegins.countFrom_closed hregular hword hfront hsep, hbegins.countFrom_blanks hregular hback, ih hlater]
    simp

/-- Words that no occurrence begins with are passed over. -/
theorem countFrom_spaced (hwords : ∀ word ∈ words, identifier.IsWord word ∧ ¬Own word) :
    family.countFrom identifier before (spaced words ++ rest) =
      family.countFrom identifier ((spaced words).reverse ++ before) rest := by
  induction words generalizing before with
  | nil => rfl
  | cons word words ih =>
    obtain ⟨⟨hword, hnot⟩, hlater⟩ := List.forall_mem_cons.mp hwords
    have hspace : ∀ x ∈ [' '], isBlank x = true := by decide
    have hsplit : spaced (word :: words) = word ++ ([' '] ++ spaced words) := by
      simp [spaced]
    rw [hsplit, List.append_assoc, List.append_assoc,
      hbegins.countFrom_word hregular hword (hregular.not_isTail_head?_of_ne_nil hspace (by simp) _)
        fun hOwn => absurd hOwn hnot,
      hbegins.countFrom_blanks hregular hspace, ih hlater]
    simp

end Family.Begins

end LineCensus.Declaration
