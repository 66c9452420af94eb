import LineCensus.Proofs.PatternTexts
import Mathlib.Algebra.Order.BigOperators.Group.List
import Mathlib.Algebra.Order.Ring.Nat

/-! The scan of a line for the occurrences of a family of declarations: stretches in which none begins, and
places where one is found. Where there is only one way to take a text, the order of the search does not
matter. -/
namespace LineCensus.Declaration

open Cursor (between)

namespace Family

/-- Whether a family takes three texts one after the other, as what comes before the bound part, the bound
part, and what comes after it. -/
structure Spells (family : Family) (before lead bound tail after : List Char) : Prop where
  takes_lead : family.lead.Spells before lead (bound ++ (tail ++ after))
  takes_bound : family.bound.Spells (lead.reverse ++ before) bound (tail ++ after)
  takes_tail : family.tail.Spells (bound.reverse ++ (lead.reverse ++ before)) tail after

variable {family : Family} {identifier : Identifier} {before lead bound tail after rest front : List Char}

theorem spells_of_occurrence? {found : Occurrence} (h : family.occurrence? (between before rest) = some found) :
    ∃ lead bound tail after, rest = lead ++ (bound ++ (tail ++ after)) ∧
      family.Spells before lead bound tail after ∧
      found = ⟨before.length, (lead ++ (bound ++ tail)).length, bound⟩ := by
  obtain ⟨_, hlead, h⟩ := Pattern.takes_of_run h
  obtain ⟨lead, _, rfl, rfl, hlead⟩ := hlead.exists_spells
  obtain ⟨_, hbound, h⟩ := Pattern.takes_of_run h
  obtain ⟨bound, _, rfl, rfl, hbound⟩ := hbound.exists_spells
  obtain ⟨_, htail, h⟩ := Pattern.takes_of_run h
  obtain ⟨tail, after, rfl, rfl, htail⟩ := htail.exists_spells
  refine ⟨lead, bound, tail, after, rfl, ⟨hlead, hbound, htail⟩, ?_⟩
  cases h
  simp only [between, List.length_append, List.length_reverse, Occurrence.mk.injEq, true_and]
  refine ⟨by omega, ?_⟩
  rw [Nat.add_sub_cancel_right, List.take_left]

private theorem isSome_occurrence? (h : family.Spells before lead bound tail after) :
    (family.occurrence? (between before (lead ++ (bound ++ (tail ++ after))))).isSome :=
  Pattern.isSome_run h.takes_lead (Pattern.isSome_run h.takes_bound (Pattern.isSome_run h.takes_tail rfl))

private theorem occurrence?_eq_none (h : ∀ lead bound tail after, rest = lead ++ (bound ++ (tail ++ after)) →
    ¬family.Spells before lead bound tail after) : family.occurrence? (between before rest) = none := by
  rw [Option.eq_none_iff_forall_ne_some]
  intro found hfound
  obtain ⟨lead, bound, tail, after, hrest, hspells, -⟩ := spells_of_occurrence? hfound
  exact h lead bound tail after hrest hspells

/-- If there is only one way to take a text, the family occurs there. -/
theorem occurrence?_eq_some (h : family.Spells before lead bound tail after)
    (hunique : ∀ lead' bound' tail' after',
      lead' ++ (bound' ++ (tail' ++ after')) = lead ++ (bound ++ (tail ++ after)) →
      family.Spells before lead' bound' tail' after' → lead' = lead ∧ bound' = bound ∧ tail' = tail) :
    family.occurrence? (between before (lead ++ (bound ++ (tail ++ after)))) =
      some ⟨before.length, (lead ++ (bound ++ tail)).length, bound⟩ := by
  obtain ⟨found, hfound⟩ := Option.isSome_iff_exists.mp (isSome_occurrence? h)
  obtain ⟨lead', bound', tail', after', hrest, hspells, rfl⟩ := spells_of_occurrence? hfound
  obtain ⟨rfl, rfl, rfl⟩ := hunique lead' bound' tail' after' hrest.symm hspells
  exact hfound

def countFrom (family : Family) (identifier : Identifier) (before rest : List Char) : Nat :=
  total (fun found => family.binding.count identifier found.bound)
    (family.occurrencesFrom before.length before rest 0)

private theorem count_eq_countFrom (family : Family) (identifier : Identifier) (line : List Char) :
    family.count identifier line = family.countFrom identifier [] line :=
  rfl

@[simp] theorem countFrom_nil : family.countFrom identifier before [] = 0 :=
  rfl

private theorem occurrencesFrom_skip (family : Family) (offset : Nat) (before text rest : List Char) :
    family.occurrencesFrom offset before (text ++ rest) text.length =
      family.occurrencesFrom (offset + text.length) (text.reverse ++ before) rest 0 := by
  induction text generalizing offset before with
  | nil => rfl
  | cons c text ih =>
    rw [List.cons_append, List.length_cons, occurrencesFrom, ih, List.reverse_cons, List.append_assoc,
      Nat.add_assoc, Nat.add_comm 1]
    rfl

private theorem countFrom_cons {c : Char} (h : family.occurrence? (between before (c :: rest)) = none) :
    family.countFrom identifier before (c :: rest) = family.countFrom identifier (c :: before) rest := by
  change family.occurrence? ⟨before.length, before, c :: rest⟩ = none at h
  simp only [countFrom, occurrencesFrom, h, List.length_cons]

/-- The scan goes on behind an occurrence. -/
theorem countFrom_of_occurrence {text : List Char} (hne : text ≠ [])
    (h : family.occurrence? (between before (text ++ rest)) = some ⟨before.length, text.length, bound⟩) :
    family.countFrom identifier before (text ++ rest) =
      family.binding.count identifier bound + family.countFrom identifier (text.reverse ++ before) rest := by
  obtain ⟨c, text, rfl⟩ := List.exists_cons_of_ne_nil hne
  change family.occurrence? ⟨before.length, before, c :: (text ++ rest)⟩ = _ at h
  rw [countFrom, List.cons_append, occurrencesFrom, h]
  simp only [List.length_cons, Nat.add_sub_cancel, occurrencesFrom_skip]
  have hlength : before.length + 1 + text.length = ((c :: text).reverse ++ before).length := by
    simp only [List.length_append, List.length_reverse, List.length_cons]
    omega
  have hbefore : text.reverse ++ c :: before = (c :: text).reverse ++ before := by
    rw [List.reverse_cons, List.append_assoc, List.singleton_append]
  rw [hlength, hbefore]
  rfl

/-- A text that can be taken in one way only is found where it stands. -/
theorem countFrom_of_spells (identifier : Identifier) (hne : lead ++ (bound ++ tail) ≠ [])
    (h : family.Spells before lead bound tail after)
    (hunique : ∀ lead' bound' tail' after',
      lead' ++ (bound' ++ (tail' ++ after')) = lead ++ (bound ++ (tail ++ after)) →
      family.Spells before lead' bound' tail' after' → lead' = lead ∧ bound' = bound ∧ tail' = tail) :
    family.countFrom identifier before (lead ++ (bound ++ (tail ++ after))) =
      family.binding.count identifier bound +
        family.countFrom identifier ((lead ++ (bound ++ tail)).reverse ++ before) after := by
  have hfound := occurrence?_eq_some h hunique
  have hassoc : lead ++ (bound ++ (tail ++ after)) = (lead ++ (bound ++ tail)) ++ after := by
    simp only [List.append_assoc]
  rw [hassoc] at hfound ⊢
  exact countFrom_of_occurrence hne hfound

/-- A family that binds one name counts once, if it finds nothing behind any of the occurrences that there can
be. -/
theorem countFrom_of_single (hsingle : family.binding = .single) (h : family.Spells before lead bound tail after)
    (hlater : ∀ lead' bound' tail' after',
      lead' ++ (bound' ++ (tail' ++ after')) = lead ++ (bound ++ (tail ++ after)) →
      family.Spells before lead' bound' tail' after' →
      bound' ≠ [] ∧ ∀ before, family.countFrom identifier before after' = 0) :
    family.countFrom identifier before (lead ++ (bound ++ (tail ++ after))) = 1 := by
  obtain ⟨found, hfound⟩ := Option.isSome_iff_exists.mp (isSome_occurrence? h)
  obtain ⟨lead', bound', tail', after', hrest, hspells, rfl⟩ := spells_of_occurrence? hfound
  obtain ⟨hne, hzero⟩ := hlater lead' bound' tail' after' hrest.symm hspells
  have hassoc : lead' ++ (bound' ++ (tail' ++ after')) = (lead' ++ (bound' ++ tail')) ++ after' := by
    simp only [List.append_assoc]
  have hcount : family.binding.count identifier bound' = 1 := by
    rw [hsingle]
    rfl
  rw [hrest, hassoc] at hfound ⊢
  rw [countFrom_of_occurrence (by simp [hne]) hfound, hzero, hcount]

/-- A stretch in which no occurrence begins does not count. -/
theorem countFrom_append (h : ∀ passed left lead bound tail after, front = passed ++ left → left ≠ [] →
    left ++ rest = lead ++ (bound ++ (tail ++ after)) →
    ¬family.Spells (passed.reverse ++ before) lead bound tail after) :
    family.countFrom identifier before (front ++ rest) =
      family.countFrom identifier (front.reverse ++ before) rest := by
  induction front generalizing before with
  | nil => rfl
  | cons c front ih =>
    have hnone : family.occurrence? (between before (c :: (front ++ rest))) = none :=
      occurrence?_eq_none fun lead bound tail after hrest =>
        h [] (c :: front) lead bound tail after rfl (List.cons_ne_nil c front) hrest
    rw [List.cons_append, countFrom_cons hnone, ih, List.reverse_cons, List.append_assoc,
      List.singleton_append]
    intro passed left lead bound tail after hfront hleft hrest
    have hspells := h (c :: passed) left lead bound tail after (congrArg (c :: ·) hfront) hleft hrest
    rwa [List.reverse_cons, List.append_assoc, List.singleton_append] at hspells

theorem countFrom_eq_zero (h : ∀ passed lead bound tail after,
    rest = passed ++ (lead ++ (bound ++ (tail ++ after))) →
    ¬family.Spells (passed.reverse ++ before) lead bound tail after) :
    family.countFrom identifier before rest = 0 := by
  rw [← List.append_nil rest, countFrom_append, countFrom_nil]
  intro passed left lead bound tail after hrest _ hleft
  rw [List.append_nil] at hleft
  exact h passed lead bound tail after (hleft ▸ hrest)

/-- A family that occurs at the start of a line only does not count behind it. -/
theorem countFrom_inside (hlead : ∀ before text after, family.lead.Spells before text after → before = [])
    (hbefore : before ≠ []) : family.countFrom identifier before rest = 0 :=
  countFrom_eq_zero fun _ _ _ _ _ _ hspells =>
    hbefore (List.append_eq_nil_iff.mp (hlead _ _ _ hspells.takes_lead)).2

def requires (mark : Char) (family : Family) : Bool :=
  family.lead.requires mark || family.bound.requires mark || family.tail.requires mark

private theorem Spells.mem_of_requires {mark : Char} (h : family.Spells before lead bound tail after)
    (hmark : family.requires mark = true) : mark ∈ lead ++ (bound ++ tail) := by
  simp only [requires, Bool.or_eq_true] at hmark
  simp only [List.mem_append]
  rcases hmark with (hmark | hmark) | hmark
  · exact .inl (Pattern.mem_of_requires hmark h.takes_lead)
  · exact .inr (.inl (Pattern.mem_of_requires hmark h.takes_bound))
  · exact .inr (.inr (Pattern.mem_of_requires hmark h.takes_tail))

theorem countFrom_of_not_mem {mark : Char} (hmark : family.requires mark = true) (h : mark ∉ rest) :
    family.countFrom identifier before rest = 0 := by
  refine countFrom_eq_zero fun passed lead bound tail after hrest hspells => h ?_
  have hmem := hspells.mem_of_requires hmark
  simp only [hrest, List.mem_append] at hmem ⊢
  rcases hmem with hmem | hmem | hmem <;> simp only [hmem, true_or, or_true]

end Family

theorem total_eq_sum {α : Type} (f : α → Nat) (items : List α) : total f items = (items.map f).sum := by
  rw [total, List.sum_eq_foldr, List.foldr_map]

theorem total_le {α : Type} {f : α → Nat} {items : List α} {bound : Nat} (h : ∀ item ∈ items, f item ≤ bound) :
    total f items ≤ items.length * bound := by
  rw [total_eq_sum, ← List.length_map f]
  exact List.sum_le_card_nsmul _ bound (List.forall_mem_map.mpr h)

private theorem total_filter {α : Type} {f : α → Nat} {items : List α} (keep : α → Bool)
    (h : ∀ item ∈ items, keep item = false → f item = 0) : total f (items.filter keep) = total f items := by
  have hsplit := List.sum_map_filter_add_sum_map_filter_not (keep ·) f items
  have hleft : ((items.filter fun item => ¬keep item).map f).sum = 0 := by
    refine List.sum_eq_zero (List.forall_mem_map.mpr fun item hitem => ?_)
    obtain ⟨hmem, hkeep⟩ := List.mem_filter.mp hitem
    exact h item hmem (by simpa using hkeep)
  rw [hleft, Nat.add_zero] at hsplit
  simpa only [total_eq_sum, Bool.decide_eq_true] using hsplit

namespace Heuristic

/-- The estimate is the sum of the estimates with a single family each. -/
theorem count_eq_total_only (heuristic : Heuristic) (line : List Char) :
    heuristic.count line = total (fun family => (heuristic.only family).count line) heuristic.families := by
  simp only [count, only]
  split
  · simp [total_eq_sum]
  · rfl

def familiesWithout (heuristic : Heuristic) (absent : List Char) : List Family :=
  heuristic.families.filter fun family => !absent.any fun mark => family.requires mark

/-- Only the families that do without the characters a line does not have count in it. -/
theorem count_eq_total {heuristic : Heuristic} {line : List Char} {mark : Char} (absent : List Char)
    (htrim : Text.trim line = line) (hmark : mark ∈ line)
    (hletter : isPunctuation [mark] = false) (habsent : ∀ x ∈ absent, x ∉ line) :
    heuristic.count line =
      total (fun family => family.count heuristic.identifier line) (heuristic.familiesWithout absent) := by
  have hne : line.isEmpty = false := List.isEmpty_eq_false_iff.mpr (List.ne_nil_of_mem hmark)
  have hpunctuation : isPunctuation line = false := by
    simp only [isPunctuation, List.all_cons, List.all_nil, Bool.and_true] at hletter
    rw [isPunctuation, List.all_eq_false]
    exact ⟨mark, hmark, by rw [hletter]; exact Bool.false_ne_true⟩
  rw [count, htrim, familiesWithout, total_filter]
  · simp only [hne, hpunctuation, Bool.or_self, Bool.false_eq_true, if_false]
  · intro family _ hrequires
    obtain ⟨x, hx, hmark⟩ := List.any_eq_true.mp (by simpa using hrequires)
    exact (Family.count_eq_countFrom ..).trans (Family.countFrom_of_not_mem hmark (habsent x hx))

end Heuristic

end LineCensus.Declaration
