import LineCensus.Declaration.Indented
import LineCensus.Declaration.Typed
import LineCensus.Proofs.DeclaredBound
import LineCensus.Proofs.WrittenLists

/-! Lines in which no name begins. A family may well find something in such a line, but what it finds binds no
name; so it makes no difference that lines of punctuation are not searched at all. -/
namespace LineCensus.Declaration

open Pattern (blanks lit opt among)

variable {family : Family} {identifier : Identifier} {heuristic : Heuristic} {binding : Binding} {found : Occurrence}
  {before rest line bound text : List Char}

/-- What a scan finds is taken by the family where it stands. -/
theorem Family.exists_spells_of_mem {skip : Nat}
    (h : found ∈ family.occurrencesFrom before.length before rest skip) :
    ∃ passed lead bound tail after, rest = passed ++ (lead ++ (bound ++ (tail ++ after))) ∧
      family.Spells (passed.reverse ++ before) lead bound tail after ∧
      found = ⟨(passed.reverse ++ before).length, (lead ++ (bound ++ tail)).length, bound⟩ := by
  induction rest generalizing before skip with
  | nil => cases h
  | cons c rest ih =>
    have hlater {skip : Nat} (h : found ∈ family.occurrencesFrom (c :: before).length (c :: before) rest skip) :
        ∃ passed lead bound tail after, c :: rest = passed ++ (lead ++ (bound ++ (tail ++ after))) ∧
          family.Spells (passed.reverse ++ before) lead bound tail after ∧
          found = ⟨(passed.reverse ++ before).length, (lead ++ (bound ++ tail)).length, bound⟩ := by
      obtain ⟨passed, lead, bound, tail, after, rfl, hspells, hfound⟩ := ih h
      refine ⟨c :: passed, lead, bound, tail, after, rfl, ?_⟩
      rw [List.reverse_cons, List.append_assoc, List.singleton_append]
      exact ⟨hspells, hfound⟩
    cases skip with
    | succ skip => exact hlater h
    | zero =>
      rw [occurrencesFrom] at h
      split at h
      · exact hlater h
      · rename_i first hfirst
        rcases List.mem_cons.mp h with rfl | hmem
        · exact ⟨[], spells_of_occurrence? hfirst⟩
        · exact hlater hmem

section Bindings

private theorem typedName_subset (piece : List Char) : typedName piece ⊆ piece := by
  rw [typedName]
  split
  · exact List.nil_subset piece
  · rename_i word hword
    obtain ⟨hpiece, -⟩ := List.mem_filter.mp (List.mem_of_getLast? hword)
    intro c hc
    have hname : c ∈ word := (List.dropWhile_suffix _).subset ((List.takeWhile_prefix _).subset hc)
    exact (List.takeWhile_prefix _).subset ((Text.of_mem_splitWhere hpiece).1.subset hname)

private theorem Binding.subset_of_mem_pieces {piece : List Char} (h : piece ∈ binding.pieces bound) :
    piece ⊆ bound := by
  cases binding with
  | single => exact List.mem_singleton.mp h ▸ List.Subset.refl _
  | names => exact List.Subset.trans (Text.sublist_of_mem_splitAt h).subset List.filter_sublist.subset
  | typedNames =>
    obtain ⟨whole, hwhole, rfl⟩ := List.mem_map.mp h
    exact List.Subset.trans (typedName_subset whole) (Text.sublist_of_mem_splitAt hwhole).subset

/-- A list without a character that begins a name declares nothing. -/
theorem Binding.count_eq_zero (hbinding : binding ≠ .single) (h : ∀ c ∈ bound, identifier.isHead c = false) :
    binding.count identifier bound = 0 := by
  have hpieces : (binding.pieces bound).countP (fun piece => identifier.accepts (Text.trim piece)) = 0 := by
    rw [List.countP_eq_zero]
    intro piece hpiece haccepts
    obtain ⟨c, others, htrim, hc, -⟩ := Identifier.exists_cons_of_accepts haccepts
    have hmem : c ∈ piece := (Text.trim_infix piece).subset (htrim ▸ List.mem_cons_self ..)
    rw [h c (subset_of_mem_pieces hpiece hmem)] at hc
    cases hc
  cases binding with
  | single => exact absurd rfl hbinding
  | names | typedNames => exact hpieces

/-- Whether each single name that a family binds is one, with the character that begins it. -/
def Family.Named (identifier : Identifier) (family : Family) : Prop :=
  family.binding = .single → ∀ {before bound after}, family.bound.Spells before bound after →
    ∃ c ∈ bound, identifier.isHead c = true

namespace Family.Named

private theorem of_list (h : family.binding ≠ .single) : family.Named identifier :=
  fun hsingle => absurd hsingle h

private theorem exists_head (h : identifier.accepts text = true) : ∃ c ∈ text, identifier.isHead c = true := by
  obtain ⟨c, others, rfl, hc, -⟩ := Identifier.exists_cons_of_accepts h
  exact ⟨c, List.mem_cons_self .., hc⟩

private theorem of_name (h : family.bound = identifier.pattern) : family.Named identifier := by
  intro _ before bound after hbound
  rw [h] at hbound
  exact exists_head (Identifier.spells_pattern.mp hbound)

private theorem of_marked_name {mark : Pattern} (h : family.bound = opt mark ++ identifier.pattern) :
    family.Named identifier := by
  intro _ before bound after hbound
  rw [h] at hbound
  obtain ⟨first, name, rfl, -, hname⟩ := Pattern.spells_append.mp hbound
  obtain ⟨c, hmem, hc⟩ := exists_head (Identifier.spells_pattern.mp hname)
  exact ⟨c, List.mem_append_right first hmem, hc⟩

/-- A family declares nothing in a line in which no name begins. -/
theorem count_eq_zero (hnamed : family.Named identifier) (h : ∀ c ∈ line, identifier.isHead c = false) :
    family.count identifier line = 0 := by
  have hfound : ∀ found ∈ family.occurrences line, family.binding.count identifier found.bound ≤ 0 := by
    intro found hmem
    change found ∈ family.occurrencesFrom ([] : List Char).length [] line 0 at hmem
    obtain ⟨passed, lead, bound, tail, after, hline, hspells, rfl⟩ := exists_spells_of_mem hmem
    have hbound : ∀ c ∈ bound, identifier.isHead c = false := fun c hc => h c (by simp [hline, hc])
    rcases eq_or_ne family.binding .single with hsingle | hlist
    · obtain ⟨c, hc, hhead⟩ := hnamed hsingle hspells.takes_bound
      rw [hbound c hc] at hhead
      cases hhead
    · exact (Binding.count_eq_zero hlist hbound).le
  exact Nat.le_zero.mp (total_le hfound)

end Family.Named

end Bindings

def heuristics : List Heuristic :=
  [script, typed, indented]

private theorem named_of_mem (h : heuristic ∈ heuristics) :
    ∀ family ∈ heuristic.families, family.Named heuristic.identifier := by
  simp only [heuristics, List.mem_cons, List.not_mem_nil, or_false] at h
  rcases h with rfl | rfl | rfl
  · simp only [script, List.forall_mem_cons]
    exact ⟨.of_list nofun, .of_list nofun, .of_name rfl, .of_list nofun, .of_name rfl, .of_marked_name rfl,
      .of_list nofun, .of_list nofun, .of_list nofun, .of_list nofun, List.forall_mem_nil _⟩
  · simp only [typed, List.forall_mem_cons]
    exact ⟨.of_name rfl, .of_name rfl, .of_name rfl, .of_list nofun, .of_list nofun, .of_name rfl, .of_name rfl,
      .of_list nofun, .of_name rfl, List.forall_mem_nil _⟩
  · simp only [indented, List.forall_mem_cons]
    exact ⟨.of_name rfl, .of_list nofun, .of_name rfl, .of_list nofun, .of_name rfl, .of_name rfl, .of_list nofun,
      .of_list nofun, .of_name rfl, List.forall_mem_nil _⟩

def Letterless (line : List Char) : Prop :=
  ∀ c ∈ line, Text.isLetter c = false ∧ c ∉ ['_', '$']

instance (line : List Char) : Decidable (Letterless line) :=
  Text.decidableForallMem line

private theorem Letterless.not_head (hline : Letterless line) (h : heuristic ∈ heuristics) :
    ∀ c ∈ line, heuristic.identifier.isHead c = false := by
  intro c hc
  obtain ⟨hletter, hother⟩ := hline c hc
  simp only [List.mem_cons, List.not_mem_nil, or_false, not_or] at hother
  simp only [heuristics, List.mem_cons, List.not_mem_nil, or_false] at h
  rcases h with rfl | rfl | rfl
  · simp [script, Script.identifier, hletter, hother]
  · simp [typed, Typed.identifier, Script.identifier, hletter, hother]
  · simp [indented, Indented.identifier, hletter, hother]

private theorem letterless_of_isPunctuation (h : isPunctuation line = true) : Letterless line := by
  have hmarks : ∀ c ∈ ['\x7b', '\x7d', '(', ')', ';', ',', '[', ']'],
      Text.isLetter c = false ∧ c ∉ ['_', '$'] := by decide
  exact fun c hc => hmarks c (Pattern.among_eq_true_iff.mp (List.all_eq_true.mp h c hc))

/-- No family declares anything in a line without letters; so the count of a line is the sum over its families,
whether it is punctuation or not. -/
theorem count_is_total_of_families : ∀ heuristic ∈ heuristics,
    (∀ line, heuristic.count line =
      total (fun family => family.count heuristic.identifier (Text.trim line)) heuristic.families) ∧
    ∀ line, Letterless line → ∀ family ∈ heuristic.families, family.count heuristic.identifier line = 0 := by
  intro heuristic h
  have hzero : ∀ line, Letterless line → ∀ family ∈ heuristic.families, family.count heuristic.identifier line = 0 :=
    fun line hline family hfamily => (named_of_mem h family hfamily).count_eq_zero (hline.not_head h)
  refine ⟨fun line => ?_, hzero⟩
  rw [Heuristic.count]
  split
  · rename_i hshort
    have hline : Letterless (Text.trim line) := by
      rcases Bool.or_eq_true_iff.mp hshort with hempty | hpunctuation
      · rw [List.isEmpty_iff.mp hempty]
        exact List.forall_mem_nil _
      · exact letterless_of_isPunctuation hpunctuation
    have htotal := total_le fun family hfamily => (hzero _ hline family hfamily).le
    exact (Nat.le_zero.mp htotal).symm
  · rfl

/-- An arrow behind brackets is found without a letter in the line, and it declares nothing. -/
theorem letterless_arrow_declares_nothing :
    let line := "(1, é) => {2} = [3]".toList
    script ∈ heuristics ∧ Letterless line ∧ Script.arrowParams ∈ script.families ∧
      (Script.arrowParams.occurrences line).length = 1 ∧ Script.arrowParams.count script.identifier line = 0 := by
  intro line
  have hmem : script ∈ heuristics := List.mem_cons_self ..
  have hfamily : Script.arrowParams ∈ script.families := by simp [script]
  have hline : Letterless line := by decide
  exact ⟨hmem, hline, hfamily, by decide, (count_is_total_of_families script hmem).2 line hline _ hfamily⟩

end LineCensus.Declaration
