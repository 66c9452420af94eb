import LineCensus.Declaration.Indented
import LineCensus.Declaration.Script
import LineCensus.Declaration.Typed
import LineCensus.Proofs.DeclaredBound
import LineCensus.Proofs.FamilyScan

/-! The occurrences of a family in a line: none is empty, each begins where the one before it has ended or later, and
none declares more variables than it has characters. So a line declares at most its length for each family. -/
namespace LineCensus

private theorem Text.countP_splitAt_le (sep : Char) (text : List Char) :
    (splitAt sep text).countP (!·.isEmpty) ≤ text.length := by
  induction text with
  | nil => rfl
  | cons c rest ih =>
    rw [List.length_cons]
    by_cases hc : c = sep
    · subst hc
      rw [splitAt_cons_self, List.countP_cons_of_neg (by simp)]
      exact ih.trans (Nat.le_succ _)
    · rw [splitAt_cons_of_ne hc]
      obtain ⟨piece, pieces, hpieces⟩ := List.exists_cons_of_ne_nil (splitAt_ne_nil sep rest)
      rw [hpieces] at ih ⊢
      rw [attach, List.countP_cons_of_pos rfl]
      exact Nat.succ_le_succ ((List.sublist_cons_self piece pieces).countP_le.trans ih)

namespace Pattern

def consumes : Pattern → Bool
  | .one _ => true
  | .literal text => !text.isEmpty
  | .oneOf texts => texts.all (!·.isEmpty)
  | .seq p q => p.consumes || q.consumes
  | .alt p q => p.consumes && q.consumes
  | _ => false

private theorem ne_nil_of_consumes {p : Pattern} {before text after : List Char} (hp : p.consumes = true)
    (h : p.Spells before text after) : text ≠ [] := by
  induction p generalizing before text after with
  | one accept =>
    obtain ⟨x, -, rfl⟩ := spells_one.mp h
    exact List.cons_ne_nil x []
  | literal token =>
    rw [spells_literal.mp h]
    simpa [consumes] using hp
  | oneOf texts => simpa using List.all_eq_true.mp hp text (spells_oneOf.mp h)
  | seq p q ihp ihq =>
    obtain ⟨first, second, rfl, hfirst, hsecond⟩ := spells_seq.mp h
    rw [Ne, List.append_eq_nil_iff]
    rcases Bool.or_eq_true_iff.mp hp with hp | hq
    · exact fun hnil => ihp hp hfirst hnil.1
    · exact fun hnil => ihq hq hsecond hnil.2
  | alt p q ihp ihq =>
    obtain ⟨hp, hq⟩ := Bool.and_eq_true_iff.mp hp
    rcases spells_alt.mp h with hp' | hq'
    · exact ihp hp hp'
    · exact ihq hq hq'
  | _ => cases hp

end Pattern

namespace Declaration

namespace Family

open Cursor (between)

variable {family : Family} {identifier : Identifier} {found : Occurrence} {line before rest : List Char}

/-- An occurrence is a place in the line at which the family takes three texts, with their length and the second of
them. -/
def OccursIn (family : Family) (line : List Char) (found : Occurrence) : Prop :=
  ∃ before lead bound tail after, line = before.reverse ++ (lead ++ (bound ++ (tail ++ after))) ∧
    family.Spells before lead bound tail after ∧
    found = ⟨before.length, (lead ++ (bound ++ tail)).length, bound⟩

def consumes (family : Family) : Bool :=
  family.lead.consumes || family.bound.consumes || family.tail.consumes

private theorem Spells.ne_nil {lead bound tail after : List Char} (h : family.Spells before lead bound tail after)
    (hfamily : family.consumes = true) : lead ++ (bound ++ tail) ≠ [] := by
  simp only [consumes, Bool.or_eq_true] at hfamily
  simp only [ne_eq, List.append_eq_nil_iff, not_and_or]
  rcases hfamily with (hlead | hbound) | htail
  · exact .inl (Pattern.ne_nil_of_consumes hlead h.takes_lead)
  · exact .inr (.inl (Pattern.ne_nil_of_consumes hbound h.takes_bound))
  · exact .inr (.inr (Pattern.ne_nil_of_consumes htail h.takes_tail))

private theorem OccursIn.length_pos (h : family.OccursIn line found) (hfamily : family.consumes = true) :
    0 < found.length := by
  obtain ⟨before, lead, bound, tail, after, -, hspells, rfl⟩ := h
  exact List.length_pos_iff.mpr (hspells.ne_nil hfamily)

private theorem OccursIn.end_le (h : family.OccursIn line found) : found.offset + found.length ≤ line.length := by
  obtain ⟨before, lead, bound, tail, after, rfl, -, rfl⟩ := h
  simp only [List.length_append, List.length_reverse]
  omega

private theorem OccursIn.length_bound_le (h : family.OccursIn line found) : found.bound.length ≤ found.length := by
  obtain ⟨before, lead, bound, tail, after, -, -, rfl⟩ := h
  simp only [List.length_append]
  omega

private theorem occursIn_of_occurrence? (h : family.occurrence? (between before rest) = some found) :
    family.OccursIn (before.reverse ++ rest) found ∧ found.offset = before.length := by
  obtain ⟨lead, bound, tail, after, rfl, hspells, rfl⟩ := spells_of_occurrence? h
  exact ⟨⟨before, lead, bound, tail, after, rfl, hspells, rfl⟩, rfl⟩

/-- What a scan finds from a place on, behind the characters that are skipped. -/
theorem of_mem_occurrencesFrom {skip : Nat}
    (h : found ∈ family.occurrencesFrom before.length before rest skip) :
    family.OccursIn (before.reverse ++ rest) found ∧ before.length + skip ≤ found.offset := by
  induction rest generalizing before skip with
  | nil => cases h
  | cons c rest ih =>
    have hline : (c :: before).reverse ++ rest = before.reverse ++ c :: rest := by
      rw [List.reverse_cons, List.append_assoc, List.singleton_append]
    have hlater {skip : Nat} (h : found ∈ family.occurrencesFrom (before.length + 1) (c :: before) rest skip) :
        family.OccursIn (before.reverse ++ c :: rest) found ∧ before.length + 1 + skip ≤ found.offset := by
      rw [← hline]
      exact ih h
    cases skip with
    | succ skip =>
      obtain ⟨hoccurs, hoffset⟩ := hlater h
      exact ⟨hoccurs, by omega⟩
    | zero =>
      rw [occurrencesFrom] at h
      split at h
      · obtain ⟨hoccurs, hoffset⟩ := hlater h
        exact ⟨hoccurs, by omega⟩
      · rename_i first hfirst
        rcases List.mem_cons.mp h with rfl | hmem
        · obtain ⟨hoccurs, hoffset⟩ := occursIn_of_occurrence? hfirst
          exact ⟨hoccurs, hoffset.ge⟩
        · obtain ⟨hoccurs, hoffset⟩ := hlater hmem
          exact ⟨hoccurs, by omega⟩

/-- Each occurrence begins where the one before it has ended, or later. -/
theorem pairwise_occurrencesFrom (family : Family) (before rest : List Char) (skip : Nat) :
    (family.occurrencesFrom before.length before rest skip).Pairwise
      fun found later => found.offset + found.length ≤ later.offset := by
  induction rest generalizing before skip with
  | nil => exact .nil
  | cons c rest ih =>
    have hlater (skip : Nat) : (family.occurrencesFrom (before.length + 1) (c :: before) rest skip).Pairwise
        fun found later => found.offset + found.length ≤ later.offset := ih (c :: before) skip
    cases skip with
    | succ skip => exact hlater skip
    | zero =>
      rw [occurrencesFrom]
      split
      · exact hlater 0
      · rename_i found hfound
        refine List.pairwise_cons.mpr ⟨fun later hmem => ?_, hlater _⟩
        have hoffset : found.offset = before.length := (occursIn_of_occurrence? hfound).2
        have hbegin : (c :: before).length + (found.length - 1) ≤ later.offset := (of_mem_occurrencesFrom hmem).2
        rw [List.length_cons] at hbegin
        omega

private theorem occursIn_of_mem (h : found ∈ family.occurrences line) : family.OccursIn line found :=
  (@of_mem_occurrencesFrom _ _ [] _ _ h).1

end Family

/-- Stretches that follow each other in a line are together no longer than it. -/
theorem sum_length_le {found : List Occurrence} {start stop : Nat}
    (hpairwise : found.Pairwise fun one later => one.offset + one.length ≤ later.offset)
    (hstart : ∀ one ∈ found, start ≤ one.offset) (hstop : ∀ one ∈ found, one.offset + one.length ≤ stop) :
    (found.map (·.length)).sum ≤ stop - start := by
  induction found generalizing start with
  | nil => exact Nat.zero_le _
  | cons one rest ih =>
    obtain ⟨hone, hrest⟩ := List.pairwise_cons.mp hpairwise
    obtain ⟨hfirst, -⟩ := List.forall_mem_cons.mp hstart
    obtain ⟨hend, hends⟩ := List.forall_mem_cons.mp hstop
    have hsum := ih hrest hone hends
    rw [List.map_cons, List.sum_cons]
    omega

/-- A list of names has at least one character for each name. -/
theorem Binding.count_le_length {binding : Binding} (hbinding : binding ≠ .single) (identifier : Identifier)
    (bound : List Char) : binding.count identifier bound ≤ bound.length := by
  have hne {f : List Char → List Char} (hf : f [] = []) (text : List Char) :
      (Text.splitAt ',' text).countP (fun piece => identifier.accepts (Text.trim (f piece))) ≤ text.length := by
    refine (List.countP_mono_left fun piece _ hpiece => ?_).trans (Text.countP_splitAt_le ',' text)
    cases piece with
    | nil =>
      rw [hf] at hpiece
      cases hpiece
    | cons c piece => rfl
  cases binding with
  | single => exact absurd rfl hbinding
  | names => exact (hne (f := id) rfl _).trans (List.length_filter_le _ _)
  | typedNames =>
    have hcount : typedNames.count identifier bound = ((Text.splitAt ',' bound).map typedName).countP
        fun piece => identifier.accepts (Text.trim piece) := rfl
    rw [hcount, List.countP_map]
    exact hne rfl bound

namespace Family

variable {family : Family} {found : Occurrence} {line : List Char}

private theorem OccursIn.count_le (h : family.OccursIn line found) (hfamily : family.consumes = true)
    (identifier : Identifier) : family.binding.count identifier found.bound ≤ found.length := by
  by_cases hbinding : family.binding = .single
  · rw [hbinding]
    exact h.length_pos hfamily
  · exact (Binding.count_le_length hbinding identifier found.bound).trans h.length_bound_le

private theorem count_le_sum (hfamily : family.consumes = true) (identifier : Identifier) (line : List Char) :
    family.count identifier line ≤ ((family.occurrences line).map (·.length)).sum := by
  rw [count, total_eq_sum]
  exact List.sum_le_sum fun _ hfound => (occursIn_of_mem hfound).count_le hfamily identifier

private theorem count_le_length (hfamily : family.consumes = true) (identifier : Identifier) (line : List Char) :
    family.count identifier line ≤ line.length := by
  refine (count_le_sum hfamily identifier line).trans ?_
  exact sum_length_le (family.pairwise_occurrencesFrom [] line 0) (fun _ _ => Nat.zero_le _)
    fun _ hfound => (occursIn_of_mem hfound).end_le

end Family

private theorem consumes_of_mem {heuristic : Heuristic} (hheuristic : heuristic ∈ [script, typed, indented]) :
    ∀ family ∈ heuristic.families, family.consumes = true := by
  revert heuristic
  decide

/-- Each family of the three heuristics takes at least one character wherever it is found. Its occurrences in a line
follow each other, and it declares at most one variable for each of their characters. So a line declares at most its
trimmed length for each family. -/
theorem occurrences_bound_count {heuristic : Heuristic} (hheuristic : heuristic ∈ [script, typed, indented])
    (line : List Char) :
    (∀ family ∈ heuristic.families,
      (∀ before lead bound tail after, family.Spells before lead bound tail after →
        lead ++ (bound ++ tail) ≠ []) ∧
      (∀ found ∈ family.occurrences line, family.OccursIn line found ∧ 0 < found.length) ∧
      (family.occurrences line).Pairwise (fun found later => found.offset + found.length ≤ later.offset) ∧
      family.count heuristic.identifier line ≤ ((family.occurrences line).map (·.length)).sum) ∧
    heuristic.count line ≤ heuristic.families.length * (Text.trim line).length := by
  have hconsumes := consumes_of_mem hheuristic
  constructor
  · intro family hfamily
    refine ⟨fun _ _ _ _ _ hspells => hspells.ne_nil (hconsumes family hfamily), fun found hfound => ?_,
      family.pairwise_occurrencesFrom [] line 0, Family.count_le_sum (hconsumes family hfamily) _ line⟩
    have hoccurs := Family.occursIn_of_mem hfound
    exact ⟨hoccurs, hoccurs.length_pos (hconsumes family hfamily)⟩
  · rw [Heuristic.count]
    split
    · exact Nat.zero_le _
    · exact total_le fun family hfamily => Family.count_le_length (hconsumes family hfamily) _ _

/-- Two parameters of arrows: the second occurrence begins where the first one has ended. -/
theorem occurrences_bound_count_of_arrows :
    script ∈ [script, typed, indented] ∧ Script.arrowParam ∈ script.families ∧
      (Script.arrowParam.occurrences "a=>b=>c".toList).map (fun found => (found.offset, found.length)) =
        [(0, 3), (3, 3)] ∧
      Script.arrowParam.count script.identifier "a=>b=>c".toList ≤ 6 ∧ script.count "a=>b=>c".toList ≤ 10 * 7 := by
  have hheuristic : script ∈ [script, typed, indented] := List.mem_cons_self ..
  have hfamily : Script.arrowParam ∈ script.families := by
    simp only [script, List.mem_cons, true_or, or_true]
  have hoccurrences : (Script.arrowParam.occurrences "a=>b=>c".toList).map
      (fun found => (found.offset, found.length)) = [(0, 3), (3, 3)] := by decide +kernel
  have hlengths : ((Script.arrowParam.occurrences "a=>b=>c".toList).map (·.length)).sum = 6 := by decide +kernel
  obtain ⟨hfamilies, hcount⟩ := occurrences_bound_count hheuristic "a=>b=>c".toList
  exact ⟨hheuristic, hfamily, hoccurrences, hlengths ▸ (hfamilies _ hfamily).2.2.2, hcount⟩

end Declaration
end LineCensus
