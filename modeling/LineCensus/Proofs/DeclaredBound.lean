import LineCensus.Language.Basic
import LineCensus.Proofs.Cutting
import LineCensus.Proofs.FamilyScan
import LineCensus.Proofs.LineTotals
import LineCensus.Proofs.Trimming

/-! How many variables a text can declare at most: no more than a fixed power of its length for each family of
declarations. -/
namespace LineCensus

private theorem Text.upTo_isPrefix (token text : List Char) : upTo token text <+: text := by
  induction text with
  | nil => exact List.prefix_rfl
  | cons c rest ih =>
    rw [upTo]
    split
    · exact List.nil_prefix
    · exact (List.prefix_cons_inj c).mpr ih

namespace Declaration

variable {family : Family} {found : Occurrence} {c : Cursor}

namespace Family

private theorem length_bound_le (h : family.occurrence? c = some found) : found.bound.length ≤ c.rest.length := by
  obtain ⟨start, hlead, hstart⟩ := Pattern.takes_of_run h
  obtain ⟨stop, -, hstop⟩ := Pattern.takes_of_run hstart
  obtain ⟨finish, -, hfinish⟩ := Pattern.takes_of_run hstop
  obtain ⟨text, hover⟩ := hlead.over
  cases hfinish
  rw [hover.rest, List.length_append, List.length_take]
  omega

private theorem length_occurrencesFrom_le (offset : Nat) (before rest : List Char) (skip : Nat) :
    (family.occurrencesFrom offset before rest skip).length ≤ rest.length := by
  induction rest generalizing offset before skip with
  | nil => exact Nat.zero_le _
  | cons c rest ih =>
    rw [List.length_cons]
    cases skip with
    | succ skip => exact (ih _ _ _).trans (Nat.le_succ _)
    | zero =>
      rw [occurrencesFrom]
      split
      · exact (ih _ _ _).trans (Nat.le_succ _)
      · exact Nat.succ_le_succ (ih _ _ _)

private theorem length_bound_of_mem {offset skip : Nat} {before rest : List Char}
    (h : found ∈ family.occurrencesFrom offset before rest skip) : found.bound.length ≤ rest.length := by
  induction rest generalizing offset before skip with
  | nil => cases h
  | cons c rest ih =>
    rw [List.length_cons]
    cases skip with
    | succ skip => exact (ih h).trans (Nat.le_succ _)
    | zero =>
      rw [occurrencesFrom] at h
      split at h
      · exact (ih h).trans (Nat.le_succ _)
      · rename_i first hfirst
        rcases List.mem_cons.mp h with rfl | hmem
        · exact length_bound_le hfirst
        · exact (ih hmem).trans (Nat.le_succ _)

end Family

private theorem Binding.count_le (binding : Binding) (identifier : Identifier) (bound : List Char) :
    binding.count identifier bound ≤ bound.length + 1 := by
  have hpieces (text : List Char) : (Text.splitAt ',' text).length ≤ text.length + 1 := by
    rw [Text.length_splitAt]
    exact Nat.succ_le_succ List.count_le_length
  cases binding with
  | single => exact Nat.le_add_left 1 _
  | names =>
    refine List.countP_le_length.trans ((hpieces _).trans ?_)
    exact Nat.succ_le_succ (List.length_filter_le _ _)
  | typedNames =>
    refine List.countP_le_length.trans ?_
    rw [pieces, List.length_map]
    exact hpieces _

private theorem Family.count_le (family : Family) (identifier : Identifier) (line : List Char) :
    family.count identifier line ≤ line.length * (line.length + 1) := by
  refine (total_le fun found hfound => ?_).trans
    (Nat.mul_le_mul_right (line.length + 1) (family.length_occurrencesFrom_le 0 [] line 0))
  exact (family.binding.count_le identifier _).trans (Nat.succ_le_succ (length_bound_of_mem hfound))

private theorem Heuristic.count_le (heuristic : Heuristic) (line : List Char) :
    heuristic.count line ≤ heuristic.families.length * (line.length * (line.length + 1)) := by
  have hlength : (Text.trim line).length ≤ line.length := (Text.trim_infix line).length_le
  rw [count]
  split
  · exact Nat.zero_le _
  · refine (total_le fun family _ => family.count_le _ _).trans ?_
    gcongr

end Declaration

namespace Language

variable (language : Language)

def mostDeclared (length : Nat) : Nat :=
  language.heuristic.families.length * (length * (length + 1))

private theorem mostDeclared_mono {n m : Nat} (h : n ≤ m) : language.mostDeclared n ≤ language.mostDeclared m := by
  unfold mostDeclared
  gcongr

private theorem countVariables_le (line : List Char) :
    language.countVariables line ≤ language.mostDeclared line.length := by
  rw [countVariables]
  split
  · exact Nat.zero_le _
  · refine (language.heuristic.count_le _).trans (language.mostDeclared_mono ?_)
    exact (Text.upTo_isPrefix _ _).length_le.trans (Text.trim_infix line).length_le

private theorem declared_readLine (region : Region) (line : List Char) :
    0 ≤ (language.readLine region line).1.declared ∧
      (language.readLine region line).1.declared ≤ language.mostDeclared line.length := by
  have hcount := language.countVariables_le line
  simp only [readLine]
  split <;> omega

end Language

namespace Stats

theorem declared_foldl {bound : Int} {results : List LineResult}
    (h : ∀ result ∈ results, 0 ≤ result.declared ∧ result.declared ≤ bound) (stats : Stats) :
    stats.declared ≤ (results.foldl count stats).declared ∧
      (results.foldl count stats).declared ≤ stats.declared + results.length * bound := by
  induction results generalizing stats with
  | nil => simp
  | cons result rest ih =>
    obtain ⟨hresult, hrest⟩ := List.forall_mem_cons.mp h
    obtain ⟨hlow, hhigh⟩ := ih hrest (stats.count result)
    have hcount : (stats.count result).declared = stats.declared + result.declared := by
      cases hkind : result.kind <;> simp only [count, hkind]
    rw [List.foldl_cons, List.length_cons, Nat.cast_succ, add_mul, one_mul]
    omega

end Stats

theorem Language.length_readLines_le (language : Language) (text : List Char) (k : Nat) :
    (readAll language.readLine .normal ((Text.splitAt '\n' text).take k)).1.length ≤ text.length + 1 := by
  rw [length_readAll, List.length_take, Text.length_splitAt]
  exact (Nat.min_le_right _ _).trans (Nat.succ_le_succ List.count_le_length)

theorem Language.declared_of_mem_readLines (language : Language) (text : List Char) (k : Nat) {result : LineResult}
    (h : result ∈ (readAll language.readLine .normal ((Text.splitAt '\n' text).take k)).1) :
    0 ≤ result.declared ∧ result.declared ≤ language.mostDeclared text.length := by
  obtain ⟨region, line, hmem, rfl⟩ := exists_of_mem_readAll h
  have hlength := (Text.sublist_of_mem_splitAt (List.mem_of_mem_take hmem)).length_le
  obtain ⟨hlow, hhigh⟩ := language.declared_readLine region line
  exact ⟨hlow, hhigh.trans (Int.ofNat_le.mpr (language.mostDeclared_mono hlength))⟩

end LineCensus
