import LineCensus.Proofs.Cutting
import LineCensus.Proofs.Trimming
import Mathlib.Data.List.Forall2

/-! Blank characters around a text and behind its pieces: trimming takes them away again. -/
namespace LineCensus.Text

variable {line other text front back : List Char} {sep c : Char}

def Padded (text padded : List Char) : Prop :=
  ∃ front back, (∀ c ∈ front, isBlank c = true) ∧ (∀ c ∈ back, isBlank c = true) ∧
    padded = front ++ text ++ back

def BlankBehind (text other : List Char) : Prop :=
  ∃ back, (∀ c ∈ back, isBlank c = true) ∧ other = text ++ back

theorem BlankBehind.refl (text : List Char) : BlankBehind text text :=
  ⟨[], by simp, (List.append_nil text).symm⟩

private theorem BlankBehind.cons (c : Char) (h : BlankBehind text other) :
    BlankBehind (c :: text) (c :: other) := by
  obtain ⟨back, hback, rfl⟩ := h
  exact ⟨back, hback, List.cons_append.symm⟩

theorem BlankBehind.padded (h : BlankBehind text other) : Padded text other := by
  obtain ⟨back, hback, rfl⟩ := h
  exact ⟨[], back, by simp, hback, by rw [List.nil_append]⟩

private theorem trimEnd_append_blanks (text : List Char) (h : ∀ c ∈ back, isBlank c = true) :
    trimEnd (text ++ back) = trimEnd text := by
  rw [trimEnd, dropEndWhile, List.reverse_append, List.dropWhile_append_of_pos, trimEnd, dropEndWhile]
  exact fun c hc => h c (List.mem_reverse.mp hc)

private theorem trim_blanks_append (text : List Char) (h : ∀ c ∈ front, isBlank c = true) :
    trim (front ++ text) = trim text := by
  rw [trim, List.dropWhile_append_of_pos h, trim]

theorem trim_append_blanks (text : List Char) (h : ∀ c ∈ back, isBlank c = true) :
    trim (text ++ back) = trim text := by
  rw [trim, List.dropWhile_append]
  split
  · rename_i htext
    rw [List.dropWhile_eq_nil_iff.mpr h, trim, List.isEmpty_iff.mp htext]
  · exact trimEnd_append_blanks _ h

theorem Padded.trim_eq (h : Padded text other) : trim other = trim text := by
  obtain ⟨front, back, hfront, hback, rfl⟩ := h
  rw [trim_append_blanks _ hback, trim_blanks_append _ hfront]

theorem padded_trim (text : List Char) : Padded (trim text) text := by
  refine ⟨text.takeWhile isBlank, ((text.dropWhile isBlank).reverse.takeWhile isBlank).reverse,
    fun c hc => List.mem_takeWhile_imp hc,
    fun c hc => List.mem_takeWhile_imp (List.mem_reverse.mp hc), ?_⟩
  rw [trim, trimEnd, dropEndWhile, List.append_assoc, ← List.reverse_append,
    List.takeWhile_append_dropWhile, List.reverse_reverse, List.takeWhile_append_dropWhile]

theorem blankBehind_attach (c : Char) {pieces others : List (List Char)}
    (h : List.Forall₂ BlankBehind pieces others) :
    List.Forall₂ BlankBehind (attach c pieces) (attach c others) := by
  cases h with
  | nil => exact .cons (.refl _) .nil
  | cons hpiece hrest => exact .cons (hpiece.cons c) hrest

/-- Blank characters at the end of a text stand behind its last piece. -/
theorem blankBehind_splitAt (hsep : isBlank sep = false) (text : List Char)
    (h : ∀ c ∈ back, isBlank c = true) :
    List.Forall₂ BlankBehind (splitAt sep text) (splitAt sep (text ++ back)) := by
  induction text with
  | nil =>
    have hback : sep ∉ back := fun hmem => by simp [h sep hmem] at hsep
    rw [List.nil_append, splitAt_of_not_mem hback]
    exact .cons ⟨back, h, rfl⟩ .nil
  | cons c rest ih =>
    by_cases hc : c = sep
    · rw [List.cons_append, hc, splitAt_cons_self, splitAt_cons_self]
      exact .cons (.refl _) ih
    · rw [List.cons_append, splitAt_cons_of_ne hc, splitAt_cons_of_ne hc]
      exact blankBehind_attach c ih

private theorem map_trim_attach (hc : isBlank c = true) {pieces : List (List Char)} (h : pieces ≠ []) :
    (attach c pieces).map trim = pieces.map trim := by
  obtain ⟨piece, rest, rfl⟩ := List.exists_cons_of_ne_nil h
  have htrim : trim ([c] ++ piece) = trim piece := trim_blanks_append piece (by simpa using hc)
  rw [List.singleton_append] at htrim
  rw [attach, List.map_cons, List.map_cons, htrim]

theorem map_trim_splitAt_front (hsep : isBlank sep = false) (text : List Char)
    (h : ∀ c ∈ front, isBlank c = true) :
    (splitAt sep (front ++ text)).map trim = (splitAt sep text).map trim := by
  induction front with
  | nil => rfl
  | cons c rest ih =>
    obtain ⟨hc, hrest⟩ := List.forall_mem_cons.mp h
    have hne : c ≠ sep := by
      rintro rfl
      simp [hc] at hsep
    rw [List.cons_append, splitAt_cons_of_ne hne, map_trim_attach hc (splitAt_ne_nil sep _), ih hrest]

private theorem map_trim_of_blankBehind {pieces others : List (List Char)}
    (h : List.Forall₂ BlankBehind pieces others) : others.map trim = pieces.map trim := by
  induction h with
  | nil => rfl
  | cons hpiece _ ih => rw [List.map_cons, List.map_cons, hpiece.padded.trim_eq, ih]

/-- Blank characters around a text do not change its pieces when these are trimmed. -/
theorem map_trim_splitAt (hsep : isBlank sep = false) (h : Padded text other) :
    (splitAt sep other).map trim = (splitAt sep text).map trim := by
  obtain ⟨front, back, hfront, hback, rfl⟩ := h
  rw [List.append_assoc, map_trim_splitAt_front hsep _ hfront,
    map_trim_of_blankBehind (blankBehind_splitAt hsep text hback)]

end LineCensus.Text
