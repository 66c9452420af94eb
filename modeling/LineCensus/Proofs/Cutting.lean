import LineCensus.Text.Blank
import LineCensus.Text.Search
import Mathlib.Data.List.TakeWhile

/-! Cutting a text at separators: the pieces, and what stands behind the last separator. -/
namespace LineCensus.Text

variable {cut : Char → Bool} {text piece : List Char} {sep : Char}

private theorem attach_eq_modifyHead (c : Char) {pieces : List (List Char)} (h : pieces ≠ []) :
    attach c pieces = pieces.modifyHead (c :: ·) := by
  cases pieces with
  | nil => exact absurd rfl h
  | cons piece rest => rfl

theorem splitWhere_eq_splitOnP (cut : Char → Bool) (text : List Char) :
    splitWhere cut text = text.splitOnP cut := by
  induction text with
  | nil => rfl
  | cons c rest ih =>
    have hcons : splitWhere cut (c :: rest) =
        if cut c then [] :: splitWhere cut rest else attach c (splitWhere cut rest) := rfl
    rw [hcons, ih, List.splitOnP_cons_eq_if_modifyHead,
      attach_eq_modifyHead c (List.splitOnP_ne_nil cut rest)]

theorem splitAt_eq_splitOn (sep : Char) (text : List Char) : splitAt sep text = text.splitOn sep :=
  splitWhere_eq_splitOnP (· == sep) text

theorem splitAt_append_cons (sep : Char) (first second : List Char) :
    splitAt sep (first ++ sep :: second) = splitAt sep first ++ splitAt sep second := by
  simp only [splitAt_eq_splitOn, List.splitOn_append_cons_self]

theorem splitAt_cons_self (sep : Char) (text : List Char) :
    splitAt sep (sep :: text) = [] :: splitAt sep text := by
  simp [splitAt, splitWhere]

theorem splitAt_cons_of_ne {c : Char} (h : c ≠ sep) (text : List Char) :
    splitAt sep (c :: text) = attach c (splitAt sep text) := by
  simp [splitAt, splitWhere, h]

theorem splitAt_of_not_mem (h : sep ∉ text) : splitAt sep text = [text] := by
  rw [splitAt_eq_splitOn]
  exact List.splitOn_eq_singleton h

theorem splitAt_ne_nil (sep : Char) (text : List Char) : splitAt sep text ≠ [] := by
  rw [splitAt_eq_splitOn]
  exact List.splitOn_ne_nil sep text

/-- A piece is a part of the text without a cut in it. -/
theorem of_mem_splitWhere (h : piece ∈ splitWhere cut text) :
    piece.Sublist text ∧ ∀ c ∈ piece, cut c = false := by
  induction text generalizing piece with
  | nil =>
    obtain rfl : piece = [] := List.mem_singleton.mp h
    simp
  | cons x rest ih =>
    change piece ∈ (if cut x then [] :: splitWhere cut rest else attach x (splitWhere cut rest)) at h
    split at h
    · rcases List.mem_cons.mp h with rfl | hmem
      · simp
      · exact ⟨(ih hmem).1.cons x, (ih hmem).2⟩
    · rename_i hx
      have hx : cut x = false := by simpa using hx
      cases hpieces : splitWhere cut rest with
      | nil =>
        rw [hpieces] at h
        obtain rfl : piece = [x] := List.mem_singleton.mp h
        simpa using hx
      | cons first others =>
        rw [hpieces] at h ih
        rcases List.mem_cons.mp h with rfl | hmem
        · obtain ⟨hsublist, hkept⟩ := ih (List.mem_cons_self ..)
          exact ⟨hsublist.cons_cons x, List.forall_mem_cons.mpr ⟨hx, hkept⟩⟩
        · obtain ⟨hsublist, hkept⟩ := ih (List.mem_cons_of_mem _ hmem)
          exact ⟨hsublist.cons x, hkept⟩

theorem not_mem_of_mem_splitAt (h : piece ∈ splitAt sep text) : sep ∉ piece := by
  intro hmem
  simpa using (of_mem_splitWhere h).2 sep hmem

theorem sublist_of_mem_splitAt (h : piece ∈ splitAt sep text) : piece.Sublist text :=
  (of_mem_splitWhere h).1

/-- What stands behind the last separator does not depend on what stands in front of another one. -/
theorem afterLast_append_cons (sep : Char) (front text : List Char) :
    afterLast sep (front ++ sep :: text) = afterLast sep text := by
  rw [afterLast, List.reverse_append, List.reverse_cons, List.append_assoc, List.takeWhile_append]
  split
  · rename_i hall
    have hwhole : text.reverse.takeWhile (· != sep) = text.reverse :=
      (List.takeWhile_prefix _).eq_of_length hall
    rw [List.singleton_append, List.takeWhile_cons_of_neg (by simp), List.append_nil, afterLast, hwhole]
  · rfl

theorem afterLast_suffix (sep : Char) (text : List Char) : afterLast sep text <:+ text := by
  rw [← List.reverse_prefix, afterLast, List.reverse_reverse]
  exact List.takeWhile_prefix _

theorem not_mem_afterLast (sep : Char) (text : List Char) : sep ∉ afterLast sep text := by
  intro hmem
  simpa using List.mem_takeWhile_imp (List.mem_reverse.mp hmem)

/-- What stands behind the last separator when characters are exchanged, the separator for itself. -/
theorem afterLast_map {f : Char → Char} (hf : ∀ c, f c = sep ↔ c = sep) (text : List Char) :
    afterLast sep (text.map f) = (afterLast sep text).map f := by
  have hpred : (fun c => c != sep) ∘ f = fun c => c != sep := by
    funext c
    simp only [Function.comp_apply, bne, Bool.beq_eq_decide_eq, hf]
  rw [afterLast, ← List.map_reverse, List.takeWhile_map, hpred, ← List.map_reverse, afterLast]

theorem afterLast_of_not_mem (h : sep ∉ text) : afterLast sep text = text := by
  rw [afterLast, List.takeWhile_eq_self_iff.mpr, List.reverse_reverse]
  intro c hc
  simpa using fun heq : c = sep => h (heq ▸ List.mem_reverse.mp hc)

theorem exists_eq_append_afterLast (h : sep ∈ text) : ∃ front, text = front ++ sep :: afterLast sep text := by
  induction text with
  | nil => cases h
  | cons c rest ih =>
    by_cases hrest : sep ∈ rest
    · obtain ⟨front, hfront⟩ := ih hrest
      have hlast : afterLast sep (c :: rest) = afterLast sep rest := by
        rw [hfront, ← List.cons_append, afterLast_append_cons, afterLast_append_cons]
      exact ⟨c :: front, by rw [hlast, List.cons_append, ← hfront]⟩
    · obtain rfl : sep = c := (List.mem_cons.mp h).resolve_right hrest
      have hlast : afterLast sep (sep :: rest) = rest := by
        rw [← List.nil_append (sep :: rest), afterLast_append_cons, afterLast_of_not_mem hrest]
      exact ⟨[], by rw [hlast, List.nil_append]⟩

/-- The last stretch of a text ends like the text. -/
theorem afterLast_of_suffix {back : List Char} (hback : back <:+ text) (h : sep ∈ back) :
    afterLast sep text = afterLast sep back := by
  obtain ⟨front, rfl⟩ := hback
  obtain ⟨start, hstart⟩ := exists_eq_append_afterLast h
  rw [hstart, ← List.append_assoc, afterLast_append_cons, afterLast_append_cons]

end LineCensus.Text
