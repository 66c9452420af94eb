import LineCensus.Text.Blank
import LineCensus.Text.Search
import Mathlib.Data.List.DropRight
import Mathlib.Data.List.Infix

/-! Trimming and the search for a token: what trimming leaves of a text, and where the first occurrence of
a token stands in a text that goes on with it. -/
namespace LineCensus.Text

/-- A token that no trimming cuts: it is not empty and holds no blank character. -/
structure Solid (token : List Char) : Prop where
  ne_nil : token ≠ []
  not_blank : token.any isBlank = false

theorem startsWith_iff {token text : List Char} : startsWith token text = true ↔ token <+: text :=
  List.isPrefixOf_iff_prefix

theorem startsWith_eq_false_iff {token text : List Char} :
    startsWith token text = false ↔ ¬token <+: text := by
  rw [← startsWith_iff, Bool.not_eq_true]

theorem occursIn_iff {token text : List Char} : occursIn token text = true ↔ token <:+: text := by
  induction text with
  | nil => rw [occursIn, List.isEmpty_iff, List.infix_nil]
  | cons c rest ih => rw [occursIn, Bool.or_eq_true, startsWith_iff, ih, List.infix_cons_iff]

section Trim

variable {head tail text token : List Char} {c : Char}

theorem trimEnd_isPrefix (text : List Char) : trimEnd text <+: text :=
  List.rdropWhile_prefix isBlank text

theorem trim_infix (text : List Char) : trim text <:+: text :=
  (trimEnd_isPrefix _).isInfix.trans (List.dropWhile_suffix isBlank).isInfix

theorem dropWhile_append_suffix (text tail : List Char) :
    text.dropWhile isBlank ++ tail <:+ text ++ tail := by
  obtain ⟨blanks, hblanks⟩ : text.dropWhile isBlank <:+ text := List.dropWhile_suffix isBlank
  exact ⟨blanks, by rw [← List.append_assoc, hblanks]⟩

private theorem not_blank_of_dropWhile {rest : List Char} (h : text.dropWhile isBlank = c :: rest) :
    isBlank c = false := by
  have hhead := List.head?_dropWhile_not isBlank text
  rwa [h] at hhead

theorem trim_eq_nil_iff : trim text = [] ↔ text.dropWhile isBlank = [] := by
  have hend : trim text = [] ↔ ∀ c ∈ text.dropWhile isBlank, isBlank c = true :=
    List.rdropWhile_eq_nil_iff
  rw [hend]
  constructor
  · intro h
    cases hdrop : text.dropWhile isBlank with
    | nil => rfl
    | cons c rest =>
      rw [hdrop] at h
      exact absurd (h c (List.mem_cons_self ..)) (by simp [not_blank_of_dropWhile hdrop])
  · intro h
    simp [h]

/-- Behind a text without blanks at its end only what follows is trimmed. -/
theorem trimEnd_append (h : trimEnd head = head) : trimEnd (head ++ tail) = head ++ trimEnd tail := by
  rw [trimEnd, dropEndWhile, List.reverse_append, List.dropWhile_append]
  split
  · rename_i hblank
    have htail : trimEnd tail = [] := by
      rw [trimEnd, dropEndWhile, List.isEmpty_iff.mp hblank, List.reverse_nil]
    rw [htail, List.append_nil]
    exact h
  · rw [List.reverse_append, List.reverse_reverse]
    rfl

private theorem Solid.trimEnd_append (h : Solid token) (head : List Char) :
    trimEnd (head ++ token) = head ++ token := by
  rw [← List.dropLast_concat_getLast h.ne_nil, ← List.append_assoc]
  exact List.rdropWhile_concat_neg isBlank _ _
    (List.any_eq_false.mp h.not_blank _ (List.getLast_mem h.ne_nil))

/-- Trimming a text that goes on with a token trims its start and what follows the token. -/
theorem trim_append_token (hhead : trim head ≠ []) (h : Solid token) (tail : List Char) :
    trim (head ++ token ++ tail) = head.dropWhile isBlank ++ token ++ trimEnd tail := by
  have hdrop : head.dropWhile isBlank ≠ [] := mt trim_eq_nil_iff.mpr hhead
  rw [trim, List.append_assoc, List.dropWhile_append, if_neg (by simpa using hdrop),
    ← List.append_assoc, Text.trimEnd_append (h.trimEnd_append _)]

theorem trim_dropWhile (text : List Char) : trim (text.dropWhile isBlank) = trim text := by
  rw [trim, List.dropWhile_idempotent, trim]

theorem trim_trim (text : List Char) : trim (trim text) = trim text := by
  have hend : trimEnd (trim text) = trim text := List.rdropWhile_idempotent isBlank _
  have hstart : (trim text).dropWhile isBlank = trim text := by
    cases hdrop : text.dropWhile isBlank with
    | nil => simp [trim_eq_nil_iff.mpr hdrop]
    | cons c rest =>
      have hc := not_blank_of_dropWhile hdrop
      have hsolid : Solid [c] := ⟨List.cons_ne_nil c [], by simp [hc]⟩
      have htrim : trim text = c :: trimEnd rest := by
        rw [trim, hdrop]
        exact trimEnd_append (hsolid.trimEnd_append [])
      rw [htrim, List.dropWhile_cons_of_neg (by simp [hc])]
  rw [trim, hstart, hend]

/-- A token at the start of a text is still there when the end is trimmed. -/
theorem Solid.prefix_trimEnd (h : Solid token) (hstart : token <+: text) : token <+: trimEnd text := by
  obtain ⟨rest, rfl⟩ := hstart
  have htoken : trimEnd token = token := h.trimEnd_append []
  rw [Text.trimEnd_append htoken]
  exact List.prefix_append token _

end Trim

section Token

variable {head tail text token : List Char} {c : Char}

/-- A token that does not go on with the character behind a text does not reach beyond the text. -/
theorem prefix_of_prefix_append (htext : text ≠ []) (hc : c ∉ token.tail)
    (h : token <+: text ++ c :: tail) : token <+: text := by
  rw [← List.singleton_append, ← List.append_assoc] at h
  rcases Nat.lt_or_ge text.length token.length with hlt | hle
  · have hreach : text ++ [c] <+: token :=
      List.prefix_of_prefix_length_le (List.prefix_append _ _) h (by simp; omega)
    obtain ⟨rest, rfl⟩ := hreach
    obtain ⟨first, others, rfl⟩ := List.exists_cons_of_ne_nil htext
    exact absurd (by simp) hc
  · rw [List.append_assoc] at h
    exact List.prefix_of_prefix_length_le h (List.prefix_append _ _) hle

/-- A token in front of its place in a text ends in front of the end of that place. -/
theorem prefix_dropLast (hhead : head ≠ []) (h : token <+: head ++ token ++ tail) :
    token <+: head ++ token.dropLast := by
  refine List.prefix_of_prefix_length_le h ?_ ?_
  · rw [List.append_assoc]
    exact (List.prefix_append_right_inj head).mpr
      ((List.dropLast_prefix token).trans (List.prefix_append _ _))
  · have hpos := List.length_pos_iff.mpr hhead
    simp only [List.length_append, List.length_dropLast]
    omega

/-- A token that does not begin in front of its place in a text does not end in front of it either. -/
theorem not_infix_of_first (htoken : token ≠ [])
    (hfirst : ∀ i < head.length, ¬token <+: (head ++ token ++ tail).drop i) :
    ¬token <:+: head ++ token.dropLast := by
  rintro ⟨front, back, heq⟩
  have hlength := congrArg List.length heq
  have hpos := List.length_pos_iff.mpr htoken
  simp only [List.length_append, List.length_dropLast] at hlength
  refine hfirst front.length (by omega) ⟨back ++ [token.getLast htoken] ++ tail, ?_⟩
  have hsplit : head ++ token ++ tail =
      front ++ (token ++ (back ++ [token.getLast htoken] ++ tail)) := by
    calc head ++ token ++ tail
        = head ++ token.dropLast ++ [token.getLast htoken] ++ tail := by
          rw [List.append_assoc head token.dropLast, List.dropLast_concat_getLast]
      _ = front ++ (token ++ (back ++ [token.getLast htoken] ++ tail)) := by
          rw [← heq]
          simp only [List.append_assoc]
  rw [hsplit, List.drop_left]

theorem upTo_eq_self (h : ¬token <:+: text) : upTo token text = text := by
  induction text with
  | nil => rfl
  | cons c rest ih =>
    rw [List.infix_cons_iff, not_or] at h
    rw [upTo, startsWith_eq_false_iff.mpr h.1, ih h.2]
    rfl

theorem upTo_append_token (htoken : token ≠ []) (h : ¬token <:+: head ++ token.dropLast) :
    upTo token (head ++ token ++ tail) = head := by
  induction head with
  | nil =>
    obtain ⟨c, rest, rfl⟩ := List.exists_cons_of_ne_nil htoken
    have hstart : startsWith (c :: rest) (c :: rest ++ tail) = true :=
      startsWith_iff.mpr (List.prefix_append _ _)
    rw [List.nil_append, List.cons_append, upTo, ← List.cons_append, if_pos hstart]
  | cons c rest ih =>
    have hstart : ¬token <+: c :: rest ++ token ++ tail := fun hstart =>
      h (prefix_dropLast (List.cons_ne_nil c rest) hstart).isInfix
    have hrest : ¬token <:+: rest ++ token.dropLast := fun hwithin =>
      h (hwithin.trans (List.suffix_cons c _).isInfix)
    rw [List.cons_append, List.cons_append] at hstart ⊢
    rw [upTo, startsWith_eq_false_iff.mpr hstart, ih hrest]
    rfl

end Token

end LineCensus.Text
