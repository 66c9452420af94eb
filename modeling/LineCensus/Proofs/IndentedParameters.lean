import LineCensus.Proofs.IndentedHeaders

/-! The parameters of a function in the indented languages: bare ones count between the brackets and annotated
ones at their colons, so that each counts once. -/
namespace LineCensus.Declaration

open Text (isBlank)

private theorem Heuristic.count_append_blanks (heuristic : Heuristic) {line back : List Char}
    (hback : ∀ x ∈ back, isBlank x = true) : heuristic.count (line ++ back) = heuristic.count line := by
  simp only [Heuristic.count, Text.trim_append_blanks line hback]

namespace Indented

open Pattern hiding requires mem_of_requires
open Text (Listed isWordChar wholeWords)

inductive IsParameter : List Char → Prop where
  | bare {name : List Char} (hname : IsName name) : IsParameter name
  | annotated {name front back type : List Char} (hname : IsName name) (hfront : ∀ x ∈ front, isBlank x = true)
    (hback : ∀ x ∈ back, isBlank x = true) (htype : type ∈ types) :
    IsParameter (name ++ (front ++ ':' :: (back ++ type)))

variable {param text front back before rest f line word : List Char} {params : List (List Char)}

namespace IsParameter

private theorem accepts_eq_false {name front back type : List Char} :
    identifier.accepts (name ++ (front ++ ':' :: (back ++ type))) = false := by
  rw [← Bool.not_eq_true]
  intro h
  cases regular.isTail_of_mem h ':' (by simp)

private theorem char_cases (h : IsParameter param) {x : Char} (hx : x ∈ param) :
    identifier.isTail x = true ∨ isBlank x = true ∨ x = ':' := by
  cases h with
  | bare hname => exact .inl (regular.isTail_of_mem hname.accepts x hx)
  | annotated hname hfront hback htype =>
    simp only [List.mem_append, List.mem_cons] at hx
    rcases hx with hx | hx | hx | hx | hx
    · exact .inl (regular.isTail_of_mem hname.accepts x hx)
    · exact .inr (.inl (hfront x hx))
    · exact .inr (.inr hx)
    · exact .inr (.inl (hback x hx))
    · exact .inl (regular.isTail_of_mem (isName_of_mem_types htype).accepts x hx)

private theorem plain (h : IsParameter param) : Plain param := by
  cases h with
  | bare hname => exact hname.plain
  | @annotated name front back type hname hfront hback htype =>
    have hassoc : name ++ (front ++ ':' :: (back ++ type)) = name ++ ((front ++ ':' :: back) ++ type) := by
      simp
    rw [hassoc]
    exact hname.plain.append_gap_append (isName_of_mem_types htype).plain (by simp)
      (gap_around hfront hback (by decide))

private theorem trim_eq (h : IsParameter param) : Text.trim param = param := by
  cases h with
  | bare hname => exact regular.trim_eq hname.accepts
  | @annotated name front back type hname hfront hback htype =>
    obtain ⟨c, others, rfl, hc, -⟩ := Identifier.exists_cons_of_accepts hname.accepts
    obtain ⟨start, last, rfl, hlast⟩ := regular.exists_concat (isName_of_mem_types htype).accepts
    exact Text.trim_between ⟨c, _, rfl, regular.not_blank (regular.tail_of_head hc)⟩
      ⟨c :: others ++ (front ++ ':' :: (back ++ start)), last, by simp, regular.not_blank hlast⟩

end IsParameter

section Annotations

def annotations (param : List Char) : Nat :=
  if identifier.accepts param then 0 else 1

private theorem countP_annotations : (param :: params).countP (fun param => !identifier.accepts param) =
    annotations param + params.countP fun param => !identifier.accepts param := by
  rw [List.countP_cons, annotations, Nat.add_comm]
  cases identifier.accepts param <;> rfl

private theorem wordNext_behind {gap : List Char} (hne : gap ≠ []) (hgap : ∀ x ∈ gap, isWordChar x = false) :
    wordNext (gap.reverse ++ before) = false := by
  obtain ⟨start, last, rfl⟩ := List.eq_nil_or_concat gap |>.resolve_left hne
  rw [List.concat_eq_append, List.reverse_append]
  exact hgap last (by simp)

private theorem wordNext_gap_append {gap : List Char} (hne : gap ≠ []) (hgap : ∀ x ∈ gap, isWordChar x = false) :
    wordNext (gap ++ rest) = false := by
  obtain ⟨x, gap, rfl⟩ := List.exists_cons_of_ne_nil hne
  exact hgap x (List.mem_cons_self ..)

private theorem not_separator_of_name {name : List Char} (hname : IsName name)
    (hfront : ∀ x ∈ front, isBlank x = true) :
    ∀ x ∈ name ++ front, x ∉ [',', ':'] := by
  rw [List.forall_mem_append]
  exact ⟨fun x hx => not_mem_marks (by decide) (.inl (regular.isTail_of_mem hname.accepts x hx)),
    fun x hx => not_mem_marks (by decide) (.inr (hfront x hx))⟩

/-- A parameter with another one behind it. -/
theorem countFrom_typeAnnotation_further (hparam : IsParameter param) (hbefore : wordNext before = false)
    (hfront : ∀ x ∈ front, isBlank x = true) (hback : ∀ x ∈ back, isBlank x = true) :
    ∃ before', wordNext before' = false ∧
      typeAnnotation.countFrom identifier before (param ++ (front ++ ',' :: (back ++ rest))) =
        annotations param + typeAnnotation.countFrom identifier before' rest := by
  have hbehind (left before : List Char) : wordNext ((left ++ ',' :: back).reverse ++ before) = false := by
    rw [List.reverse_append, List.append_assoc]
    exact wordNext_behind (by simp) (gap_around (List.forall_mem_nil _) hback (by decide))
  cases hparam with
  | bare hname =>
    refine ⟨_, hbehind (param ++ front) before, ?_⟩
    rw [← List.append_assoc, countFrom_typeAnnotation_passed (not_separator_of_name hname hfront) (by decide) hback,
      annotations, if_pos hname.accepts, Nat.zero_add]
  | @annotated name front' back' type hname hfront' hback' htype =>
    have hafter : wordNext ((front ++ ',' :: back) ++ rest) = false :=
      wordNext_gap_append (by simp) (gap_around hfront hback (by decide))
    have hcomma : ∀ x ∈ front, x ∉ [',', ':'] := fun x hx => not_mem_marks (by decide) (.inr (hfront x hx))
    rw [List.append_assoc, List.cons_append] at hafter
    refine ⟨_, hbehind front ((name ++ (front' ++ ':' :: (back' ++ type))).reverse ++ before), ?_⟩
    simp only [List.append_assoc, List.cons_append]
    rw [countFrom_typeAnnotation_name hbefore hname.accepts hfront' hback' htype hafter,
      countFrom_typeAnnotation_passed hcomma (by decide) hback, annotations, IsParameter.accepts_eq_false]
    rfl

/-- Behind the last parameter no name is annotated. -/
theorem countFrom_typeAnnotation_closed (hleft : ':' ∉ text) (hfront : ∀ x ∈ front, isBlank x = true) :
    typeAnnotation.countFrom identifier before (text ++ ')' :: (front ++ [':'])) = 0 := by
  have hcolon : ':' ∉ text ++ ')' :: front := by
    rw [List.mem_append, List.mem_cons, not_or, not_or]
    refine ⟨hleft, by decide, fun hmem => ?_⟩
    cases hfront _ hmem
  have hsplit : text ++ ')' :: (front ++ [':']) = (text ++ ')' :: front) ++ ':' :: [] := by
    simp
  rw [hsplit]
  exact countFrom_typeAnnotation_eq_zero hcolon (List.forall_mem_nil _)

/-- The last parameter. -/
theorem countFrom_typeAnnotation_last (hparam : IsParameter param) (hbefore : wordNext before = false)
    (hfront : ∀ x ∈ front, isBlank x = true) :
    typeAnnotation.countFrom identifier before (param ++ ')' :: (front ++ [':'])) = annotations param := by
  cases hparam with
  | bare hname =>
    have hcolon : ':' ∉ param := fun hmem => by cases regular.isTail_of_mem hname.accepts _ hmem
    rw [countFrom_typeAnnotation_closed hcolon hfront, annotations, if_pos hname.accepts]
  | annotated hname hfront' hback' htype =>
    have hclosed (before : List Char) : typeAnnotation.countFrom identifier before (')' :: (front ++ [':'])) = 0 :=
      countFrom_typeAnnotation_closed List.not_mem_nil hfront
    simp only [List.append_assoc, List.cons_append]
    rw [countFrom_typeAnnotation_name hbefore hname.accepts hfront' hback' htype rfl, hclosed, annotations,
      IsParameter.accepts_eq_false]
    rfl

/-- The annotated parameters of a list count one after the other. -/
theorem countFrom_typeAnnotation_parameters (hparams : ∀ param ∈ params, IsParameter param) (h : Listed ',' params text)
    (hbefore : wordNext before = false) (hfront : ∀ x ∈ front, isBlank x = true) :
    typeAnnotation.countFrom identifier before (text ++ ')' :: (front ++ [':'])) =
      params.countP fun param => !identifier.accepts param := by
  induction h generalizing before with
  | nil => exact countFrom_typeAnnotation_closed List.not_mem_nil hfront
  | one param =>
    rw [countFrom_typeAnnotation_last (hparams param (List.mem_cons_self ..)) hbefore hfront, countP_annotations]
    rfl
  | @more param front' back hfront' hback next params text _ ih =>
    obtain ⟨hparam, hlater⟩ := List.forall_mem_cons.mp hparams
    obtain ⟨before', hbefore', hfurther⟩ := countFrom_typeAnnotation_further hparam hbefore hfront' hback
    simp only [List.append_assoc, List.cons_append]
    rw [hfurther, ih hlater hbefore']
    exact countP_annotations.symm

end Annotations

/-- The bare parameters of a list count between the brackets. -/
theorem count_names_of_parameters (hparams : ∀ param ∈ params, IsParameter param) (h : Listed ',' params text) :
    Binding.names.count identifier text = params.countP fun param => identifier.accepts param := by
  have hsolid : ∀ param ∈ params, ∀ x ∈ param, outside ['\x7b', '\x7d', '[', ']', ','] x = true := by
    intro param hparam x hx
    rw [outside_eq_true_iff]
    rcases (hparams param hparam).char_cases hx with htail | hblank | rfl
    · exact not_mem_marks (by decide) (.inl htail)
    · exact not_mem_marks (by decide) (.inr hblank)
    · decide
  rw [Binding.count_names_of_listed h hsolid]
  refine List.countP_congr fun param hparam => ?_
  rw [(hparams param hparam).trim_eq]

section Headers

variable (hf : IsName f) (hparams : ∀ param ∈ params, IsParameter param) (h : Listed ',' params text)
  (hfront : ∀ x ∈ front, isBlank x = true)
  (hline : line = "def ".toList ++ (f ++ '(' :: (text ++ ')' :: (front ++ [':']))))

include hparams h in
private theorem parameters_char_cases {x : Char} (hx : x ∈ text) :
    identifier.isTail x = true ∨ isBlank x = true ∨ x ∈ [':', ','] := by
  rcases h.mem_item_or hx with ⟨param, hparam, hx⟩ | hx | rfl
  · rcases (hparams param hparam).char_cases hx with hx | hx | rfl
    · exact .inl hx
    · exact .inr (.inl hx)
    · exact .inr (.inr (by decide))
  · exact .inr (.inl hx)
  · exact .inr (.inr (by decide))

include hf hparams h hfront hline

private theorem header_char_cases {x : Char} (hx : x ∈ line) :
    identifier.isTail x = true ∨ isBlank x = true ∨ x ∈ ['(', ')', ':', ','] := by
  have hdef : ∀ x ∈ "def ".toList, identifier.isTail x = true ∨ isBlank x = true := by decide
  simp only [hline, List.mem_append, List.mem_cons, List.not_mem_nil, or_false] at hx
  rcases hx with hx | hx | rfl | hx | rfl | hx | rfl
  · exact (hdef x hx).imp_right .inl
  · exact .inl (regular.isTail_of_mem hf.accepts x hx)
  · exact .inr (.inr (by decide))
  · refine (parameters_char_cases hparams h hx).imp_right fun hx => hx.imp_right fun hx => ?_
    exact List.mem_cons_of_mem _ (List.mem_cons_of_mem _ hx)
  · exact .inr (.inr (by decide))
  · exact .inr (.inl (hfront x hx))
  · exact .inr (.inr (by decide))

private theorem not_mem_header {mark : Char} (hmark : mark ∈ ['=', '.']) : mark ∉ line := by
  have hmarks : ∀ x ∈ ['=', '.'], identifier.isTail x = false ∧ isBlank x = false ∧ x ∉ ['(', ')', ':', ','] := by
    decide
  obtain ⟨htail, hblank, hother⟩ := hmarks mark hmark
  intro hmem
  rcases header_char_cases hf hparams h hfront hline hmem with hmem | hmem | hmem
  · rw [htail] at hmem
    cases hmem
  · rw [hblank] at hmem
    cases hmem
  · exact hother hmem

/-- The only reserved word is the first one. -/
theorem not_mem_wholeWords_header (hword : word ∈ keywords) (hne : word ≠ "def".toList) : word ∉ wholeWords line := by
  have hend : ∀ x ∈ ')' :: (front ++ [':']), isWordChar x = false := by
    simp only [List.mem_cons, List.mem_append, List.not_mem_nil, or_false]
    rintro x (rfl | hx | rfl)
    · decide
    · exact Text.isWordChar_of_isBlank (hfront x hx)
    · decide
  have hsplit : line = "def".toList ++ ([' '] ++ (f ++ (['('] ++ (text ++ ((')' :: (front ++ [':'])) ++ []))))) := by
    simp [hline]
  have hparameters : Plain text := .listed h (by decide) fun param hparam => (hparams param hparam).plain
  have hplain : Plain (f ++ (['('] ++ (text ++ ((')' :: (front ++ [':'])) ++ [])))) :=
    hf.plain.append_gap_append (hparameters.append_gap_append plain_nil (by simp) hend) (by simp) (by decide)
  rw [hsplit, Text.wholeWords_append_gap_append (by simp) (by decide), Text.wholeWords_of_word (by decide) (by decide),
    List.mem_append, List.mem_singleton, not_or]
  exact ⟨hne, hplain word hword⟩

private theorem countFrom_functionParams_header :
    functionParams.countFrom identifier [] line = params.countP fun param => identifier.accepts param := by
  have hafter : '(' ∉ front ++ [':'] := by
    rw [List.mem_append, not_or]
    refine ⟨fun hmem => ?_, by decide⟩
    cases hfront _ hmem
  have hclose : ∀ x ∈ text, x ≠ ')' := by
    rintro x hx rfl
    rcases parameters_char_cases hparams h hx with hx | hx | hx
    · cases hx
    · cases hx
    · revert hx
      decide
  rw [hline, countFrom_functionParams hf.accepts hclose hafter, count_names_of_parameters hparams h]

private theorem countFrom_typeAnnotation_header :
    typeAnnotation.countFrom identifier [] line = params.countP fun param => !identifier.accepts param := by
  have hsplit : line = ("def ".toList ++ f) ++ '(' :: ([] ++ (text ++ ')' :: (front ++ [':']))) := by
    simp [hline]
  have hname : ∀ x ∈ "def ".toList ++ f, x ∉ ['(', ':'] := by
    rw [List.forall_mem_append]
    exact ⟨by decide, fun x hx => not_mem_marks (by decide) (.inl (regular.isTail_of_mem hf.accepts x hx))⟩
  rw [hsplit, countFrom_typeAnnotation_passed hname (by decide) (List.forall_mem_nil _)]
  refine countFrom_typeAnnotation_parameters hparams h ?_ hfront
  rw [List.reverse_append]
  rfl

/-- Up to its colon, the head of a function counts its parameters. -/
theorem count_function : indented.count line = params.length := by
  have hwords : ∀ word ∈ ["with".toList, "lambda".toList], word ∈ keywords ∧ word ≠ "def".toList := by decide
  have hother {word : List Char} (hword : word ∈ keywords) (hne : word ≠ "def".toList) : word ∉ wholeWords line :=
    not_mem_wholeWords_header hf hparams h hfront hline hword hne
  rw [count_header (fun mark hmark => not_mem_header hf hparams h hfront hline hmark)
      (fun word hword => hother (hwords word hword).1 (hwords word hword).2) ⟨'d', _, hline, by decide⟩
      ⟨"def ".toList ++ (f ++ '(' :: (text ++ ')' :: front)), by simp [hline]⟩,
    countFrom_eq_zero_of_words forBinder_begins (by decide) (hother (by decide) (by decide)),
    countFrom_functionParams_header hf hparams h hfront hline,
    countFrom_typeAnnotation_header hf hparams h hfront hline,
    List.length_eq_countP_add_countP fun param => identifier.accepts param]
  simp

end Headers

/-- Each parameter of a function counts once, bare or annotated. -/
theorem count_parameters (hf : IsName f) (hparams : ∀ param ∈ params, IsParameter param) (h : Listed ',' params text)
    (hfront : ∀ x ∈ front, isBlank x = true) (hback : ∀ x ∈ back, isBlank x = true) :
    indented.count ("def ".toList ++ f ++ '(' :: text ++ ')' :: front ++ ':' :: back) = params.length := by
  have hsplit : "def ".toList ++ f ++ '(' :: text ++ ')' :: front ++ ':' :: back =
      ("def ".toList ++ (f ++ '(' :: (text ++ ')' :: (front ++ [':'])))) ++ back := by
    simp
  rw [hsplit, indented.count_append_blanks hback, count_function hf hparams h hfront rfl]

/-- Parameters that are named like types or begin like one. -/
theorem count_parameters_mixed :
    let params := ["int".toList, "list : int".toList, "i".toList, "settings:set".toList]
    IsName "f".toList ∧ (∀ param ∈ params, IsParameter param) ∧
      Listed ',' params "int,list : int , i, settings:set".toList ∧
      indented.count "def f(int,list : int , i, settings:set) : ".toList = 4 := by
  intro params
  have hnames : ∀ name ∈ ["f".toList, "int".toList, "list".toList, "i".toList, "settings".toList], IsName name := by
    have hall : ∀ name ∈ ["f".toList, "int".toList, "list".toList, "i".toList, "settings".toList],
        identifier.accepts name = true ∧ name ∉ keywords := by decide
    exact fun name hname => ⟨(hall name hname).1, (hall name hname).2⟩
  have hnone : ∀ x ∈ [], isBlank x = true := List.forall_mem_nil _
  have hblank : ∀ x ∈ [' '], isBlank x = true := by decide
  have hlist : IsParameter "list : int".toList :=
    .annotated (hnames "list".toList (by decide)) hblank hblank (show "int".toList ∈ types by decide)
  have hsettings : IsParameter "settings:set".toList :=
    .annotated (hnames "settings".toList (by decide)) hnone hnone (show "set".toList ∈ types by decide)
  have hparams : ∀ param ∈ params, IsParameter param := by
    simp only [params, List.forall_mem_cons]
    exact ⟨.bare (hnames _ (by decide)), hlist, .bare (hnames _ (by decide)), hsettings, List.forall_mem_nil _⟩
  have hlisted : Listed ',' params "int,list : int , i, settings:set".toList :=
    .more _ hnone hnone (.more _ hblank hblank (.more _ hnone hblank (.one _)))
  have hf := hnames "f".toList (by decide)
  have hline : "def f(int,list : int , i, settings:set) : ".toList = "def ".toList ++ "f".toList ++
      '(' :: "int,list : int , i, settings:set".toList ++ ')' :: [' '] ++ ':' :: [' '] := by decide
  refine ⟨hf, hparams, hlisted, ?_⟩
  rw [hline]
  exact count_parameters hf hparams hlisted hblank hblank

end Indented

end LineCensus.Declaration
