import LineCensus.Proofs.FamilyScan
import LineCensus.Proofs.JoinedTexts
import Mathlib.Data.List.Basic

/-! Lists of names as they are written: items with a separator between two and any blank characters around
it. A list of identifiers ends at one place only, which is where a pattern for it has to stop. -/
namespace LineCensus

namespace Text

variable {a b r s text front back : List Char} {p : Char → Bool} {sep : Char}

section Stretches

/-- A stretch of accepted characters ends where the first other character stands. -/
theorem stretch_unique (ha : ∀ x ∈ a, p x = true) (hb : ∀ x ∈ b, p x = true) (hr : ∀ x ∈ r.head?, p x = false)
    (hs : ∀ x ∈ s.head?, p x = false) (h : a ++ r = b ++ s) : a = b ∧ r = s := by
  have hstop {rest : List Char} (hrest : ∀ x ∈ rest.head?, p x = false) : rest.takeWhile p = [] := by
    cases rest with
    | nil => rfl
    | cons x rest => exact List.takeWhile_cons_of_neg (by simp [hrest x rfl])
  have hprefix := congrArg (List.takeWhile p) h
  rw [List.takeWhile_append_of_pos ha, List.takeWhile_append_of_pos hb, hstop hr, hstop hs,
    List.append_nil, List.append_nil] at hprefix
  subst hprefix
  exact ⟨rfl, List.append_cancel_left h⟩

theorem stretch_cons_unique {x y : Char} (ha : ∀ x ∈ a, p x = true) (hb : ∀ x ∈ b, p x = true)
    (hx : p x = false) (hy : p y = false) (h : a ++ x :: r = b ++ y :: s) : a = b ∧ x = y ∧ r = s := by
  have hhead {z : Char} {rest : List Char} (hz : p z = false) : ∀ c ∈ (z :: rest).head?, p c = false := by
    rintro c ⟨⟩
    exact hz
  obtain ⟨hab, hrest⟩ := stretch_unique ha hb (hhead hx) (hhead hy) h
  exact ⟨hab, List.cons.inj hrest⟩

/-- The first place of a mark. -/
theorem first_mark_unique {mark : Char} (ha : mark ∉ a) (hb : mark ∉ b) (h : a ++ mark :: r = b ++ mark :: s) :
    a = b ∧ r = s := by
  have hother {text : List Char} (htext : mark ∉ text) : ∀ x ∈ text, (x != mark) = true :=
    fun x hx => bne_iff_ne.mpr fun heq => htext (heq ▸ hx)
  obtain ⟨hab, -, hrest⟩ := stretch_cons_unique (hother ha) (hother hb) (by simp) (by simp) h
  exact ⟨hab, hrest⟩

/-- The last character in front of a stretch of accepted ones at the end. -/
theorem stretch_end_unique {x y : Char} (hr : ∀ x ∈ r, p x = true) (hs : ∀ x ∈ s, p x = true)
    (hx : p x = false) (hy : p y = false) (h : a ++ x :: r = b ++ y :: s) : a = b ∧ x = y ∧ r = s := by
  have hreverse := congrArg List.reverse h
  simp only [List.reverse_append, List.reverse_cons, List.append_assoc, List.singleton_append] at hreverse
  obtain ⟨hrs, hxy, hab⟩ := stretch_cons_unique (fun x hx => hr x (List.mem_reverse.mp hx))
    (fun x hx => hs x (List.mem_reverse.mp hx)) hx hy hreverse
  exact ⟨List.reverse_injective hab, hxy, List.reverse_injective hrs⟩

end Stretches

section Infixes

variable {core : List Char} {c mark : Char}

private theorem prefix_of_prefix_append_cons (hmark : mark ∉ core) (h : core <+: a ++ mark :: b) : core <+: a := by
  have hthrough : a ++ [mark] <+: a ++ mark :: b := ⟨b, by rw [List.append_assoc, List.singleton_append]⟩
  rcases List.prefix_or_prefix_of_prefix h hthrough with hwithin | hbeyond
  · rcases List.prefix_concat_iff.mp hwithin with rfl | hwithin
    · exact absurd (by simp) hmark
    · exact hwithin
  · exact absurd (hbeyond.subset (by simp)) hmark

/-- A part of a text that lacks a character stands on one side of it. -/
theorem infix_append_cons (hmark : mark ∉ core) (h : core <:+: a ++ mark :: b) : core <:+: a ∨ core <:+: b := by
  induction a with
  | nil =>
    rcases List.infix_cons_iff.mp h with hprefix | hwithin
    · exact .inl (prefix_of_prefix_append_cons (a := []) hmark hprefix).isInfix
    · exact .inr hwithin
  | cons x a ih =>
    rcases List.infix_cons_iff.mp h with hprefix | hwithin
    · exact .inl (prefix_of_prefix_append_cons hmark hprefix).isInfix
    · exact (ih hwithin).imp_left fun hleft => hleft.trans (List.suffix_cons x a).isInfix

theorem infix_of_infix_append (hc : c ∉ front) (h : c :: core <:+: front ++ text) : c :: core <:+: text := by
  induction front with
  | nil => exact h
  | cons x front ih =>
    rw [List.mem_cons, not_or] at hc
    rcases List.infix_cons_iff.mp h with hprefix | hwithin
    · exact absurd (List.cons_prefix_cons.mp hprefix).1 hc.1
    · exact ih hc.2 hwithin

theorem infix_of_append_infix (hc : c ∉ back) (h : core ++ [c] <:+: text ++ back) : core ++ [c] <:+: text := by
  rw [← List.reverse_infix, List.reverse_append, List.reverse_append] at h
  rw [← List.reverse_infix, List.reverse_append]
  exact infix_of_infix_append (fun hmem => hc (List.mem_reverse.mp hmem)) h

/-- What stands behind a character that the text in front of a place lacks stands behind this place. -/
theorem suffix_of_append_cons_eq {x y : Char} (hy : y ∉ a) (h : a ++ x :: b = r ++ y :: s) : s <:+ b := by
  rcases List.append_eq_append_iff.mp h with ⟨front, -, hback⟩ | ⟨front, rfl, hback⟩
  · cases front with
    | nil => exact (List.cons.inj hback).2 ▸ List.suffix_refl s
    | cons z front =>
      obtain rfl : b = front ++ y :: s := (List.cons.inj hback).2
      exact ⟨front ++ [y], by simp⟩
  · cases front with
    | nil => exact (List.cons.inj hback).2 ▸ List.suffix_refl b
    | cons z front =>
      rw [← (List.cons.inj hback).1] at hy
      simp at hy

/-- What stands behind some mark also stands behind the first one. -/
theorem mem_of_append_cons_eq (hmark : mark ∉ a) (h : a ++ mark :: b = r ++ mark :: s) (hc : c ∈ s) : c ∈ b :=
  (suffix_of_append_cons_eq hmark h).subset hc

end Infixes

theorem not_blank_of_toNat {c : Char} (h : 33 ≤ c.toNat) (h' : c.toNat < 128) : isBlank c = false := by
  rw [← Bool.not_eq_true]
  simp only [isBlank, Bool.or_eq_true, Bool.and_eq_true, decide_eq_true_eq, beq_iff_eq]
  omega

theorem toNat_of_alphanumeric {c : Char} (h : isLetter c = true ∨ isDigit c = true) : 33 ≤ c.toNat ∧ c.toNat < 128 := by
  simp only [isLetter, isDigit, Bool.or_eq_true, Bool.and_eq_true, decide_eq_true_eq, Char.le_def,
    UInt32.le_iff_toNat_le, Char.reduceVal, UInt32.reduceToNat] at h
  have hval : c.toNat = c.val.toNat := rfl
  omega

private theorem trim_eq_self (hfirst : ∀ c ∈ text.head?, isBlank c = false)
    (hlast : ∀ c ∈ text.getLast?, isBlank c = false) :
    trim text = text := by
  have hstart : text.dropWhile isBlank = text := by
    cases text with
    | nil => rfl
    | cons c rest => exact List.dropWhile_cons_of_neg (by simp [hfirst c rfl])
  rw [trim, hstart]
  refine List.rdropWhile_eq_self_iff.mpr fun hne => ?_
  simp [hlast _ (List.getLast?_eq_some_getLast hne)]

/-- A text that begins and ends with other characters than blank ones. -/
theorem trim_between (hfirst : ∃ first rest, text = first :: rest ∧ isBlank first = false)
    (hlast : ∃ start last, text = start ++ [last] ∧ isBlank last = false) : trim text = text := by
  obtain ⟨first, rest, hfirst, hblank⟩ := hfirst
  obtain ⟨start, last, hlast, hblank'⟩ := hlast
  refine trim_eq_self ?_ ?_
  · rw [hfirst]
    rintro c ⟨⟩
    exact hblank
  · rw [hlast, List.getLast?_concat]
    rintro c ⟨⟩
    exact hblank'

/-- Items one after another, with a separator between two and any blank characters around it. -/
inductive Listed (sep : Char) : List (List Char) → List Char → Prop where
  | nil : Listed sep [] []
  | one (item : List Char) : Listed sep [item] item
  | more (item : List Char) {front back : List Char} (hfront : ∀ c ∈ front, isBlank c = true)
    (hback : ∀ c ∈ back, isBlank c = true) {next : List Char} {items : List (List Char)} {text : List Char}
    (h : Listed sep (next :: items) text) :
    Listed sep (item :: next :: items) (item ++ (front ++ sep :: (back ++ text)))

namespace Listed

variable {item : List Char} {items : List (List Char)}

theorem head?_eq (h : Listed sep (item :: items) text) (hne : item ≠ []) : text.head? = item.head? := by
  obtain ⟨c, rest, rfl⟩ := List.exists_cons_of_ne_nil hne
  cases h <;> rfl

private theorem ne_nil (h : Listed sep items text) (hitems : items ≠ []) (hne : ∀ item ∈ items, item ≠ []) :
    text ≠ [] := by
  obtain ⟨item, others, rfl⟩ := List.exists_cons_of_ne_nil hitems
  have hitem := hne item (List.mem_cons_self ..)
  rintro rfl
  exact hitem (List.head?_eq_none_iff.mp (h.head?_eq hitem).symm)

private theorem exists_getLast? (h : Listed sep items text) (hitems : items ≠ []) (hne : ∀ item ∈ items, item ≠ []) :
    ∃ item ∈ items, text.getLast? = item.getLast? := by
  induction h with
  | nil => exact absurd rfl hitems
  | one item => exact ⟨item, List.mem_cons_self .., rfl⟩
  | @more item front back hfront hback next items text h ih =>
    have hlater := (List.forall_mem_cons.mp hne).2
    obtain ⟨last, hlast, heq⟩ := ih (List.cons_ne_nil next items) hlater
    refine ⟨last, List.mem_cons_of_mem _ hlast, ?_⟩
    have htext : text ≠ [] := h.ne_nil (List.cons_ne_nil next items) hlater
    obtain ⟨start, c, rfl⟩ := List.eq_nil_or_concat text |>.resolve_left htext
    simp only [← heq, List.concat_eq_append, ← List.append_assoc, ← List.cons_append, List.getLast?_concat]

/-- A list ends as its last item does. -/
theorem exists_concat {P : Char → Prop} (h : Listed sep items text) (hitems : items ≠ [])
    (hlast : ∀ item ∈ items, ∃ start last, item = start ++ [last] ∧ P last) :
    ∃ start last, text = start ++ [last] ∧ P last := by
  obtain ⟨item, hitem, hends⟩ := h.exists_getLast? hitems fun item hitem => by
    obtain ⟨start, last, rfl, -⟩ := hlast item hitem
    simp
  obtain ⟨start, last, rfl, hP⟩ := hlast item hitem
  rw [List.getLast?_concat, List.getLast?_eq_some_iff] at hends
  obtain ⟨front, rfl⟩ := hends
  exact ⟨front, last, rfl, hP⟩

theorem mem_item_or {c : Char} (h : Listed sep items text) (hc : c ∈ text) :
    (∃ item ∈ items, c ∈ item) ∨ isBlank c = true ∨ c = sep := by
  induction h with
  | nil => cases hc
  | one item => exact .inl ⟨item, List.mem_cons_self .., hc⟩
  | more item hfront hback _ ih =>
    simp only [List.mem_append, List.mem_cons] at hc
    rcases hc with hc | hc | hc | hc | hc
    · exact .inl ⟨item, List.mem_cons_self .., hc⟩
    · exact .inr (.inl (hfront c hc))
    · exact .inr (.inr hc)
    · exact .inr (.inl (hback c hc))
    · rcases ih hc with ⟨other, hother, hmem⟩ | hc
      · exact .inl ⟨other, List.mem_cons_of_mem _ hother, hmem⟩
      · exact .inr hc

/-- Cutting a list at its separators gives the items back. -/
theorem map_trim_splitAt (h : Listed sep items text) (hblank : isBlank sep = false) (hitems : items ≠ [])
    (hsep : ∀ item ∈ items, sep ∉ item) : (splitAt sep text).map trim = items.map trim := by
  induction h with
  | nil => exact absurd rfl hitems
  | one item => rw [splitAt_of_not_mem (hsep item (List.mem_cons_self ..))]
  | @more item front back hfront hback next items text _ ih =>
    obtain ⟨hitem, hlater⟩ := List.forall_mem_cons.mp hsep
    have hfirst : sep ∉ item ++ front := by
      rw [List.mem_append, not_or]
      refine ⟨hitem, fun hmem => ?_⟩
      rw [hfront sep hmem] at hblank
      cases hblank
    rw [← List.append_assoc, splitAt_append_cons, splitAt_of_not_mem hfirst, List.map_append,
      map_trim_splitAt_front hblank _ hback, ih (List.cons_ne_nil next items) hlater, List.map_singleton,
      trim_append_blanks _ hfront, List.singleton_append]
    rfl

/-- A part of a list without separators that neither begins nor ends with a blank character is part of an item. -/
theorem exists_infix_item {core : List Char} {first last : Char} (h : Listed sep items text) (hsep : sep ∉ core)
    (hfirst : core.head? = some first) (hlast : core.getLast? = some last)
    (hblank : isBlank first = false ∧ isBlank last = false) (hcore : core <:+: text) :
    ∃ item ∈ items, core <:+: item := by
  obtain ⟨others, rfl⟩ := List.head?_eq_some_iff.mp hfirst
  induction h with
  | nil => exact absurd hcore.length_le (by simp)
  | one item => exact ⟨item, List.mem_cons_self .., hcore⟩
  | @more item front back hfront hback next items text _ ih =>
    have hnot {chars : List Char} (hchars : ∀ x ∈ chars, isBlank x = true) {x : Char} (hx : isBlank x = false) :
        x ∉ chars := fun hmem => absurd (hchars x hmem) (by simp [hx])
    rw [← List.append_assoc] at hcore
    rcases infix_append_cons hsep hcore with hcore | hcore
    · obtain ⟨start, hstart⟩ := List.getLast?_eq_some_iff.mp hlast
      rw [hstart] at hcore ⊢
      exact ⟨item, List.mem_cons_self .., infix_of_append_infix (hnot hfront hblank.2) hcore⟩
    · obtain ⟨other, hother, hwithin⟩ := ih (infix_of_infix_append (hnot hback hblank.1) hcore)
      exact ⟨other, List.mem_cons_of_mem _ hother, hwithin⟩

/-- The pieces between the separators are the items, with blank characters around them. -/
theorem countP_splitAt {P : List Char → Bool} (h : Listed sep items text) (hitems : items ≠ [])
    (hsep : ∀ item ∈ items, sep ∉ item) (hblank : isBlank sep = false)
    (hP : ∀ item ∈ items, ∀ front back, (∀ x ∈ front, isBlank x = true) → (∀ x ∈ back, isBlank x = true) →
      P (front ++ (item ++ back)) = true) : (splitAt sep text).countP P = items.length := by
  have hnot {chars : List Char} (hchars : ∀ x ∈ chars, isBlank x = true) : sep ∉ chars :=
    fun hmem => absurd (hchars sep hmem) (by simp [hblank])
  suffices hpieces : ∀ front, (∀ x ∈ front, isBlank x = true) →
      (splitAt sep (front ++ text)).countP P = items.length from hpieces [] (List.forall_mem_nil _)
  induction h with
  | nil => exact absurd rfl hitems
  | one item =>
    intro start hstart
    have hitem : sep ∉ start ++ item := by
      rw [List.mem_append, not_or]
      exact ⟨hnot hstart, hsep item (List.mem_cons_self ..)⟩
    have hpiece := hP item (List.mem_cons_self ..) start [] hstart (List.forall_mem_nil _)
    rw [List.append_nil] at hpiece
    rw [splitAt_of_not_mem hitem, List.countP_singleton, hpiece]
    rfl
  | @more item front back hfront hback next items text _ ih =>
    intro start hstart
    obtain ⟨hitem, hlater⟩ := List.forall_mem_cons.mp hsep
    obtain ⟨hpiece, hpieces⟩ := List.forall_mem_cons.mp hP
    have hfirst : sep ∉ start ++ (item ++ front) := by
      simp only [List.mem_append, not_or]
      exact ⟨hnot hstart, hitem, hnot hfront⟩
    have hassoc : start ++ (item ++ (front ++ sep :: (back ++ text))) =
        (start ++ (item ++ front)) ++ sep :: (back ++ text) := by
      simp only [List.append_assoc]
    rw [hassoc, splitAt_append_cons, splitAt_of_not_mem hfirst, List.countP_append, List.countP_singleton,
      hpiece start front hstart hfront, ih (List.cons_ne_nil next items) hlater hpieces back hback, List.length_cons,
      Nat.add_comm]
    rfl

end Listed

end Text

namespace Declaration

open Text (Listed isBlank stretch_unique stretch_cons_unique)

structure Identifier.Regular (identifier : Identifier) : Prop where
  tail_of_head : ∀ {c}, identifier.isHead c = true → identifier.isTail c = true
  not_blank : ∀ {c}, identifier.isTail c = true → isBlank c = false
  comma : identifier.isTail ',' = false

variable {identifier : Identifier} {name text rest a b r s : List Char} {names others : List (List Char)} {c : Char}

theorem Identifier.exists_cons_of_accepts (h : identifier.accepts name = true) :
    ∃ c rest, name = c :: rest ∧ identifier.isHead c = true ∧ ∀ x ∈ rest, identifier.isTail x = true := by
  cases name with
  | nil => cases h
  | cons c rest =>
    obtain ⟨hc, hrest⟩ := Bool.and_eq_true_iff.mp h
    exact ⟨c, rest, rfl, hc, List.all_eq_true.mp hrest⟩

namespace Identifier.Regular

variable (hregular : identifier.Regular)
include hregular

theorem isTail_of_mem (h : identifier.accepts name = true) : ∀ x ∈ name, identifier.isTail x = true := by
  obtain ⟨c, rest, rfl, hc, hrest⟩ := exists_cons_of_accepts h
  exact List.forall_mem_cons.mpr ⟨hregular.tail_of_head hc, hrest⟩

theorem exists_concat (h : identifier.accepts name = true) :
    ∃ start last, name = start ++ [last] ∧ identifier.isTail last = true := by
  have hne : name ≠ [] := by
    rintro rfl
    cases h
  exact ⟨name.dropLast, name.getLast hne, (List.dropLast_concat_getLast hne).symm,
    hregular.isTail_of_mem h _ (List.getLast_mem hne)⟩

theorem not_isTail_of_isBlank (hc : isBlank c = true) : identifier.isTail c = false := by
  rw [← Bool.not_eq_true]
  intro htail
  rw [hregular.not_blank htail] at hc
  cases hc

theorem trim_eq (h : identifier.accepts name = true) : Text.trim name = name := by
  have hblank : ∀ x ∈ name, isBlank x = false := fun x hx => hregular.not_blank (hregular.isTail_of_mem h x hx)
  exact Text.trim_eq_self (fun c hc => hblank c (List.mem_of_head? hc))
    (fun c hc => hblank c (List.mem_of_getLast? hc))

theorem not_isTail_head?_of_ne_nil {front : List Char} (hfront : ∀ x ∈ front, isBlank x = true) (hne : front ≠ [])
    (rest : List Char) : ∀ x ∈ (front ++ rest).head?, identifier.isTail x = false := by
  obtain ⟨y, front, rfl⟩ := List.exists_cons_of_ne_nil hne
  rintro x ⟨⟩
  exact hregular.not_isTail_of_isBlank (hfront y (List.mem_cons_self ..))

/-- Behind a name stand blank characters and then something that is no part of one. -/
theorem not_isTail_head? {front : List Char} (hfront : ∀ x ∈ front, isBlank x = true)
    (hrest : ∀ x ∈ rest.head?, identifier.isTail x = false) :
    ∀ x ∈ (front ++ rest).head?, identifier.isTail x = false := by
  cases front with
  | nil => exact hrest
  | cons y front => exact hregular.not_isTail_head?_of_ne_nil hfront (List.cons_ne_nil y front) rest

end Identifier.Regular

structure Identifier.Names (identifier : Identifier) (names : List (List Char)) (text : List Char) : Prop where
  listed : Listed ',' names text
  accepted : ∀ name ∈ names, identifier.accepts name = true

/-- What follows a list of names that is complete: neither more of its last name nor a comma. -/
structure Identifier.Ends (identifier : Identifier) (rest : List Char) : Prop where
  head : ∀ c ∈ rest.head?, identifier.isTail c = false
  comma : ∀ front back, (∀ c ∈ front, isBlank c = true) → rest ≠ front ++ ',' :: back

theorem Identifier.Regular.ends (hregular : identifier.Regular) {front : List Char}
    (hfront : ∀ c ∈ front, isBlank c = true) (hhead : front = [] → ∀ c ∈ rest.head?, identifier.isTail c = false)
    (hrest : ∀ c ∈ rest.head?, isBlank c = false ∧ c ≠ ',') : identifier.Ends (front ++ rest) where
  head := by
    cases front with
    | nil => exact hhead rfl
    | cons x front => exact hregular.not_isTail_head?_of_ne_nil hfront (List.cons_ne_nil x front) rest
  comma := by
    intro front' back hfront' h
    have hblank : ∀ c ∈ (',' :: back).head?, isBlank c = false := by
      rintro c ⟨⟩
      decide
    obtain ⟨-, rfl⟩ := stretch_unique hfront hfront' (fun c hc => (hrest c hc).1) hblank h
    exact (hrest ',' rfl).2 rfl

namespace Identifier.Regular

variable (hregular : identifier.Regular) {space : List Char} {mark : Char}
include hregular

/-- Behind a complete list stand blank characters and a mark. -/
theorem ends_mark (hspace : ∀ x ∈ space, isBlank x = true)
    (hmark : identifier.isTail mark = false ∧ isBlank mark = false ∧ mark ≠ ',') :
    identifier.Ends (space ++ mark :: rest) := by
  refine hregular.ends hspace (fun _ => ?_) ?_
  · rintro x ⟨⟩
    exact hmark.1
  · rintro x ⟨⟩
    exact hmark.2

theorem not_isTail_head?_mark (hspace : ∀ x ∈ space, isBlank x = true) (hmark : identifier.isTail mark = false) :
    ∀ x ∈ (space ++ mark :: rest).head?, identifier.isTail x = false := by
  refine hregular.not_isTail_head? hspace ?_
  rintro x ⟨⟩
  exact hmark

end Identifier.Regular

namespace Identifier.Names

theorem single (h : identifier.accepts name = true) : identifier.Names [name] name :=
  ⟨.one name, List.forall_mem_singleton.mpr h⟩

theorem head (h : identifier.Names (name :: names) text) : identifier.accepts name = true :=
  h.accepted name (List.mem_cons_self ..)

theorem exists_cons (h : identifier.Names names text) (hne : names ≠ []) :
    ∃ c rest, text = c :: rest ∧ identifier.isHead c = true := by
  obtain ⟨name, names, rfl⟩ := List.exists_cons_of_ne_nil hne
  obtain ⟨c, others, rfl, hc, -⟩ := exists_cons_of_accepts h.head
  have hhead := h.listed.head?_eq (List.cons_ne_nil c others)
  rw [List.head?_cons, List.head?_eq_some_iff] at hhead
  obtain ⟨rest, rfl⟩ := hhead
  exact ⟨c, rest, rfl, hc⟩

variable (hregular : identifier.Regular)
include hregular

theorem exists_concat (h : identifier.Names names text) (hne : names ≠ []) :
    ∃ start last, text = start ++ [last] ∧ identifier.isTail last = true :=
  h.listed.exists_concat hne fun name hname => hregular.exists_concat (h.accepted name hname)

private theorem isTail_or (h : identifier.Names names text) (hc : c ∈ text) :
    identifier.isTail c = true ∨ isBlank c = true ∨ c = ',' := by
  rcases h.listed.mem_item_or hc with ⟨name, hname, hmem⟩ | hc
  · exact .inl (hregular.isTail_of_mem (h.accepted name hname) c hmem)
  · exact .inr hc

theorem not_mem {mark : Char} (h : identifier.Names names text)
    (hmark : identifier.isTail mark = false ∧ isBlank mark = false ∧ mark ≠ ',') : mark ∉ text := by
  intro hmem
  rcases h.isTail_or hregular hmem with htail | hblank | hcomma
  · rw [htail] at hmark
    cases hmark.1
  · rw [hblank] at hmark
    cases hmark.2.1
  · exact hmark.2.2 hcomma

theorem not_blank_head? (h : identifier.Names names text) (hne : names ≠ []) (rest : List Char) :
    ∀ c ∈ (text ++ rest).head?, isBlank c = false := by
  obtain ⟨c, others, rfl, hc⟩ := h.exists_cons hne
  rintro x ⟨⟩
  exact hregular.not_blank (hregular.tail_of_head hc)

/-- A complete list of names ends at one place only. -/
theorem unique (ha : identifier.Names names a) (hb : identifier.Names others b) (hne : names ≠ [])
    (hne' : others ≠ []) (hr : identifier.Ends r) (hs : identifier.Ends s) (h : a ++ r = b ++ s) :
    a = b ∧ r = s := by
  have hcomma {front back : List Char} (hfront : ∀ c ∈ front, isBlank c = true) :
      ∀ c ∈ (front ++ ',' :: back).head?, identifier.isTail c = false := by
    refine hregular.not_isTail_head? hfront ?_
    rintro c ⟨⟩
    exact hregular.comma
  have hblank : isBlank ',' = false := by decide
  obtain ⟨ha, hnames⟩ := ha
  induction ha generalizing others b with
  | nil => exact absurd rfl hne
  | one name =>
    have hname := hregular.isTail_of_mem (hnames name (List.mem_cons_self ..))
    obtain ⟨hb, hothers⟩ := hb
    cases hb with
    | nil => exact absurd rfl hne'
    | one => exact stretch_unique hname (hregular.isTail_of_mem (hothers b (List.mem_cons_self ..))) hr.head hs.head h
    | more other hfront _ _ =>
      rw [List.append_assoc, List.append_assoc, List.cons_append] at h
      obtain ⟨-, hrest⟩ := stretch_unique hname
        (hregular.isTail_of_mem (hothers other (List.mem_cons_self ..))) hr.head (hcomma hfront) h
      exact absurd hrest (hr.comma _ _ hfront)
  | @more name front back hfront hback next items text hlist ih =>
    obtain ⟨hname, hlater⟩ := List.forall_mem_cons.mp hnames
    have hname := hregular.isTail_of_mem hname
    rw [List.append_assoc, List.append_assoc, List.cons_append, List.append_assoc] at h
    obtain ⟨hb, hothers⟩ := hb
    cases hb with
    | nil => exact absurd rfl hne'
    | one =>
      obtain ⟨-, hrest⟩ := stretch_unique hname
        (hregular.isTail_of_mem (hothers b (List.mem_cons_self ..))) (hcomma hfront) hs.head h
      exact absurd hrest.symm (hs.comma _ _ hfront)
    | @more other front' back' hfront' hback' next' items' text' hlist' =>
      obtain ⟨hother, hlater'⟩ := List.forall_mem_cons.mp hothers
      have hnext := List.cons_ne_nil next items
      have hnext' := List.cons_ne_nil next' items'
      rw [List.append_assoc, List.append_assoc, List.cons_append, List.append_assoc] at h
      obtain ⟨rfl, hbehind⟩ :=
        stretch_unique hname (hregular.isTail_of_mem hother) (hcomma hfront) (hcomma hfront') h
      obtain ⟨rfl, -, hlists⟩ := stretch_cons_unique hfront hfront' hblank hblank hbehind
      obtain ⟨rfl, htexts⟩ := stretch_unique hback hback' (not_blank_head? hregular ⟨hlist, hlater⟩ hnext r)
        (not_blank_head? hregular ⟨hlist', hlater'⟩ hnext' s) hlists
      obtain ⟨rfl, rfl⟩ := ih ⟨hlist', hlater'⟩ hnext hnext' htexts hlater
      exact ⟨rfl, rfl⟩

end Identifier.Names

section Marks

variable {line found : List Char} {mark : Char}

def Identifier.isMark (identifier : Identifier) (c : Char) : Bool :=
  !identifier.isTail c && !isBlank c && c != ','

def Identifier.marks (identifier : Identifier) (line : List Char) : List Char :=
  line.filter identifier.isMark

namespace Identifier

theorem marks_append (front back : List Char) :
    identifier.marks (front ++ back) = identifier.marks front ++ identifier.marks back :=
  List.filter_append ..

theorem marks_cons (c : Char) (line : List Char) :
    identifier.marks (c :: line) = identifier.marks [c] ++ identifier.marks line :=
  marks_append [c] line

theorem marks_blanks (h : ∀ x ∈ text, isBlank x = true) : identifier.marks text = [] := by
  rw [marks, List.filter_eq_nil_iff]
  intro c hc
  simp [isMark, h c hc]

theorem marks_of_isTail (h : ∀ x ∈ text, identifier.isTail x = true) : identifier.marks text = [] := by
  rw [marks, List.filter_eq_nil_iff]
  intro c hc
  simp [isMark, h c hc]

theorem Names.marks_eq (h : identifier.Names names text) (hregular : identifier.Regular) :
    identifier.marks text = [] := by
  rw [marks, List.filter_eq_nil_iff]
  intro c hc
  rcases h.isTail_or hregular hc with hc | hc | rfl
  · simp [isMark, hc]
  · simp [isMark, hc]
  · simp [isMark]

theorem exists_of_mem_marks {sep : Char} {items : List (List Char)} (h : Listed sep items text)
    (hmark : mark ∈ identifier.marks text) : mark = sep ∨ ∃ item ∈ items, mark ∈ identifier.marks item := by
  obtain ⟨hmem, hkind⟩ := List.mem_filter.mp hmark
  rcases h.mem_item_or hmem with ⟨item, hitem, hmem⟩ | hblank | rfl
  · exact .inr ⟨item, hitem, List.mem_filter.mpr ⟨hmem, hkind⟩⟩
  · simp [isMark, hblank] at hkind
  · exact .inl rfl

theorem not_mem_of_marks (identifier : Identifier) (found : List Char) (hmarks : identifier.marks line = found)
    (hmark : identifier.isMark mark = true ∧ mark ∉ found) : mark ∉ line := by
  intro hmem
  exact hmark.2 (hmarks ▸ List.mem_filter.mpr ⟨hmem, hmark.1⟩)

end Identifier

/-- The families that can count in a line with the given marks. -/
theorem Heuristic.count_of_marks (heuristic : Heuristic) (absent : List Char)
    (hmarks : heuristic.identifier.marks line = found)
    (habsent : ∀ x ∈ absent, heuristic.identifier.isMark x = true ∧ x ∉ found)
    (hfirst : ∃ first rest, line = first :: rest ∧ isBlank first = false)
    (hlast : ∃ start last, line = start ++ [last] ∧ isBlank last = false)
    (hletter : ∃ c ∈ line, isPunctuation [c] = false) :
    heuristic.count line = total (fun family => family.countFrom heuristic.identifier [] line)
      (heuristic.familiesWithout absent) := by
  obtain ⟨c, hc, hletter⟩ := hletter
  exact Heuristic.count_eq_total absent (Text.trim_between hfirst hlast) hc hletter
    fun x hx => heuristic.identifier.not_mem_of_marks found hmarks (habsent x hx)

end Marks

section Patterns

open Pattern (blanks lit star plus outside among)

variable {before after : List Char}

private theorem spells_further : (blanks ++ lit "," ++ blanks ++ identifier.pattern).Spells before text after ↔
    ∃ front back name, (∀ c ∈ front, isBlank c = true) ∧ (∀ c ∈ back, isBlank c = true) ∧
      identifier.accepts name = true ∧ text = front ++ ',' :: (back ++ name) := by
  simp only [Pattern.spells_append, Pattern.spells_blanks, Pattern.spells_lit, Identifier.spells_pattern]
  constructor
  · rintro ⟨_, name, rfl, ⟨_, back, rfl, ⟨front, _, rfl, hfront, rfl⟩, hback⟩, hname⟩
    exact ⟨front, back, name, hfront, hback, hname, by simp⟩
  · rintro ⟨front, back, name, hfront, hback, hname, rfl⟩
    exact ⟨_, name, by simp, ⟨front ++ ",".toList, back, rfl, ⟨front, _, rfl, hfront, rfl⟩, hback⟩, hname⟩

private theorem not_spells_further_nil :
    ¬(blanks ++ lit "," ++ blanks ++ identifier.pattern).Spells before [] after := by
  rw [spells_further]
  rintro ⟨front, back, name, -, -, -, h⟩
  simp at h

private theorem names_of_repeated
    (h : Pattern.Repeated (blanks ++ lit "," ++ blanks ++ identifier.pattern) after before text)
    (hname : identifier.accepts name = true) :
    ∃ names, identifier.Names (name :: names) (name ++ text) ∧ (names = [] → text = []) := by
  induction h generalizing name with
  | nil before =>
    rw [List.append_nil]
    exact ⟨[], ⟨.one name, List.forall_mem_singleton.mpr hname⟩, fun _ => rfl⟩
  | cons hfirst hrest ih =>
    obtain ⟨front, back, next, hfront, hback, hnext, rfl⟩ := spells_further.mp hfirst
    obtain ⟨names, hnames, -⟩ := ih hnext
    refine ⟨next :: names, ⟨?_, List.forall_mem_cons.mpr ⟨hname, hnames.accepted⟩⟩, fun h => by cases h⟩
    simpa only [List.append_assoc, List.cons_append] using Listed.more name hfront hback hnames.listed

private theorem repeated_of_names (after : List Char) (h : identifier.Names (name :: names) text) :
    ∃ rest, text = name ++ rest ∧ (names ≠ [] → rest ≠ []) ∧
      ∀ before, Pattern.Repeated (blanks ++ lit "," ++ blanks ++ identifier.pattern) after before rest := by
  obtain ⟨h, hnames⟩ := h
  induction names generalizing name text with
  | nil =>
    cases h
    exact ⟨[], (List.append_nil _).symm, absurd rfl, .nil⟩
  | cons next names ih =>
    obtain ⟨-, hlater⟩ := List.forall_mem_cons.mp hnames
    cases h with
    | more _ hfront hback hlist =>
      obtain ⟨rest, rfl, -, hrest⟩ := ih hlist hlater
      have hfirst := hlater next (List.mem_cons_self ..)
      refine ⟨_, rfl, fun _ => by simp, fun before => ?_⟩
      have hrepeated := Pattern.Repeated.cons (spells_further.mpr ⟨_, _, next, hfront, hback, hfirst, rfl⟩)
        (hrest (_ ++ before))
      simpa only [List.append_assoc, List.cons_append] using hrepeated

/-- A pattern for identifiers with commas between them takes the lists of names. -/
theorem spells_identifiers :
    (identifier.pattern ++ star (blanks ++ lit "," ++ blanks ++ identifier.pattern)).Spells before text after ↔
      ∃ names, names ≠ [] ∧ identifier.Names names text := by
  rw [Pattern.spells_append]
  constructor
  · rintro ⟨name, rest, rfl, hname, hrest⟩
    obtain ⟨names, hnames, -⟩ := names_of_repeated ((Pattern.spells_star not_spells_further_nil).mp hrest)
      (Identifier.spells_pattern.mp hname)
    exact ⟨name :: names, List.cons_ne_nil name names, hnames⟩
  · rintro ⟨names, hne, hnames⟩
    obtain ⟨name, names, rfl⟩ := List.exists_cons_of_ne_nil hne
    obtain ⟨rest, rfl, -, hrest⟩ := repeated_of_names after hnames
    exact ⟨name, rest, rfl, Identifier.spells_pattern.mpr hnames.head,
      (Pattern.spells_star not_spells_further_nil).mpr (hrest _)⟩

/-- A pattern that asks for a comma takes the lists of two names or more. -/
theorem spells_several :
    (identifier.pattern ++ plus (blanks ++ lit "," ++ blanks ++ identifier.pattern)).Spells before text after ↔
      ∃ names, 2 ≤ names.length ∧ identifier.Names names text := by
  rw [Pattern.spells_append]
  constructor
  · rintro ⟨name, rest, rfl, hname, hrest⟩
    obtain ⟨hrepeated, hne⟩ := (Pattern.spells_plus not_spells_further_nil).mp hrest
    obtain ⟨names, hnames, hnil⟩ := names_of_repeated hrepeated (Identifier.spells_pattern.mp hname)
    have hlength : 0 < names.length := List.length_pos_iff.mpr fun h => hne (hnil h)
    exact ⟨name :: names, Nat.succ_le_succ hlength, hnames⟩
  · rintro ⟨names, hlength, hnames⟩
    obtain ⟨name, names, rfl⟩ := List.exists_cons_of_length_pos (Nat.lt_of_lt_of_le Nat.zero_lt_two hlength)
    obtain ⟨rest, rfl, hne, hrest⟩ := repeated_of_names after hnames
    have hnames' : names ≠ [] := List.length_pos_iff.mp (Nat.le_of_succ_le_succ hlength)
    exact ⟨name, rest, rfl, Identifier.spells_pattern.mpr hnames.head,
      (Pattern.spells_plus not_spells_further_nil).mpr ⟨hrest _, hne hnames'⟩⟩

private theorem outside_of {p : Char → Bool} {chars : List Char} (hchars : ∀ x ∈ chars, p x = false) (hc : p c = true) :
    outside chars c = true := by
  rw [Pattern.outside_eq_true_iff]
  intro hmem
  rw [hchars c hmem] at hc
  cases hc

/-- Each item of a comma list that is an identifier counts once. -/
theorem Binding.count_names_of_listed {items : List (List Char)} (h : Listed ',' items text)
    (hitems : ∀ item ∈ items, ∀ x ∈ item, outside ['\x7b', '\x7d', '[', ']', ','] x = true) :
    Binding.names.count identifier text = items.countP fun item => identifier.accepts (Text.trim item) := by
  have hfilter : text.filter (outside ['\x7b', '\x7d', '[', ']']) = text := by
    rw [List.filter_eq_self]
    intro x hx
    rcases h.mem_item_or hx with ⟨item, hitem, hmem⟩ | hx | rfl
    · have hx := hitems item hitem x hmem
      rw [Pattern.outside_eq_true_iff] at hx ⊢
      exact fun hbracket => hx (List.mem_append_left [','] hbracket)
    · exact outside_of (p := isBlank) (by decide) hx
    · decide
  have hcomma : ∀ item ∈ items, ',' ∉ item := by
    intro item hitem hmem
    exact Pattern.outside_eq_true_iff.mp (hitems item hitem ',' hmem) (by simp)
  change ((Text.splitAt ',' (text.filter _)).countP _) = _
  rw [hfilter]
  cases items with
  | nil =>
    cases h
    rfl
  | cons item items =>
    have hpieces := h.map_trim_splitAt (by decide) (List.cons_ne_nil item items) hcomma
    have hcount := congrArg (List.countP fun piece => identifier.accepts piece) hpieces
    rw [List.countP_map, List.countP_map] at hcount
    exact hcount

theorem Identifier.Names.count_eq (h : identifier.Names names text) (hregular : identifier.Regular)
    (hmarks : ∀ x ∈ ['\x7b', '\x7d', '[', ']', ','], identifier.isTail x = false) :
    Binding.names.count identifier text = names.length := by
  rw [Binding.count_names_of_listed h.listed, List.countP_eq_length]
  · intro name hname
    rw [hregular.trim_eq (h.accepted name hname)]
    exact h.accepted name hname
  · exact fun name hname x hx => outside_of hmarks (hregular.isTail_of_mem (h.accepted name hname) x hx)

end Patterns

end Declaration
end LineCensus
