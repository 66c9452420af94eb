import LineCensus.Declaration.Family
import LineCensus.Proofs.PatternWays

/-! The texts that a pattern takes between what stands before them and what stands after them: one equation
for each way of building a pattern. -/
namespace LineCensus

instance (priority := high) Text.decidableForallMem {P : Char → Prop} [DecidablePred P] (chars : List Char) :
    Decidable (∀ c ∈ chars, P c) :=
  List.decidableBAll P chars

namespace Cursor

def between (before rest : List Char) : Cursor :=
  ⟨before.length, before, rest⟩

variable {before rest text other after : List Char} {stop : Cursor}

private theorem over_between_iff :
    (between before (text ++ after)).Over other (between (text.reverse ++ before) after) ↔
    text = other := by
  constructor
  · intro h
    exact List.append_cancel_right h.rest
  · rintro rfl
    exact ⟨rfl, rfl, by simp [between, Nat.add_comm]⟩

private theorem between_eq_iff :
    between (text.reverse ++ before) after = between before (text ++ after) ↔ text = [] := by
  rw [← over_nil_iff, over_between_iff]

private theorem Over.eq_between (h : (between before rest).Over text stop) :
    stop = between (text.reverse ++ before) stop.rest := by
  have hbefore : stop.before = text.reverse ++ before := h.before
  have hoffset : stop.offset = before.length + text.length := h.offset
  cases stop
  simp_all [between, Nat.add_comm]

end Cursor

namespace Pattern

open Cursor (between)

/-- Whether a pattern takes a text that stands between others; what stands before it is given nearest
character first. -/
def Spells (p : Pattern) (before text after : List Char) : Prop :=
  p.Takes (between before (text ++ after)) (between (text.reverse ++ before) after)

variable {p q : Pattern} {before text after rest : List Char} {accept : Char → Bool}

theorem Takes.exists_spells {stop : Cursor} (h : p.Takes (between before rest) stop) :
    ∃ text after, rest = text ++ after ∧ stop = between (text.reverse ++ before) after ∧
      p.Spells before text after := by
  obtain ⟨text, hover⟩ := h.over
  have hrest : rest = text ++ stop.rest := hover.rest
  refine ⟨text, stop.rest, hrest, hover.eq_between, ?_⟩
  rw [Spells, ← hrest, ← hover.eq_between]
  exact h

section Equations

@[simp] theorem spells_empty : empty.Spells before text after ↔ text = [] :=
  Cursor.between_eq_iff

@[simp] theorem spells_check {test : Cursor → Bool} :
    (check test).Spells before text after ↔ text = [] ∧ test (between before after) = true := by
  change _ ∧ _ ↔ _
  rw [Cursor.between_eq_iff, and_comm]
  constructor
  · rintro ⟨rfl, h⟩
    exact ⟨rfl, h⟩
  · rintro ⟨rfl, h⟩
    exact ⟨rfl, h⟩

@[simp] theorem spells_one : (one accept).Spells before text after ↔ ∃ x, accept x = true ∧ text = [x] := by
  simp only [Spells, Takes, Cursor.over_between_iff]

@[simp] theorem spells_literal {token : List Char} : (literal token).Spells before text after ↔ text = token :=
  Cursor.over_between_iff

@[simp] theorem spells_oneOf {texts : List (List Char)} :
    (oneOf texts).Spells before text after ↔ text ∈ texts := by
  simp only [Spells, Takes, Cursor.over_between_iff, exists_eq_right']

@[simp] theorem spells_many :
    (many accept).Spells before text after ↔ ∀ x ∈ text, accept x = true := by
  simp only [Spells, Takes, Cursor.Along, Cursor.over_between_iff, exists_eq_right']

@[simp] theorem spells_fewest :
    (fewest accept).Spells before text after ↔ ∀ x ∈ text, accept x = true :=
  spells_many

@[simp] theorem spells_upTo : (upTo accept).Spells before text after ↔
    (∀ x ∈ text, accept x = true) ∧ ∃ x rest, after = x :: rest ∧ accept x = false := by
  change (text ++ after).dropWhile accept ≠ [] ∧ _ ↔ _
  have hpast := Cursor.pastFrom_along accept before.length before (text ++ after)
  change Cursor.Along accept (between before (text ++ after)) ((between before (text ++ after)).past accept) ∧
    ((between before (text ++ after)).past accept).rest = _ at hpast
  obtain ⟨⟨stretch, hstretch, hover⟩, hrest⟩ := hpast
  constructor
  · rintro ⟨hne, hstop⟩
    rw [← hstop] at hover hrest
    rw [Cursor.over_between_iff] at hover
    subst hover
    obtain ⟨x, others, hx⟩ := List.exists_cons_of_ne_nil hne
    have hhead := List.head?_dropWhile_not accept (text ++ after)
    rw [hx] at hhead
    exact ⟨hstretch, x, others, hrest.trans hx, by simpa using hhead⟩
  · rintro ⟨hall, x, others, rfl, hx⟩
    have hdrop : (text ++ x :: others).dropWhile accept = x :: others := by
      rw [List.dropWhile_append_of_pos hall, List.dropWhile_cons_of_neg (by simp [hx])]
    refine ⟨by simp [hdrop], ?_⟩
    rw [hdrop] at hrest
    have heq : text ++ x :: others = stretch ++ _ := hover.rest
    rw [hrest] at heq
    obtain rfl := List.append_cancel_right heq
    rw [hover.eq_between, hrest]

@[simp] theorem spells_seq : (seq p q).Spells before text after ↔
    ∃ first second, text = first ++ second ∧ p.Spells before first (second ++ after) ∧
      q.Spells (first.reverse ++ before) second after := by
  constructor
  · rintro ⟨middle, hp, hq⟩
    obtain ⟨first, back, htext, rfl, hfirst⟩ := hp.exists_spells
    obtain ⟨second, rest, rfl, hstop, hsecond⟩ := hq.exists_spells
    obtain rfl : after = rest := congrArg Cursor.rest hstop
    obtain rfl : text = first ++ second := by
      rw [← List.append_assoc] at htext
      exact List.append_cancel_right htext
    exact ⟨first, second, rfl, hfirst, hsecond⟩
  · rintro ⟨first, second, rfl, hfirst, hsecond⟩
    rw [Spells, List.append_assoc, List.reverse_append, List.append_assoc]
    exact ⟨_, hfirst, hsecond⟩

@[simp] theorem spells_append : (p ++ q).Spells before text after ↔
    ∃ first second, text = first ++ second ∧ p.Spells before first (second ++ after) ∧
      q.Spells (first.reverse ++ before) second after := by
  rw [Spells, takes_append]
  exact spells_seq

theorem Spells.append {first second : List Char} (hp : p.Spells before first (second ++ after))
    (hq : q.Spells (first.reverse ++ before) second after) :
    (p ++ q).Spells before (first ++ second) after :=
  spells_append.mpr ⟨first, second, rfl, hp, hq⟩

/-- What follows may take nothing. -/
theorem Spells.skip (hp : p.Spells before text after) (hq : q.Spells (text.reverse ++ before) [] after) :
    (p ++ q).Spells before text after := by
  rw [← List.append_nil text]
  exact hp.append hq

@[simp] theorem spells_alt : (alt p q).Spells before text after ↔
    p.Spells before text after ∨ q.Spells before text after :=
  Iff.rfl

@[simp] theorem spells_orElse : (p <|> q).Spells before text after ↔
    p.Spells before text after ∨ q.Spells before text after :=
  Iff.rfl

inductive Repeated (p : Pattern) (after : List Char) : List Char → List Char → Prop where
  | nil (before : List Char) : Repeated p after before []
  | cons {before first rest : List Char} (hfirst : p.Spells before first (rest ++ after))
    (hrest : Repeated p after (first.reverse ++ before) rest) : Repeated p after before (first ++ rest)

private theorem Repeated.of_repeats {n : Nat} (h : Repeats p.Takes n (between before (text ++ after))
    (between (text.reverse ++ before) after)) : Repeated p after before text := by
  induction n generalizing before text with
  | zero =>
    obtain rfl : text = [] := Cursor.between_eq_iff.mp h
    exact .nil before
  | succ n ih =>
    obtain ⟨middle, hp, hmore⟩ := h
    obtain ⟨first, back, htext, rfl, hfirst⟩ := hp.exists_spells
    obtain ⟨rest, rfl⟩ : ∃ rest, back = rest ++ after := by
      obtain ⟨rest, hrest⟩ := hmore.over Takes.over
      exact ⟨rest, hrest.rest⟩
    rw [← List.append_assoc] at htext
    obtain rfl := List.append_cancel_right htext
    rw [List.reverse_append, List.append_assoc] at hmore
    exact .cons hfirst (ih hmore)

private theorem Repeated.repeats (hne : ∀ {before after}, ¬p.Spells before [] after)
    (h : Repeated p after before text) :
    ∃ n ≤ text.length, Repeats p.Takes n (between before (text ++ after))
      (between (text.reverse ++ before) after) := by
  induction h with
  | nil before => exact ⟨0, Nat.le_refl 0, rfl⟩
  | @cons before first rest hfirst _ ih =>
    obtain ⟨n, hn, hrepeats⟩ := ih
    have hpos : 0 < first.length := by
      refine List.length_pos_iff.mpr ?_
      rintro rfl
      exact hne hfirst
    rw [List.reverse_append, List.append_assoc, List.append_assoc]
    exact ⟨n + 1, by rw [List.length_append]; omega, _, hfirst, hrepeats⟩

/-- The texts of a pattern that takes no empty one, repeated. -/
theorem spells_star (hne : ∀ {before after}, ¬p.Spells before [] after) :
    (star p).Spells before text after ↔ Repeated p after before text := by
  constructor
  · rintro ⟨n, -, hrepeats⟩
    exact .of_repeats hrepeats
  · intro h
    obtain ⟨n, hn, hrepeats⟩ := h.repeats hne
    exact ⟨n, Nat.le_trans hn (by simp [between]), hrepeats⟩

end Equations

section Forms

@[simp] theorem among_eq_true_iff {chars : List Char} {c : Char} : among chars c = true ↔ c ∈ chars := by
  simp [among]

@[simp] theorem among_eq_false_iff {chars : List Char} {c : Char} : among chars c = false ↔ c ∉ chars := by
  rw [← Bool.not_eq_true, among_eq_true_iff]

@[simp] theorem outside_eq_true_iff {chars : List Char} {c : Char} : outside chars c = true ↔ c ∉ chars := by
  rw [outside, Bool.not_eq_true', ← among_eq_true_iff, Bool.not_eq_true]

@[simp] theorem outside_eq_false_iff {chars : List Char} {c : Char} : outside chars c = false ↔ c ∈ chars := by
  rw [outside, Bool.not_eq_false', among_eq_true_iff]

@[simp] theorem spells_lit {token : String} : (lit token).Spells before text after ↔ text = token.toList :=
  spells_literal

@[simp] theorem spells_anyWord {words : List String} :
    (anyWord words).Spells before text after ↔ text ∈ words.map String.toList :=
  spells_oneOf

@[simp] theorem spells_opt : (opt p).Spells before text after ↔ p.Spells before text after ∨ text = [] := by
  change _ ∨ empty.Spells before text after ↔ _
  rw [spells_empty]
  rfl

theorem spells_plus (hne : ∀ {before after}, ¬p.Spells before [] after) :
    (plus p).Spells before text after ↔ Repeated p after before text ∧ text ≠ [] := by
  rw [plus, spells_append]
  constructor
  · rintro ⟨first, rest, rfl, hfirst, hrest⟩
    refine ⟨.cons hfirst ((spells_star hne).mp hrest), fun h => ?_⟩
    rw [(List.append_eq_nil_iff.mp h).1] at hfirst
    exact hne hfirst
  · rintro ⟨h, htext⟩
    cases h with
    | nil => exact absurd rfl htext
    | cons hfirst hrest => exact ⟨_, _, rfl, hfirst, (spells_star hne).mpr hrest⟩

@[simp] theorem spells_blanks : blanks.Spells before text after ↔ ∀ x ∈ text, Text.isBlank x = true :=
  spells_many

theorem spells_oneOrMore : (oneOrMore accept).Spells before text after ↔
    text ≠ [] ∧ ∀ x ∈ text, accept x = true := by
  simp only [oneOrMore, spells_append, spells_one, spells_many]
  constructor
  · rintro ⟨_, rest, rfl, ⟨x, hx, rfl⟩, hrest⟩
    exact ⟨List.cons_ne_nil x rest, List.forall_mem_cons.mpr ⟨hx, hrest⟩⟩
  · rintro ⟨hne, hall⟩
    obtain ⟨x, rest, rfl⟩ := List.exists_cons_of_ne_nil hne
    obtain ⟨hx, hrest⟩ := List.forall_mem_cons.mp hall
    exact ⟨[x], rest, rfl, ⟨x, hx, rfl⟩, hrest⟩

@[simp] theorem spells_gap : gap.Spells before text after ↔
    text ≠ [] ∧ ∀ x ∈ text, Text.isBlank x = true :=
  spells_oneOrMore

@[simp] theorem spells_someUpTo {chars : List Char} : (someUpTo chars).Spells before text after ↔
    text ≠ [] ∧ (∀ x ∈ text, outside chars x = true) ∧
      ∃ x rest, after = x :: rest ∧ outside chars x = false := by
  simp only [someUpTo, spells_append, spells_one, spells_upTo]
  constructor
  · rintro ⟨_, rest, rfl, ⟨x, hx, rfl⟩, hrest, hstop⟩
    exact ⟨List.cons_ne_nil x rest, List.forall_mem_cons.mpr ⟨hx, hrest⟩, hstop⟩
  · rintro ⟨hne, hall, hstop⟩
    obtain ⟨x, rest, rfl⟩ := List.exists_cons_of_ne_nil hne
    obtain ⟨hx, hrest⟩ := List.forall_mem_cons.mp hall
    exact ⟨[x], rest, rfl, ⟨x, hx, rfl⟩, hrest, hstop⟩

@[simp] theorem spells_atStart : atStart.Spells before text after ↔ text = [] ∧ before = [] := by
  simp [atStart, between]

@[simp] theorem spells_atEnd : atEnd.Spells before text after ↔
    text = [] ∧ (after = [] ∨ after = ['\n']) := by
  simp [atEnd, between]

@[simp] theorem spells_wordEdge : wordEdge.Spells before text after ↔
    text = [] ∧ wordNext before ≠ wordNext after := by
  simp [wordEdge, between]

private theorem fits_between : p.fits (between before rest) = true ↔
    ∃ text after, rest = text ++ after ∧ p.Spells before text after := by
  rw [fits_iff]
  constructor
  · rintro ⟨stop, h⟩
    obtain ⟨text, after, hrest, -, htext⟩ := h.exists_spells
    exact ⟨text, after, hrest, htext⟩
  · rintro ⟨text, after, rfl, h⟩
    exact ⟨_, h⟩

@[simp] theorem spells_ahead : (ahead p).Spells before text after ↔
    text = [] ∧ ∃ next rest, after = next ++ rest ∧ p.Spells before next rest := by
  rw [ahead, spells_check, fits_between]

@[simp] theorem spells_notAhead : (notAhead p).Spells before text after ↔
    text = [] ∧ ¬∃ next rest, after = next ++ rest ∧ p.Spells before next rest := by
  rw [notAhead, spells_check, ← fits_between, Bool.not_eq_true', Bool.not_eq_true]

theorem spells_notAhead_one : (notAhead (one accept)).Spells before text after ↔
    text = [] ∧ ∀ x ∈ after.head?, accept x = false := by
  rw [spells_notAhead]
  refine and_congr_right fun _ => ?_
  simp only [spells_one]
  cases after with
  | nil => simp
  | cons x rest =>
    constructor
    · rintro h y ⟨⟩
      rw [← Bool.not_eq_true]
      exact fun hx => h ⟨[x], rest, rfl, x, hx, rfl⟩
    · rintro h ⟨_, others, hrest, y, hy, rfl⟩
      rw [(List.cons.inj hrest).1] at h
      rw [h y rfl] at hy
      cases hy

@[simp] theorem spells_behind {last : Char} : (behind accept last).Spells before text after ↔
    text = [] ∧ ∃ x rest, before = last :: x :: rest ∧ accept x = true := by
  rw [behind, spells_check]
  refine and_congr_right fun _ => ?_
  match before with
  | [] => simp [between]
  | [y] => simp [between]
  | y :: x :: rest => simp [between, and_assoc]

end Forms

def requires (mark : Char) : Pattern → Bool
  | .literal text => text.contains mark
  | .oneOf texts => texts.all (·.contains mark)
  | .seq p q => p.requires mark || q.requires mark
  | .alt p q => p.requires mark && q.requires mark
  | _ => false

theorem mem_of_requires {mark : Char} (hmark : p.requires mark = true) (h : p.Spells before text after) :
    mark ∈ text := by
  induction p generalizing before text after with
  | literal token =>
    rw [spells_literal.mp h]
    exact List.contains_iff_mem.mp hmark
  | oneOf texts => exact List.contains_iff_mem.mp (List.all_eq_true.mp hmark text (spells_oneOf.mp h))
  | seq p q ihp ihq =>
    obtain ⟨first, second, rfl, hp, hq⟩ := spells_seq.mp h
    rcases Bool.or_eq_true_iff.mp hmark with hmark | hmark
    · exact List.mem_append_left second (ihp hmark hp)
    · exact List.mem_append_right first (ihq hmark hq)
  | alt p q ihp ihq =>
    obtain ⟨hmarkp, hmarkq⟩ := Bool.and_eq_true_iff.mp hmark
    rcases spells_alt.mp h with hp | hq
    · exact ihp hmarkp hp
    · exact ihq hmarkq hq
  | _ => cases hmark

end Pattern

theorem Declaration.Identifier.spells_pattern {identifier : Declaration.Identifier}
    {before text after : List Char} :
    identifier.pattern.Spells before text after ↔ identifier.accepts text = true := by
  simp only [pattern, Pattern.spells_append, Pattern.spells_one, Pattern.spells_many]
  constructor
  · rintro ⟨_, rest, rfl, ⟨x, hx, rfl⟩, hrest⟩
    exact Bool.and_eq_true_iff.mpr ⟨hx, List.all_eq_true.mpr hrest⟩
  · intro h
    cases text with
    | nil => cases h
    | cons x rest =>
      obtain ⟨hx, hrest⟩ := Bool.and_eq_true_iff.mp h
      exact ⟨[x], rest, rfl, ⟨x, hx, rfl⟩, List.all_eq_true.mp hrest⟩

end LineCensus
