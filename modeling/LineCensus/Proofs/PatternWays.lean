import LineCensus.Pattern.Forms

/-! The ways through a pattern, apart from the order in which a search tries them: a search finds an answer
exactly if some way leads to a place where the answer is not refused. -/
namespace LineCensus

namespace Cursor

structure Over (c : Cursor) (text : List Char) (stop : Cursor) : Prop where
  rest : c.rest = text ++ stop.rest
  before : stop.before = text.reverse ++ c.before
  offset : stop.offset = c.offset + text.length

def Along (accept : Char → Bool) (c stop : Cursor) : Prop :=
  ∃ text, (∀ x ∈ text, accept x = true) ∧ c.Over text stop

variable {c middle stop : Cursor} {text more : List Char} {accept : Char → Bool}

theorem over_nil_iff : c.Over [] stop ↔ stop = c := by
  constructor
  · rintro ⟨hrest, hbefore, hoffset⟩
    cases c
    cases stop
    simp_all
  · rintro rfl
    exact ⟨rfl, rfl, rfl⟩

theorem over_cons_iff {x : Char} : c.Over (x :: text) stop ↔
    ∃ rest, c.rest = x :: rest ∧ Over ⟨c.offset + 1, x :: c.before, rest⟩ text stop := by
  have hlength : c.offset + (x :: text).length = c.offset + 1 + text.length := by
    rw [List.length_cons]
    omega
  constructor
  · rintro ⟨hrest, hbefore, hoffset⟩
    exact ⟨text ++ stop.rest, hrest, rfl, by simpa using hbefore, hoffset.trans hlength⟩
  · rintro ⟨rest, hc, hrest, hbefore, hoffset⟩
    exact ⟨by rw [hc, List.cons_append, ← hrest], by simpa using hbefore, hoffset.trans hlength.symm⟩

theorem Over.trans (h : c.Over text middle) (h' : middle.Over more stop) : c.Over (text ++ more) stop where
  rest := by rw [h.rest, h'.rest, List.append_assoc]
  before := by rw [h'.before, h.before, List.reverse_append, List.append_assoc]
  offset := by rw [h'.offset, h.offset, List.length_append, Nat.add_assoc]

theorem over_singleton_iff {x : Char} : c.Over [x] stop ↔
    ∃ rest, c.rest = x :: rest ∧ stop = ⟨c.offset + 1, x :: c.before, rest⟩ := by
  simp only [over_cons_iff, over_nil_iff]

private theorem next?_eq_some_iff :
    c.next? accept = some stop ↔ ∃ x, accept x = true ∧ c.Over [x] stop := by
  simp only [over_singleton_iff]
  rw [next?]
  constructor
  · intro h
    split at h
    · cases h
    · rename_i x rest hrest
      split at h
      · rename_i hx
        exact ⟨x, hx, rest, hrest, (Option.some.inj h).symm⟩
      · cases h
  · rintro ⟨x, hx, rest, hrest, rfl⟩
    simp [hrest, hx]

private theorem skip?_eq_some_iff : c.skip? text = some stop ↔ c.Over text stop := by
  induction text generalizing c with
  | nil => simp [skip?, over_nil_iff, eq_comm]
  | cons x text ih =>
    rw [over_cons_iff]
    cases hrest : c.rest with
    | nil => simp [skip?, hrest]
    | cons y rest =>
      by_cases hxy : x = y
      · subst hxy
        simp [skip?, hrest, ih]
      · simp [skip?, hrest, hxy, Ne.symm hxy]

private theorem along_nil_iff {offset : Nat} {before : List Char} :
    Along accept ⟨offset, before, []⟩ stop ↔ stop = ⟨offset, before, []⟩ := by
  constructor
  · rintro ⟨text, -, hover⟩
    have htext : text = [] := (List.append_eq_nil_iff.mp hover.rest.symm).1
    subst htext
    exact over_nil_iff.mp hover
  · rintro rfl
    exact ⟨[], by simp, over_nil_iff.mpr rfl⟩

private theorem along_cons_iff {offset : Nat} {before rest : List Char} {y : Char} :
    Along accept ⟨offset, before, y :: rest⟩ stop ↔ stop = ⟨offset, before, y :: rest⟩ ∨
      accept y = true ∧ Along accept ⟨offset + 1, y :: before, rest⟩ stop := by
  constructor
  · rintro ⟨text, hall, hover⟩
    cases text with
    | nil => exact .inl (over_nil_iff.mp hover)
    | cons x text =>
      obtain ⟨_, hrest, hover⟩ := over_cons_iff.mp hover
      cases hrest
      obtain ⟨hx, hall⟩ := List.forall_mem_cons.mp hall
      exact .inr ⟨hx, text, hall, hover⟩
  · rintro (rfl | ⟨hy, text, hall, hover⟩)
    · exact ⟨[], by simp, over_nil_iff.mpr rfl⟩
    · exact ⟨y :: text, List.forall_mem_cons.mpr ⟨hy, hall⟩, over_cons_iff.mpr ⟨rest, rfl, hover⟩⟩

private theorem mem_sweepFrom {passed : List Cursor} {offset : Nat} {before rest : List Char} :
    stop ∈ sweepFrom accept passed offset before rest ↔
      stop ∈ passed ∨ Along accept ⟨offset, before, rest⟩ stop := by
  induction rest generalizing passed offset before with
  | nil => simp [sweepFrom, along_nil_iff, or_comm]
  | cons y rest ih =>
    rw [along_cons_iff, sweepFrom]
    by_cases hy : accept y = true
    · simp [hy, ih, or_assoc, or_left_comm]
    · simp [hy, or_comm]

private theorem firstBehind_eq_some {α : Type} {answer : Cursor → Option α} {texts : List (List Char)} {a : α}
    (h : c.firstBehind answer texts = some a) :
    ∃ stop, (∃ text ∈ texts, c.Over text stop) ∧ answer stop = some a := by
  induction texts with
  | nil => cases h
  | cons text texts ih =>
    rw [firstBehind] at h
    have hlater (hmore : c.firstBehind answer texts = some a) :
        ∃ stop, (∃ text' ∈ text :: texts, c.Over text' stop) ∧ answer stop = some a := by
      obtain ⟨stop, ⟨text', hmem, hover⟩, hstop⟩ := ih hmore
      exact ⟨stop, ⟨text', List.mem_cons_of_mem _ hmem, hover⟩, hstop⟩
    split at h
    · exact hlater h
    · rename_i next hnext
      split at h
      · rename_i b hb
        cases h
        exact ⟨next, ⟨text, List.mem_cons_self .., skip?_eq_some_iff.mp hnext⟩, hb⟩
      · exact hlater h

private theorem isSome_firstBehind {α : Type} {answer : Cursor → Option α} {texts : List (List Char)}
    (hmem : text ∈ texts) (hover : c.Over text stop) (hanswer : (answer stop).isSome) :
    (c.firstBehind answer texts).isSome := by
  induction texts with
  | nil => cases hmem
  | cons first texts ih =>
    rw [firstBehind]
    rcases List.mem_cons.mp hmem with rfl | hmem
    · rw [skip?_eq_some_iff.mpr hover]
      dsimp only
      split
      · rfl
      · rename_i hnone
        rw [hnone] at hanswer
        cases hanswer
    · split
      · exact ih hmem
      · split
        · rfl
        · exact ih hmem

private theorem lastAlong_eq_some {α : Type} {answer : Cursor → Option α} {a : α}
    (h : c.lastAlong accept answer = some a) : ∃ stop, Along accept c stop ∧ answer stop = some a := by
  rw [lastAlong] at h
  split at h
  · exact ⟨c, ⟨[], by simp, over_nil_iff.mpr rfl⟩, h⟩
  · obtain ⟨stop, hmem, hstop⟩ := List.exists_of_findSome?_eq_some h
    exact ⟨stop, (mem_sweepFrom.mp hmem).resolve_left (by simp), hstop⟩

private theorem isSome_lastAlong {α : Type} {answer : Cursor → Option α} (halong : Along accept c stop)
    (hanswer : (answer stop).isSome) : (c.lastAlong accept answer).isSome := by
  rw [lastAlong]
  split
  · rename_i hnext
    obtain ⟨text, hall, hover⟩ := halong
    cases text with
    | nil => exact over_nil_iff.mp hover ▸ hanswer
    | cons x text =>
      obtain ⟨rest, hrest, -⟩ := over_cons_iff.mp hover
      simp [next?, hrest, hall x (List.mem_cons_self ..)] at hnext
  · rw [List.findSome?_isSome_iff]
    exact ⟨stop, mem_sweepFrom.mpr (.inr halong), hanswer⟩

private theorem firstAlong_eq_some {α : Type} {answer : Cursor → Option α} {offset : Nat} {before rest : List Char}
    {a : α} (h : firstAlong accept answer offset before rest = some a) :
    ∃ stop, Along accept ⟨offset, before, rest⟩ stop ∧ answer stop = some a := by
  induction rest generalizing offset before with
  | nil => exact ⟨_, along_nil_iff.mpr rfl, h⟩
  | cons y rest ih =>
    rw [firstAlong] at h
    split at h
    · rename_i hhere
      exact ⟨_, along_cons_iff.mpr (.inl rfl), hhere.trans h⟩
    · split at h
      · rename_i hy
        obtain ⟨stop, halong, hstop⟩ := ih h
        exact ⟨stop, along_cons_iff.mpr (.inr ⟨hy, halong⟩), hstop⟩
      · cases h

private theorem isSome_firstAlong {α : Type} {answer : Cursor → Option α} {offset : Nat} {before rest : List Char}
    (halong : Along accept ⟨offset, before, rest⟩ stop) (hanswer : (answer stop).isSome) :
    (firstAlong accept answer offset before rest).isSome := by
  induction rest generalizing offset before with
  | nil =>
    obtain rfl := along_nil_iff.mp halong
    exact hanswer
  | cons y rest ih =>
    rw [firstAlong]
    split
    · rfl
    · rename_i hnone
      rcases along_cons_iff.mp halong with rfl | ⟨hy, hmore⟩
      · rw [hnone] at hanswer
        cases hanswer
      · rw [if_pos hy]
        exact ih hmore

theorem pastFrom_along (accept : Char → Bool) (offset : Nat) (before rest : List Char) :
    Along accept ⟨offset, before, rest⟩ (pastFrom accept offset before rest) ∧
      (pastFrom accept offset before rest).rest = rest.dropWhile accept := by
  induction rest generalizing offset before with
  | nil => exact ⟨along_nil_iff.mpr rfl, rfl⟩
  | cons y rest ih =>
    rw [pastFrom]
    by_cases hy : accept y = true
    · rw [if_pos hy, List.dropWhile_cons_of_pos hy]
      exact ⟨along_cons_iff.mpr (.inr ⟨hy, (ih _ _).1⟩), (ih _ _).2⟩
    · rw [if_neg hy, List.dropWhile_cons_of_neg hy]
      exact ⟨along_cons_iff.mpr (.inl rfl), rfl⟩

end Cursor

namespace Pattern

def Repeats (way : Cursor → Cursor → Prop) : Nat → Cursor → Cursor → Prop
  | 0, c, stop => stop = c
  | n + 1, c, stop => ∃ middle, way c middle ∧ Repeats way n middle stop

def Takes : Pattern → Cursor → Cursor → Prop
  | .empty, c, stop => stop = c
  | .check test, c, stop => test c = true ∧ stop = c
  | .one accept, c, stop => ∃ x, accept x = true ∧ c.Over [x] stop
  | .literal text, c, stop => c.Over text stop
  | .oneOf texts, c, stop => ∃ text ∈ texts, c.Over text stop
  | .many accept, c, stop => Cursor.Along accept c stop
  | .fewest accept, c, stop => Cursor.Along accept c stop
  | .upTo accept, c, stop => c.rest.dropWhile accept ≠ [] ∧ stop = c.past accept
  | .seq p q, c, stop => ∃ middle, p.Takes c middle ∧ q.Takes middle stop
  | .alt p q, c, stop => p.Takes c stop ∨ q.Takes c stop
  | .star p, c, stop => ∃ n ≤ c.rest.length, Repeats p.Takes n c stop

variable {α : Type} {p q : Pattern} {c middle stop : Cursor} {answer : Cursor → Option α}

section Repeat

variable {β : Type} {step : Cursor → (Cursor → Option α) → Option α} {way : Cursor → Cursor → Prop}

variable (step way) in
private theorem repeatStep_eq_some {a : α} {items : List β}
    (hstep : ∀ c answer, step c answer = some a → ∃ stop, way c stop ∧ answer stop = some a)
    (h : repeatStep step answer items c = some a) :
    ∃ n ≤ items.length, ∃ stop, Repeats way n c stop ∧ answer stop = some a := by
  induction items generalizing c with
  | nil => exact ⟨0, Nat.le_refl _, c, rfl, h⟩
  | cons item items ih =>
    rw [repeatStep] at h
    split at h
    · rename_i b hb
      cases h
      obtain ⟨middle, hway, hmore⟩ := hstep _ _ hb
      obtain ⟨n, hn, stop, hrepeats, hstop⟩ := ih hmore
      exact ⟨n + 1, Nat.succ_le_succ hn, stop, ⟨middle, hway, hrepeats⟩, hstop⟩
    · exact ⟨0, Nat.zero_le _, c, rfl, h⟩

private theorem isSome_repeatStep {n : Nat} {items : List β}
    (hstep : ∀ c stop answer, way c stop → (answer stop).isSome → (step c answer).isSome)
    (hn : n ≤ items.length) (hrepeats : Repeats way n c stop) (hanswer : (answer stop).isSome) :
    (repeatStep step answer items c).isSome := by
  induction items generalizing c n with
  | nil =>
    obtain rfl : n = 0 := by simpa using hn
    exact hrepeats ▸ hanswer
  | cons item items ih =>
    rw [repeatStep]
    split
    · rfl
    · rename_i hnone
      cases n with
      | zero => exact hrepeats ▸ hanswer
      | succ n =>
        obtain ⟨middle, hway, hmore⟩ := hrepeats
        have hsome := hstep c middle _ hway (ih (Nat.le_of_succ_le_succ hn) hmore)
        rw [hnone] at hsome
        cases hsome

end Repeat

/-- An answer of a search is the answer at the end of a way. -/
theorem takes_of_run {a : α} (h : p.run c answer = some a) : ∃ stop, p.Takes c stop ∧ answer stop = some a := by
  induction p generalizing c answer with
  | empty => exact ⟨c, rfl, h⟩
  | check test =>
    rw [run] at h
    split at h
    · rename_i htest
      exact ⟨c, ⟨htest, rfl⟩, h⟩
    · cases h
  | one accept =>
    rw [run] at h
    split at h
    · cases h
    · rename_i next hnext
      exact ⟨next, Cursor.next?_eq_some_iff.mp hnext, h⟩
  | literal text =>
    rw [run] at h
    split at h
    · cases h
    · rename_i next hnext
      exact ⟨next, Cursor.skip?_eq_some_iff.mp hnext, h⟩
  | oneOf texts => exact Cursor.firstBehind_eq_some h
  | many accept => exact Cursor.lastAlong_eq_some h
  | fewest accept => exact Cursor.firstAlong_eq_some h
  | upTo accept =>
    rw [run] at h
    split at h
    · cases h
    · rename_i hrest
      exact ⟨_, ⟨by simpa using hrest, rfl⟩, h⟩
  | seq p q ihp ihq =>
    obtain ⟨middle, hp, hmore⟩ := ihp h
    obtain ⟨stop, hq, hstop⟩ := ihq hmore
    exact ⟨stop, ⟨middle, hp, hq⟩, hstop⟩
  | alt p q ihp ihq =>
    rw [run] at h
    split at h
    · rename_i b hb
      cases h
      obtain ⟨stop, hp, hstop⟩ := ihp hb
      exact ⟨stop, .inl hp, hstop⟩
    · obtain ⟨stop, hq, hstop⟩ := ihq h
      exact ⟨stop, .inr hq, hstop⟩
  | star p ih =>
    rw [run] at h
    obtain ⟨n, hn, stop, hrepeats, hstop⟩ :=
      repeatStep_eq_some p.run p.Takes (fun _ _ hstep => ih hstep) h
    exact ⟨stop, ⟨n, hn, hrepeats⟩, hstop⟩

/-- A search finds an answer if some way leads to a place that has one. -/
theorem isSome_run (htakes : p.Takes c stop) (hanswer : (answer stop).isSome) : (p.run c answer).isSome := by
  induction p generalizing c stop answer with
  | empty => exact htakes ▸ hanswer
  | check test =>
    obtain ⟨htest, rfl⟩ := htakes
    rwa [run, if_pos htest]
  | one accept =>
    rwa [run, Cursor.next?_eq_some_iff.mpr htakes]
  | literal text =>
    rwa [run, Cursor.skip?_eq_some_iff.mpr htakes]
  | oneOf texts =>
    obtain ⟨text, hmem, hover⟩ := htakes
    exact Cursor.isSome_firstBehind hmem hover hanswer
  | many accept => exact Cursor.isSome_lastAlong htakes hanswer
  | fewest accept => exact Cursor.isSome_firstAlong htakes hanswer
  | upTo accept =>
    obtain ⟨hrest, rfl⟩ := htakes
    rwa [run, if_neg (by simpa using hrest)]
  | seq p q ihp ihq =>
    obtain ⟨middle, hp, hq⟩ := htakes
    exact ihp hp (ihq hq hanswer)
  | alt p q ihp ihq =>
    rw [run]
    split
    · rfl
    · rename_i hnone
      rcases htakes with hp | hq
      · have hsome := ihp hp hanswer
        rw [hnone] at hsome
        cases hsome
      · exact ihq hq hanswer
  | star p ih =>
    obtain ⟨n, hn, hrepeats⟩ := htakes
    exact isSome_repeatStep (fun _ _ _ hway hsome => ih hway hsome) hn hrepeats hanswer

theorem fits_iff : p.fits c = true ↔ ∃ stop, p.Takes c stop := by
  constructor
  · intro h
    obtain ⟨a, ha⟩ := Option.isSome_iff_exists.mp h
    obtain ⟨stop, htakes, -⟩ := takes_of_run ha
    exact ⟨stop, htakes⟩
  · rintro ⟨stop, htakes⟩
    exact isSome_run htakes rfl

theorem Repeats.over {way : Cursor → Cursor → Prop} {n : Nat}
    (hway : ∀ {c stop}, way c stop → ∃ text, c.Over text stop) (h : Repeats way n c stop) :
    ∃ text, c.Over text stop := by
  induction n generalizing c with
  | zero => exact ⟨[], Cursor.over_nil_iff.mpr h⟩
  | succ n ih =>
    obtain ⟨middle, hfirst, hmore⟩ := h
    obtain ⟨text, hover⟩ := hway hfirst
    obtain ⟨more, hmore⟩ := ih hmore
    exact ⟨text ++ more, hover.trans hmore⟩

/-- A way only leads forward. -/
theorem Takes.over (h : p.Takes c stop) : ∃ text, c.Over text stop := by
  induction p generalizing c stop with
  | empty => exact ⟨[], Cursor.over_nil_iff.mpr h⟩
  | check test => exact ⟨[], Cursor.over_nil_iff.mpr h.2⟩
  | one accept =>
    obtain ⟨x, -, hover⟩ := h
    exact ⟨[x], hover⟩
  | literal text => exact ⟨text, h⟩
  | oneOf texts =>
    obtain ⟨text, -, hover⟩ := h
    exact ⟨text, hover⟩
  | many accept | fewest accept =>
    obtain ⟨text, -, hover⟩ := h
    exact ⟨text, hover⟩
  | upTo accept =>
    obtain ⟨-, rfl⟩ := h
    obtain ⟨text, -, hover⟩ := (Cursor.pastFrom_along accept c.offset c.before c.rest).1
    exact ⟨text, hover⟩
  | seq p q ihp ihq =>
    obtain ⟨middle, hp, hq⟩ := h
    obtain ⟨text, hover⟩ := ihp hp
    obtain ⟨more, hmore⟩ := ihq hq
    exact ⟨text ++ more, hover.trans hmore⟩
  | alt p q ihp ihq => exact h.elim ihp ihq
  | star p ih =>
    obtain ⟨n, -, hrepeats⟩ := h
    exact hrepeats.over ih

section Forms

theorem takes_append : (p ++ q).Takes c stop ↔ ∃ middle, p.Takes c middle ∧ q.Takes middle stop := by
  change (andThen p q).Takes c stop ↔ _
  induction p generalizing c with
  | seq p r ihp ihr =>
    simp only [andThen, Takes, ihr]
    constructor
    · rintro ⟨first, hp, second, hr, hq⟩
      exact ⟨second, ⟨first, hp, hr⟩, hq⟩
    · rintro ⟨second, ⟨first, hp, hr⟩, hq⟩
      exact ⟨first, hp, second, hr, hq⟩
  | _ => rfl

theorem takes_orElse : (p <|> q).Takes c stop ↔ p.Takes c stop ∨ q.Takes c stop :=
  Iff.rfl

theorem takes_atEnd : atEnd.Takes c stop ↔ (c.rest = [] ∨ c.rest = ['\n']) ∧ stop = c := by
  change (c.rest == [] || c.rest == ['\n']) = true ∧ _ ↔ _
  rw [Bool.or_eq_true, beq_iff_eq, beq_iff_eq]

end Forms

end Pattern
end LineCensus
