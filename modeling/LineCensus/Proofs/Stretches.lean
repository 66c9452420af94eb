import LineCensus.Line
import LineCensus.Proofs.PlainReading
import LineCensus.Proofs.Trimming

/-! The reading of lines against the file as a whole: a file falls into plain stretches and blocks in one
way only, and the stretch in which a line stands decides what the line counts as. -/
namespace LineCensus

open Text (trim)

inductive Stretch where
  | plain (lines : List (List Char))
  | block (opener : List Char) (inside : List (List Char)) (closer : Option (List Char))
deriving DecidableEq

def Stretch.lines : Stretch → List (List Char)
  | .plain lines => lines
  | .block opener inside closer => opener :: (inside ++ closer.toList)

/-- The regions in which the lines of a stretch begin. The line that opens a block is still outside. -/
def Stretch.regions : Stretch → List Region
  | .plain lines => lines.map fun _ => .normal
  | .block _ inside closer => .normal :: (inside ++ closer.toList).map fun _ => .block

namespace Delimiters

/-- A line that begins a block comment and leaves it open. Positions are those of the trimmed line. -/
structure Opens (d : Delimiters) (line : List Char) : Prop where
  nonblank : trim line ≠ []
  not_line : ¬d.line <+: trim line
  starts : d.blockStart <+: trim line
  not_ended : ∀ i, d.blockStart.length ≤ i → ¬d.blockEnd <+: (trim line).drop i

structure Closes (d : Delimiters) (line : List Char) : Prop where
  nonblank : trim line ≠ []
  ends : d.blockEnd <:+: trim line

def plainKind (d : Delimiters) (line : List Char) : LineKind :=
  if trim line = [] then .blank
  else if d.line <+: trim line ∨ d.blockStart <+: trim line then .comment
  else .code

def blockKind (line : List Char) : LineKind :=
  if trim line = [] then .blank else .comment

def kinds (d : Delimiters) : Stretch → List LineKind
  | .plain lines => lines.map d.plainKind
  | .block opener inside closer => (opener :: (inside ++ closer.toList)).map blockKind

/-- Stretches as they may follow each other in a file: no line of a plain one opens a block, none inside a
block closes it, a plain stretch goes on for as long as it can, and so does a block that is not closed. -/
inductive Follow (d : Delimiters) : List Stretch → Prop
  | nil : Follow d []
  | plain {lines rest} (hne : lines ≠ []) (hlines : ∀ line ∈ lines, ¬d.Opens line)
    (hrest : ∀ next, rest.head? ≠ some (.plain next)) (hfollow : Follow d rest) :
    Follow d (.plain lines :: rest)
  | block {opener inside closer rest} (hopener : d.Opens opener)
    (hinside : ∀ line ∈ inside, ¬d.Closes line) (hcloser : ∀ line ∈ closer, d.Closes line)
    (hrest : closer = none → rest = []) (hfollow : Follow d rest) :
    Follow d (.block opener inside closer :: rest)

def regionBefore (d : Delimiters) (lines : List (List Char)) (i : Nat) : Region :=
  (readAll d.classify .normal (lines.take i)).2

/-- A block is open in front of a line: some line before it, itself outside of blocks, opens one, and no
line between the two closes it. -/
def OpenSince (d : Delimiters) (closes : List Char → Prop) (lines : List (List Char)) (i : Nat) : Prop :=
  ∃ j < i, ∃ opener, lines[j]? = some opener ∧ d.Opens opener ∧ d.regionBefore lines j = .normal ∧
    ∀ k line, j < k → k < i → lines[k]? = some line → ¬closes line

variable {d : Delimiters} {line : List Char} {lines : List (List Char)}

section Step

private theorem occursIn_drop_iff (n : Nat) :
    Text.occursIn d.blockEnd ((trim line).drop n) = true ↔
      ∃ i, n ≤ i ∧ d.blockEnd <+: (trim line).drop i := by
  rw [Text.occursIn_iff]
  constructor
  · rintro ⟨before, after, h⟩
    refine ⟨n + before.length, Nat.le_add_right .., after, ?_⟩
    rw [← List.drop_drop, ← h, List.append_assoc, List.drop_left]
  · rintro ⟨i, hi, h⟩
    rw [← Nat.add_sub_of_le hi, ← List.drop_drop] at h
    exact h.isInfix.trans (List.drop_suffix _ _).isInfix

private theorem classify_of_closes (h : d.Closes line) : d.classify .block line = (.comment, .normal) := by
  simp only [classify, List.isEmpty_iff, h.nonblank, Text.occursIn_iff.mpr h.ends, if_false, if_true]

private theorem classify_of_not_closes (h : ¬d.Closes line) :
    d.classify .block line = (blockKind line, .block) := by
  by_cases hblank : trim line = []
  · simp [classify, blockKind, hblank]
  · have hended : Text.occursIn d.blockEnd (trim line) = false := by
      rw [← Bool.not_eq_true, Text.occursIn_iff]
      exact fun hwithin => h ⟨hblank, hwithin⟩
    simp [classify, blockKind, hblank, hended]

private theorem classify_of_opens (h : d.Opens line) : d.classify .normal line = (.comment, .block) := by
  have hended : Text.occursIn d.blockEnd ((trim line).drop d.blockStart.length) = false := by
    rw [← Bool.not_eq_true, occursIn_drop_iff]
    rintro ⟨i, hi, hwithin⟩
    exact h.not_ended i hi hwithin
  simp only [classify, List.isEmpty_iff, h.nonblank, Text.startsWith_eq_false_iff.mpr h.not_line,
    Text.startsWith_iff.mpr h.starts, hended, if_false, if_true, Bool.false_eq_true]

private theorem classify_of_not_opens (h : ¬d.Opens line) :
    d.classify .normal line = (d.plainKind line, .normal) := by
  by_cases hblank : trim line = []
  · simp [classify, plainKind, hblank]
  by_cases hline : d.line <+: trim line
  · simp [classify, plainKind, hblank, hline, Text.startsWith_iff.mpr hline]
  by_cases hstart : d.blockStart <+: trim line
  · have hended : Text.occursIn d.blockEnd ((trim line).drop d.blockStart.length) = true := by
      rw [occursIn_drop_iff]
      by_contra hnone
      exact h ⟨hblank, hline, hstart, fun i hi hwithin => hnone ⟨i, hi, hwithin⟩⟩
    simp [classify, plainKind, hblank, hstart, Text.startsWith_eq_false_iff.mpr hline,
      Text.startsWith_iff.mpr hstart, hended]
  · simp [classify, plainKind, hblank, hline, hstart, Text.startsWith_eq_false_iff.mpr hline,
      Text.startsWith_eq_false_iff.mpr hstart]

end Step

structure Reads (d : Delimiters) (start : Region) (lines : List (List Char)) (kinds : List LineKind)
    (regions : List Region) (final : Region) : Prop where
  read : readAll d.classify start lines = (kinds, final)
  before : statesBefore d.classify start lines = regions

namespace Reads

variable {start middle final : Region} {first second : List (List Char)} {kind : LineKind}
  {kinds kinds' : List LineKind} {regions regions' : List Region}

private theorem cons (hstep : d.classify start line = (kind, middle))
    (hrest : Reads d middle lines kinds regions final) :
    Reads d start (line :: lines) (kind :: kinds) (start :: regions) final := by
  constructor
  · rw [readAll_cons, hstep, hrest.read]
  · rw [statesBefore_cons, hstep, hrest.before]

private theorem append (hfirst : Reads d start first kinds regions middle)
    (hsecond : Reads d middle second kinds' regions' final) :
    Reads d start (first ++ second) (kinds ++ kinds') (regions ++ regions') final := by
  constructor
  · rw [readAll_append, hfirst.read, hsecond.read]
  · rw [statesBefore_append, hfirst.before, hfirst.read, hsecond.before]

private theorem plain (h : ∀ line ∈ lines, ¬d.Opens line) :
    Reads d .normal lines (lines.map d.plainKind) (lines.map fun _ => .normal) .normal := by
  induction lines with
  | nil => exact ⟨rfl, rfl⟩
  | cons line rest ih =>
    rw [List.forall_mem_cons] at h
    exact cons (classify_of_not_opens h.1) (ih h.2)

private theorem inside (h : ∀ line ∈ lines, ¬d.Closes line) :
    Reads d .block lines (lines.map blockKind) (lines.map fun _ => .block) .block := by
  induction lines with
  | nil => exact ⟨rfl, rfl⟩
  | cons line rest ih =>
    rw [List.forall_mem_cons] at h
    exact cons (classify_of_not_closes h.1) (ih h.2)

private theorem closer (h : d.Closes line) : Reads d .block [line] [blockKind line] [.block] .normal := by
  have hkind : blockKind line = .comment := if_neg h.nonblank
  rw [hkind]
  exact cons (classify_of_closes h) ⟨rfl, rfl⟩

end Reads

def Unclosed (stretches : List Stretch) : Prop :=
  ∃ opener inside, stretches.getLast? = some (.block opener inside none)

private theorem unclosed_cons {stretch : Stretch} {rest : List Stretch}
    (h : ∀ opener inside, stretch ≠ .block opener inside none) :
    Unclosed (stretch :: rest) ↔ Unclosed rest := by
  unfold Unclosed
  cases rest with
  | nil => simp [h]
  | cons next rest => rw [List.getLast?_cons_cons]

namespace Follow

variable {stretches : List Stretch}

private theorem reads (h : d.Follow stretches) :
    ∃ final, d.Reads .normal (stretches.flatMap Stretch.lines) (stretches.flatMap d.kinds)
      (stretches.flatMap Stretch.regions) final ∧ (final = .block ↔ Unclosed stretches) := by
  induction h with
  | nil => exact ⟨.normal, ⟨rfl, rfl⟩, by simp [Unclosed]⟩
  | @plain lines rest _ hlines _ _ ih =>
    obtain ⟨final, hreads, hfinal⟩ := ih
    refine ⟨final, (Reads.plain hlines).append hreads, hfinal.trans ?_⟩
    exact (unclosed_cons fun _ _ => Stretch.noConfusion).symm
  | @block opener inside closer rest hopener hinside hcloser hrest _ ih =>
    have hopen : blockKind opener = .comment := if_neg hopener.nonblank
    have hstep := classify_of_opens hopener
    rw [← hopen] at hstep
    have hbegun := Reads.cons hstep (Reads.inside hinside)
    cases closer with
    | none =>
      obtain rfl := hrest rfl
      refine ⟨.block, ?_, by simp [Unclosed]⟩
      simpa [kinds, Stretch.lines, Stretch.regions] using hbegun
    | some line =>
      obtain ⟨final, hreads, hfinal⟩ := ih
      have hblock := hbegun.append (Reads.closer (hcloser line rfl))
      refine ⟨final, ?_, hfinal.trans (unclosed_cons (by simp)).symm⟩
      simpa [kinds, Stretch.lines, Stretch.regions] using hblock.append hreads

/-- A line that opens no block may stand in front. -/
theorem cons_plain (hline : ¬d.Opens line) (h : d.Follow stretches) :
    ∃ longer, d.Follow longer ∧
      longer.flatMap Stretch.lines = line :: stretches.flatMap Stretch.lines := by
  cases h with
  | nil => exact ⟨[.plain [line]], .plain (by simp) (by simpa) (by simp) .nil, rfl⟩
  | @plain lines rest hne hlines hrest hfollow =>
    refine ⟨.plain (line :: lines) :: rest, .plain (by simp) ?_ hrest hfollow, rfl⟩
    exact List.forall_mem_cons.mpr ⟨hline, hlines⟩
  | @block opener inside closer rest hopener hinside hcloser hrest hfollow =>
    refine ⟨.plain [line] :: .block opener inside closer :: rest, ?_, rfl⟩
    exact .plain (by simp) (by simpa) (by simp) (.block hopener hinside hcloser hrest hfollow)

end Follow

/-- Every file falls into stretches, and so does a file behind a line that opens a block. -/
theorem exists_follow (d : Delimiters) (lines : List (List Char)) :
    (∃ stretches, d.Follow stretches ∧ stretches.flatMap Stretch.lines = lines) ∧
      ∀ opener, d.Opens opener → ∃ inside closer rest, d.Follow (.block opener inside closer :: rest) ∧
        inside ++ (closer.toList ++ rest.flatMap Stretch.lines) = lines := by
  induction lines with
  | nil =>
    refine ⟨⟨[], .nil, rfl⟩, fun opener hopener => ⟨[], none, [], ?_, rfl⟩⟩
    exact .block hopener (by simp) (by simp) (fun _ => rfl) .nil
  | cons line lines ih =>
    obtain ⟨⟨stretches, hfollow, hlines⟩, hblock⟩ := ih
    constructor
    · by_cases hopens : d.Opens line
      · obtain ⟨inside, closer, rest, hrest, hsplit⟩ := hblock line hopens
        refine ⟨_, hrest, ?_⟩
        simp only [List.flatMap_cons, Stretch.lines, List.cons_append, List.append_assoc, hsplit]
      · rw [← hlines]
        exact hfollow.cons_plain hopens
    · intro opener hopener
      by_cases hcloses : d.Closes line
      · refine ⟨[], some line, stretches, ?_, congrArg (line :: ·) hlines⟩
        exact .block hopener (by simp) (by simpa using hcloses) (by simp) hfollow
      · obtain ⟨inside, closer, rest, hrest, hsplit⟩ := hblock opener hopener
        refine ⟨line :: inside, closer, rest, ?_, congrArg (line :: ·) hsplit⟩
        cases hrest with
        | block hopener hinside hcloser hlast hfollow =>
          exact .block hopener (List.forall_mem_cons.mpr ⟨hcloses, hinside⟩) hcloser hlast hfollow

/-- The part of a list in front of the first item with a property is determined, and so is the rest. -/
private theorem append_inj_of_first {α : Type} {P : α → Prop} {first first' rest rest' : List α}
    (hfirst : ∀ a ∈ first, ¬P a) (hfirst' : ∀ a ∈ first', ¬P a) (hrest : ∀ a ∈ rest.head?, P a)
    (hrest' : ∀ a ∈ rest'.head?, P a) (h : first ++ rest = first' ++ rest') :
    first = first' ∧ rest = rest' := by
  induction first generalizing first' with
  | nil =>
    cases first' with
    | nil => exact ⟨rfl, h⟩
    | cons a first' =>
      obtain rfl : rest = a :: (first' ++ rest') := h
      exact absurd (hrest a rfl) (hfirst' a (List.mem_cons_self ..))
  | cons a first ih =>
    cases first' with
    | nil =>
      obtain rfl : a :: (first ++ rest) = rest' := h
      exact absurd (hrest' a rfl) (hfirst a (List.mem_cons_self ..))
    | cons a' first' =>
      rw [List.forall_mem_cons] at hfirst hfirst'
      obtain ⟨rfl, htail⟩ := List.cons.inj h
      obtain ⟨rfl, heq⟩ := ih hfirst.2 hfirst'.2 htail
      exact ⟨rfl, heq⟩

namespace Follow

variable {stretches others : List Stretch}

private theorem opens_of_head (h : d.Follow stretches) (hfirst : ∀ next, stretches.head? ≠ some (.plain next)) :
    ∀ line ∈ (stretches.flatMap Stretch.lines).head?, d.Opens line := by
  cases h with
  | nil => simp
  | plain => exact absurd rfl (hfirst _)
  | block hopener => simpa [Stretch.lines] using hopener

private theorem flatMap_ne_nil (h : d.Follow stretches) (hne : stretches ≠ []) :
    stretches.flatMap Stretch.lines ≠ [] := by
  cases h with
  | nil => exact absurd rfl hne
  | plain hlines => simp [Stretch.lines, hlines]
  | block => simp [Stretch.lines]

private theorem closes_of_head {closer : Option (List Char)} {rest : List Stretch}
    (hcloser : ∀ line ∈ closer, d.Closes line) (hlast : closer = none → rest = []) :
    ∀ line ∈ (closer.toList ++ rest.flatMap Stretch.lines).head?, d.Closes line := by
  cases closer with
  | none => simp [hlast rfl]
  | some line => simpa using hcloser

private theorem cons_ne_of_plain {opener : List Char} {rest rest' : List (List Char)} (hne : lines ≠ [])
    (hplain : ∀ line ∈ lines, ¬d.Opens line) (hopener : d.Opens opener) : lines ++ rest ≠ opener :: rest' := by
  intro heq
  obtain ⟨line, lines, rfl⟩ := List.exists_cons_of_ne_nil hne
  obtain ⟨rfl, -⟩ := List.cons.inj heq
  exact hplain _ (List.mem_cons_self ..) hopener

/-- A block without a closing line takes all lines that are left, so two blocks have one or neither. -/
private theorem closer_inj {closer closer' : Option (List Char)} {rest rest' : List Stretch}
    (hlast : closer = none → rest = []) (hlast' : closer' = none → rest' = [])
    (h : closer.toList ++ rest.flatMap Stretch.lines = closer'.toList ++ rest'.flatMap Stretch.lines) :
    closer = closer' ∧ rest.flatMap Stretch.lines = rest'.flatMap Stretch.lines := by
  cases closer with
  | none =>
    obtain rfl := hlast rfl
    cases closer' with
    | none => exact ⟨rfl, h⟩
    | some line => cases h
  | some line =>
    cases closer' with
    | none =>
      obtain rfl := hlast' rfl
      cases h
    | some line' =>
      obtain ⟨rfl, hrest⟩ := List.cons.inj h
      exact ⟨rfl, hrest⟩

/-- A file falls into stretches in one way only. -/
theorem unique (h : d.Follow stretches) (h' : d.Follow others)
    (hlines : stretches.flatMap Stretch.lines = others.flatMap Stretch.lines) : stretches = others := by
  induction h generalizing others with
  | nil =>
    by_contra hne
    exact h'.flatMap_ne_nil (Ne.symm hne) hlines.symm
  | @plain lines rest hne hplain hrest hfollow ih =>
    cases h' with
    | nil => exact absurd hlines (flatMap_ne_nil (.plain hne hplain hrest hfollow) (by simp))
    | @plain lines' rest' hne' hplain' hrest' hfollow' =>
      obtain ⟨rfl, htail⟩ := append_inj_of_first hplain hplain' (hfollow.opens_of_head hrest)
        (hfollow'.opens_of_head hrest') hlines
      rw [ih hfollow' htail]
    | block hopener => exact absurd hlines (cons_ne_of_plain hne hplain hopener)
  | @block opener inside closer rest hopener hinside hcloser hlast hfollow ih =>
    cases h' with
    | nil => exact absurd hlines (flatMap_ne_nil (.block hopener hinside hcloser hlast hfollow) (by simp))
    | plain hne' hplain' => exact absurd hlines.symm (cons_ne_of_plain hne' hplain' hopener)
    | @block opener' inside' closer' rest' hopener' hinside' hcloser' hlast' hfollow' =>
      simp only [List.flatMap_cons, Stretch.lines, List.cons_append, List.append_assoc] at hlines
      obtain ⟨rfl, hblock⟩ := List.cons.inj hlines
      obtain ⟨rfl, htail⟩ := append_inj_of_first hinside hinside' (closes_of_head hcloser hlast)
        (closes_of_head hcloser' hlast') hblock
      obtain ⟨rfl, hrest⟩ := closer_inj hlast hlast' htail
      rw [ih hfollow' hrest]

end Follow

section Regions

private theorem regionBefore_succ {i : Nat} (hline : lines[i]? = some line) :
    d.regionBefore lines (i + 1) = (d.classify (d.regionBefore lines i) line).2 := by
  rw [regionBefore, List.take_add_one, hline, readAll_append]
  rfl

private theorem regionBefore_succ_eq_block_iff {i : Nat} (hline : lines[i]? = some line) :
    d.regionBefore lines (i + 1) = .block ↔
      d.regionBefore lines i = .normal ∧ d.Opens line ∨
        d.regionBefore lines i = .block ∧ ¬d.Closes line := by
  rw [regionBefore_succ hline]
  cases d.regionBefore lines i with
  | normal =>
    by_cases hopens : d.Opens line
    · simp [classify_of_opens hopens, hopens]
    · simp [classify_of_not_opens hopens, hopens]
  | block =>
    by_cases hcloses : d.Closes line
    · simp [classify_of_closes hcloses, hcloses]
    · simp [classify_of_not_closes hcloses, hcloses]

private theorem openSince_succ_iff {closes : List Char → Prop} {i : Nat} (hline : lines[i]? = some line) :
    d.OpenSince closes lines (i + 1) ↔
      d.regionBefore lines i = .normal ∧ d.Opens line ∨ d.OpenSince closes lines i ∧ ¬closes line := by
  constructor
  · rintro ⟨j, hj, opener, hopener, hopens, hregion, hbetween⟩
    rcases Nat.lt_succ_iff_lt_or_eq.mp hj with hlt | rfl
    · refine .inr ⟨⟨j, hlt, opener, hopener, hopens, hregion, ?_⟩, hbetween i line hlt (by omega) hline⟩
      exact fun k line hjk hki => hbetween k line hjk (by omega)
    · obtain rfl : opener = line := Option.some.inj (hopener.symm.trans hline)
      exact .inl ⟨hregion, hopens⟩
  · rintro (⟨hregion, hopens⟩ | ⟨⟨j, hj, opener, hopener, hopens, hregion, hbetween⟩, hcloses⟩)
    · exact ⟨i, by omega, line, hline, hopens, hregion, fun k _ hik hki => absurd hki (by omega)⟩
    · refine ⟨j, by omega, opener, hopener, hopens, hregion, fun k other hjk hki hother => ?_⟩
      rcases Nat.lt_succ_iff_lt_or_eq.mp hki with hlt | rfl
      · exact hbetween k other hjk hlt hother
      · obtain rfl : other = line := Option.some.inj (hother.symm.trans hline)
        exact hcloses

private theorem regionBefore_eq_block_iff (d : Delimiters) (lines : List (List Char)) {i : Nat}
    (hi : i ≤ lines.length) :
    d.regionBefore lines i = .block ↔ d.OpenSince d.Closes lines i := by
  induction i with
  | zero => simp [regionBefore, OpenSince]
  | succ i ih =>
    have hline : lines[i]? = some lines[i] := List.getElem?_eq_getElem hi
    rw [regionBefore_succ_eq_block_iff hline, openSince_succ_iff hline, ih (by omega)]

end Regions

/-- A block is open in front of a line exactly if a line before it opens one and none in between closes it.
The file falls into stretches in one way only, and these decide the kind of every line, the region in which
it begins, and whether a block is left open at the end. -/
theorem readAll_classify_stretches (d : Delimiters) (lines : List (List Char)) :
    (∀ i ≤ lines.length, d.regionBefore lines i = .block ↔ d.OpenSince d.Closes lines i) ∧
      ∃ stretches, (d.Follow stretches ∧ stretches.flatMap Stretch.lines = lines) ∧
        (∀ others, d.Follow others → others.flatMap Stretch.lines = lines → others = stretches) ∧
        (readAll d.classify .normal lines).1 = stretches.flatMap d.kinds ∧
        statesBefore d.classify .normal lines = stretches.flatMap Stretch.regions ∧
        ((readAll d.classify .normal lines).2 = .block ↔ Unclosed stretches) := by
  obtain ⟨stretches, hfollow, rfl⟩ := (d.exists_follow lines).1
  obtain ⟨final, hreads, hfinal⟩ := hfollow.reads
  refine ⟨fun i hi => regionBefore_eq_block_iff d _ hi, stretches, ⟨hfollow, rfl⟩,
    fun others hothers hlines => hothers.unique hfollow hlines, ?_, hreads.before, ?_⟩
  · rw [hreads.read]
  · rw [hreads.read]
    exact hfinal

/-- An end token with a blank in front is not found in a line that begins with it, since the line is trimmed
first: the block stays open, although a nonblank line behind its opener contains the token. -/
theorem regionBefore_skips_indented_end :
    let d := ofStrings "//" "/*" " */"
    let lines := ["/* note", " */", "x = 1"].map (·.toList)
    d.regionBefore lines 2 = .block ∧
      ¬d.OpenSince (fun line => trim line ≠ [] ∧ d.blockEnd <:+: line) lines 2 := by
  intro d lines
  refine ⟨by decide, ?_⟩
  rintro ⟨j, hj, opener, -, -, hregion, hbetween⟩
  have hfirst : j = 0 := by
    by_contra hne
    obtain rfl : j = 1 := by omega
    exact absurd hregion (by decide)
  subst hfirst
  exact hbetween 1 " */".toList (by decide) (by decide) rfl ⟨by decide, List.infix_refl _⟩

end Delimiters

end LineCensus
