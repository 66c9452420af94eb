import LineCensus.Proofs.IgnoredBelow

/-! Rules of one name: the paths that a line without slashes decides on, and which names stand for themselves
when they are read as a line. -/
namespace LineCensus

private theorem Cursor.exists_over {c : Cursor} {text rest : List Char} (h : c.rest = text ++ rest) :
    ∃ stop, c.Over text stop ∧ stop.rest = rest :=
  ⟨⟨c.offset + text.length, text.reverse ++ c.before, rest⟩, ⟨h, rfl, rfl⟩, rfl⟩

private theorem Cursor.over_append_iff {c stop : Cursor} {text more : List Char} :
    c.Over (text ++ more) stop ↔ ∃ middle, c.Over text middle ∧ middle.Over more stop := by
  constructor
  · intro h
    obtain ⟨middle, hfirst, hrest⟩ := exists_over (h.rest.trans (List.append_assoc ..))
    refine ⟨middle, hfirst, hrest, ?_, ?_⟩
    · rw [h.before, hfirst.before, List.reverse_append, List.append_assoc]
    · rw [h.offset, hfirst.offset, List.length_append, Nat.add_assoc]
  · rintro ⟨middle, hfirst, hmore⟩
    exact hfirst.trans hmore

namespace Pattern

variable {accept : Char → Bool} {c stop : Cursor}

private theorem takes_oneOrMore : (oneOrMore accept).Takes c stop ↔
    ∃ text, text ≠ [] ∧ (∀ x ∈ text, accept x = true) ∧ c.Over text stop := by
  constructor
  · intro h
    obtain ⟨middle, ⟨x, hx, hfirst⟩, text, hall, hmore⟩ := takes_append.mp h
    exact ⟨x :: text, List.cons_ne_nil x text, List.forall_mem_cons.mpr ⟨hx, hall⟩, hfirst.trans hmore⟩
  · rintro ⟨text, hne, hall, hover⟩
    obtain ⟨x, more, rfl⟩ := List.exists_cons_of_ne_nil hne
    obtain ⟨hx, hmore⟩ := List.forall_mem_cons.mp hall
    obtain ⟨rest, hrest, hover⟩ := Cursor.over_cons_iff.mp hover
    exact takes_append.mpr ⟨_, ⟨x, hx, Cursor.over_singleton_iff.mpr ⟨rest, hrest, rfl⟩⟩, more, hmore, hover⟩

end Pattern

namespace Ignore

open Pattern

section Spelling

def Piece.Spells : Piece → List Char → Prop
  | .char c, text => text = [c]
  | .anyChar, text => ∃ c, c ≠ '/' ∧ text = [c]
  | .anyRun, text => '/' ∉ text
  | .anyName, text => text ≠ [] ∧ '/' ∉ text
  | .set negated inside, text => ∃ c, text = [c] ∧
      ((ranges inside).any fun (a, b) => decide (a ≤ c) && decide (c ≤ b)) ≠ negated

def Spells : List Piece → List Char → Prop
  | [], text => text = []
  | piece :: pieces, text => ∃ front back, text = front ++ back ∧ piece.Spells front ∧ Spells pieces back

variable {piece : Piece} {pieces : List Piece} {c stop : Cursor} {path : List Char}

private theorem isNameChar_iff {x : Char} : isNameChar x = true ↔ x ≠ '/' := by
  simp [isNameChar]

private theorem all_isNameChar_iff {text : List Char} : (∀ x ∈ text, isNameChar x = true) ↔ '/' ∉ text := by
  simp only [isNameChar_iff]
  exact ⟨fun h hmem => h '/' hmem rfl, fun h x hx heq => h (heq ▸ hx)⟩

private theorem takes_piece_iff : piece.toPattern.Takes c stop ↔ ∃ text, c.Over text stop ∧ piece.Spells text := by
  have hone (accept : Char → Bool) : (Pattern.one accept).Takes c stop ↔
      ∃ text, c.Over text stop ∧ ∃ x, text = [x] ∧ accept x = true := by
    constructor
    · rintro ⟨x, hx, hover⟩
      exact ⟨[x], hover, x, rfl, hx⟩
    · rintro ⟨_, hover, x, rfl, hx⟩
      exact ⟨x, hx, hover⟩
  cases piece with
  | char d => simp [Piece.toPattern, hone, Piece.Spells]
  | anyChar => simp [Piece.toPattern, hone, Piece.Spells, isNameChar_iff, and_comm]
  | anyRun =>
    rw [Piece.toPattern]
    constructor
    · rintro ⟨text, hall, hover⟩
      exact ⟨text, hover, all_isNameChar_iff.mp hall⟩
    · rintro ⟨text, hover, hslash⟩
      exact ⟨text, all_isNameChar_iff.mpr hslash, hover⟩
  | anyName =>
    rw [Piece.toPattern, takes_oneOrMore]
    constructor
    · rintro ⟨text, hne, hall, hover⟩
      exact ⟨text, hover, hne, all_isNameChar_iff.mp hall⟩
    · rintro ⟨text, hover, hne, hslash⟩
      exact ⟨text, hne, all_isNameChar_iff.mpr hslash, hover⟩
  | set negated inside => simp [Piece.toPattern, hone, Piece.Spells]

private theorem takes_sequence_iff :
    (sequence pieces).Takes c stop ↔ ∃ text, c.Over text stop ∧ Spells pieces text := by
  induction pieces generalizing c with
  | nil =>
    constructor
    · intro h
      exact ⟨[], Cursor.over_nil_iff.mpr h, rfl⟩
    · rintro ⟨_, hover, rfl⟩
      exact Cursor.over_nil_iff.mp hover
  | cons piece pieces ih =>
    rw [sequence_cons, takes_append]
    constructor
    · rintro ⟨middle, hpiece, hrest⟩
      obtain ⟨front, hfront, hspells⟩ := takes_piece_iff.mp hpiece
      obtain ⟨back, hback, hmore⟩ := ih.mp hrest
      exact ⟨front ++ back, hfront.trans hback, front, back, rfl, hspells, hmore⟩
    · rintro ⟨_, hover, front, back, rfl, hspells, hmore⟩
      obtain ⟨middle, hfront, hback⟩ := Cursor.over_append_iff.mp hover
      exact ⟨middle, takes_piece_iff.mpr ⟨front, hfront, hspells⟩, ih.mpr ⟨back, hback, hmore⟩⟩

end Spelling

section Accepting

def Leads (lead : List Char) : Prop :=
  lead = [] ∨ ∃ folder, folder ≠ [] ∧ '\n' ∉ folder ∧ lead = folder ++ ['/']

def Closes (tail : List Char) : Prop :=
  tail = [] ∨ tail = ['\n'] ∨ ∃ more, tail = '/' :: more

variable {pieces : List Piece} {c stop : Cursor} {path lead name : List Char} {target : Target}

private theorem takes_lead_iff :
    (opt (oneOrMore isPathChar ++ lit "/")).Takes c stop ↔ ∃ lead, Leads lead ∧ c.Over lead stop := by
  have hfeed {text : List Char} : (∀ x ∈ text, isPathChar x = true) ↔ '\n' ∉ text := by
    simp only [isPathChar, bne_iff_ne]
    exact ⟨fun h hmem => h '\n' hmem rfl, fun h x hx heq => h (heq ▸ hx)⟩
  constructor
  · rintro (htakes | rfl)
    · obtain ⟨middle, hfolder, hslash⟩ := takes_append.mp htakes
      obtain ⟨folder, hne, hall, hover⟩ := takes_oneOrMore.mp hfolder
      exact ⟨folder ++ ['/'], .inr ⟨folder, hne, hfeed.mp hall, rfl⟩, hover.trans hslash⟩
    · exact ⟨[], .inl rfl, Cursor.over_nil_iff.mpr rfl⟩
  · rintro ⟨_, rfl | ⟨folder, hne, hclear, rfl⟩, hover⟩
    · exact .inr (Cursor.over_nil_iff.mp hover)
    · obtain ⟨middle, hfolder, hslash⟩ := Cursor.over_append_iff.mp hover
      exact .inl (takes_append.mpr
        ⟨middle, takes_oneOrMore.mpr ⟨folder, hne, hfeed.mpr hclear, hfolder⟩, hslash⟩)

/-- The paths that a rule of one name decides on: those through a file or a folder whose name the pieces stand
for. -/
theorem accepts_name_iff : (Target.route [.folders, .name pieces]).accepts path = true ↔
    ∃ lead text tail, path = lead ++ (text ++ tail) ∧ Leads lead ∧ Spells pieces text ∧ Closes tail := by
  have hroute : routePattern [.folders, .name pieces] =
      opt (oneOrMore isPathChar ++ lit "/") ++ (sequence pieces ++ (lit "/" <|> atEnd)) := rfl
  rw [Target.accepts, fits_iff, hroute]
  simp only [takes_append, takes_lead_iff, takes_sequence_iff, takes_orElse, takes_atEnd]
  constructor
  · rintro ⟨stop, start, ⟨lead, hlead, hstart⟩, middle, ⟨text, hmiddle, hspells⟩, hclose⟩
    refine ⟨lead, text, middle.rest, ?_, hlead, hspells, ?_⟩
    · rw [← hmiddle.rest, ← hstart.rest]
      rfl
    · rcases hclose with hslash | ⟨hnil | hfeed, -⟩
      · exact .inr (.inr ⟨stop.rest, hslash.rest⟩)
      · exact .inl hnil
      · exact .inr (.inl hfeed)
  · rintro ⟨lead, text, tail, rfl, hlead, hspells, hclose⟩
    obtain ⟨start, hstart, hrest⟩ := Cursor.exists_over (c := .start (lead ++ (text ++ tail))) rfl
    obtain ⟨middle, hmiddle, htail⟩ := Cursor.exists_over hrest
    have hname : ∃ stop, Cursor.Over middle "/".toList stop ∨
        (middle.rest = [] ∨ middle.rest = ['\n']) ∧ stop = middle := by
      rcases hclose with rfl | rfl | ⟨more, rfl⟩
      · exact ⟨middle, .inr ⟨.inl htail, rfl⟩⟩
      · exact ⟨middle, .inr ⟨.inr htail, rfl⟩⟩
      · exact ⟨_, .inl (Cursor.over_singleton_iff.mpr ⟨more, htail, rfl⟩)⟩
    obtain ⟨stop, hstop⟩ := hname
    exact ⟨stop, start, ⟨lead, hlead, hstart⟩, middle, ⟨text, hmiddle, hspells⟩, hstop⟩

/-- A rule of one name decides on a name in every folder if it decides on the name alone, as long as no folder
on the way has a line feed in its name. -/
theorem accepts_append_name (htarget : target = .any ∨ ∃ pieces, target = .route [.folders, .name pieces])
    (hlead : Leads lead) (hslash : '/' ∉ name) (h : target.accepts name = true) :
    target.accepts (lead ++ name) = true := by
  rcases htarget with rfl | ⟨pieces, rfl⟩
  · rw [Target.accepts, List.any_append, Bool.or_eq_true]
    exact .inr h
  · obtain ⟨front, text, tail, rfl, hfront, hspells, hcloses⟩ := accepts_name_iff.mp h
    obtain rfl : front = [] := by
      refine hfront.resolve_right ?_
      rintro ⟨folder, -, -, rfl⟩
      simp at hslash
    exact accepts_name_iff.mpr ⟨lead, text, tail, by rw [List.nil_append], hlead, hspells, hcloses⟩

end Accepting

section Lines

variable {line name text : List Char} {rule : Rule} {target : Target} {pieces : List Piece} {fuel : Nat}

def nameTarget (name : List Char) : Except GlobFault Target :=
  if name == ['*', '*'] || name == ['*'] then .ok .any
  else (Segment.ofChars name).map fun segment => .route [.folders, segment]

private theorem exists_complete_name (hne : name ≠ []) : ∃ completed, complete [name] = some completed ∧
    Target.ofSegments ([name].getLast? == some []) (mergeFolders completed) = nameTarget name := by
  have hlast : ([name].getLast? == some []) = false := by simpa using hne
  have hrooted : complete [name] = some (if name == ['*', '*'] then [name] else [['*', '*'], name]) := by
    rw [complete_eq, rooted]
    · split <;> simp [hne]
    · exact hne
  refine ⟨_, hrooted, ?_⟩
  rw [hlast, nameTarget]
  by_cases hfolders : name = ['*', '*']
  · subst hfolders
    rfl
  · rw [if_neg (by simpa using hfolders)]
    have hmerge : mergeFolders [['*', '*'], name] = [['*', '*'], name] := by
      simp [mergeFolders, hfolders]
    rw [hmerge]
    by_cases hany : name = ['*']
    · subst hany
      rfl
    · rw [if_neg (by simp [hfolders, hany]), Target.ofSegments]
      rw [if_neg (by simp), if_neg (by simpa using hany), if_neg (by simp)]
      have hfirst : Segment.ofChars ['*', '*'] = .ok .folders := rfl
      cases hsegment : Segment.ofChars name with
      | error fault =>
        simp only [List.mapM_cons, hfirst, hsegment]
        rfl
      | ok segment =>
        simp only [List.mapM_cons, hfirst, hsegment]
        rfl

private theorem lineSegments_of_name (hslash : '/' ∉ line) (hmark : (lineText line).head? ≠ some '!') :
    lineSegments line = [lineText line] := by
  rw [lineSegments, if_neg (by simpa using hmark)]
  exact Text.splitAt_of_not_mem fun hmem => hslash ((lineText_isPrefix line).subset hmem)

private theorem of_nameTarget_eq_ok (h : nameTarget name = .ok target) :
    target = .any ∨ ∃ pieces, target = .route [.folders, .name pieces] ∧
      piecesFrom name.length name = .ok pieces := by
  rw [nameTarget] at h
  split at h
  · exact .inl (Except.ok.inj h).symm
  · rename_i hplain
    obtain ⟨hfolders, hany⟩ : name ≠ ['*', '*'] ∧ name ≠ ['*'] := by simpa using hplain
    have hname : Segment.ofChars name = (piecesFrom name.length name).map .name := by
      rw [Segment.ofChars, if_neg (by simpa using hfolders), if_neg (by simpa using hany)]
    rw [hname] at h
    cases hpieces : piecesFrom name.length name with
    | error fault =>
      rw [hpieces] at h
      cases h
    | ok pieces =>
      rw [hpieces] at h
      exact .inr ⟨pieces, (Except.ok.inj h).symm, rfl⟩

/-- A line without a slash that takes nothing back in is a rule of one name. -/
theorem target_of_name (hslash : '/' ∉ line) (h : Rule.ofLine? line = .ok (some rule))
    (hnegated : rule.negated = false) :
    rule.target = .any ∨ ∃ pieces, rule.target = .route [.folders, .name pieces] := by
  obtain ⟨hmark, completed, hcompleted, htarget⟩ := of_ofLine?_eq_some h
  rw [hnegated] at hmark
  rw [lineSegments_of_name hslash (by simpa using hmark.symm)] at hcompleted htarget
  have hne : lineText line ≠ [] := by
    intro hnil
    rw [hnil] at hcompleted
    cases hcompleted
  obtain ⟨_, hsame, hname⟩ := exists_complete_name hne
  obtain rfl := Option.some.inj (hsame.symm.trans hcompleted)
  rcases of_nameTarget_eq_ok (hname.symm.trans htarget) with hany | ⟨pieces, hroute, -⟩
  · exact .inl hany
  · exact .inr ⟨pieces, hroute⟩

/-- A name that decides on itself when it is read as a line. -/
def StandsForItself (name : List Char) : Prop :=
  ∃ rule, Rule.ofLine? name = .ok (some rule) ∧ rule.negated = false ∧ rule.target.accepts name = true

/-- A name in which nothing but asterisks and question marks has a meaning of its own in a line. -/
structure Plain (name : List Char) : Prop where
  no_bracket : '[' ∉ name
  no_escape : '\\' ∉ name
  no_mark : name.head? ≠ some '!'
  no_hash : name.head? ≠ some '#'
  no_blank_end : Text.trimEnd name = name

private theorem spells_of_piecesFrom (hlength : text.length ≤ fuel) (hbracket : '[' ∉ text) (hescape : '\\' ∉ text)
    (hslash : '/' ∉ text) (h : piecesFrom fuel text = .ok pieces) : Spells pieces text := by
  induction fuel generalizing text pieces with
  | zero =>
    cases h
    exact List.length_eq_zero_iff.mp (Nat.le_zero.mp hlength)
  | succ fuel ih =>
    cases text with
    | nil =>
      cases h
      rfl
    | cons c rest =>
      rw [List.mem_cons, not_or] at hbracket hescape hslash
      have hcons {piece : Piece} (hpiece : piece.Spells [c])
          (h : (do return piece :: (← piecesFrom fuel rest)) = Except.ok (ε := GlobFault) pieces) :
          Spells pieces (c :: rest) := by
        cases hrest : piecesFrom fuel rest with
        | error fault =>
          rw [hrest] at h
          cases h
        | ok more =>
          rw [hrest] at h
          cases h
          exact ⟨[c], rest, rfl, hpiece,
            ih (Nat.le_of_succ_le_succ hlength) hbracket.2 hescape.2 hslash.2 hrest⟩
      have hc : c ≠ '/' := Ne.symm hslash.1
      unfold piecesFrom at h
      split at h
      · exact hcons (show Piece.anyRun.Spells _ by simp [Piece.Spells]) h
      · exact hcons (show Piece.anyChar.Spells _ from ⟨_, hc, rfl⟩) h
      · exact absurd rfl hescape.1
      · exact absurd rfl hbracket.1
      · exact hcons (show (Piece.char _).Spells _ from rfl) h

/-- The rule of a plain name decides on it. -/
theorem Plain.exists_nameTarget (h : Plain name) (hslash : '/' ∉ name) : ∃ target,
    nameTarget name = .ok target ∧ target.accepts name = true ∧
      ∀ route pieces, target = .route route → .name pieces ∈ route → ∀ piece ∈ pieces, piece.StaysInName := by
  by_cases hany : name = ['*', '*'] ∨ name = ['*']
  · refine ⟨.any, if_pos (by simpa using hany), ?_, by rintro _ _ ⟨⟩⟩
    rcases hany with rfl | rfl <;> rfl
  · obtain ⟨segment, hsegment⟩ := exists_ofChars_eq_ok h.no_bracket h.no_escape
    have hname : nameTarget name = .ok (.route [.folders, segment]) := by
      rw [nameTarget, if_neg (by simpa using hany), hsegment]
      rfl
    rcases of_nameTarget_eq_ok hname with hroute | ⟨pieces, hroute, hpieces⟩
    · cases hroute
    · cases hroute
      have hspells := spells_of_piecesFrom (Nat.le_refl _) h.no_bracket h.no_escape hslash hpieces
      refine ⟨_, hname, accepts_name_iff.mpr ⟨[], name, [], by simp, .inl rfl, hspells, .inl rfl⟩, ?_⟩
      rintro _ more ⟨⟩ hmem
      obtain rfl : more = pieces := by simpa using hmem
      exact staysInName_of_piecesFrom h.no_bracket hslash hpieces

private theorem ruleOfTarget_eq_ok {negated : Bool} {result : Option Rule}
    (h : ruleOfTarget line negated (.ok target) = .ok result) : result = some ⟨negated, target⟩ := by
  unfold ruleOfTarget at h
  split at h
  · cases h
  · rename_i hfault
    cases hfault
  · rename_i route hroute
    cases hroute
    split at h
    · cases h
    · exact (Except.ok.inj h).symm
  · rename_i other _ hother
    cases hother
    exact (Except.ok.inj h).symm

/-- A plain name compiles to a rule that decides on it. -/
theorem Plain.standsForItself (h : Plain name) (hne : name ≠ []) (hslash : '/' ∉ name) :
    StandsForItself name := by
  have htext : lineText name = name := by
    have hend : Text.endsWith ['\\', ' '] name = false := by
      rw [← Bool.not_eq_true, Text.endsWith, List.isSuffixOf_iff_suffix]
      exact fun hsuffix => h.no_escape (hsuffix.subset (by simp))
    rw [lineText, hend, if_neg Bool.false_ne_true, h.no_blank_end]
  have hsegments : lineSegments name = [name] := by
    rw [lineSegments_of_name hslash (htext.symm ▸ h.no_mark), htext]
  obtain ⟨completed, hcompleted, htarget⟩ := exists_complete_name hne
  obtain ⟨target, hname, haccepts, hstays⟩ := h.exists_nameTarget hslash
  have hrule : Rule.ofLine? name = .ok (some ⟨false, target⟩) := by
    have hlone : name ≠ ['/'] := by
      rintro rfl
      simp at hslash
    rw [ofLine?_eq, htext, if_neg (by simp [hne, h.no_hash, hlone]), hsegments, hcompleted]
    have hnegated : (name.head? == some '!') = false := by simpa using h.no_mark
    obtain ⟨rule, hrule⟩ : ∃ rule, ruleOfTarget name false (.ok target) = .ok rule := exists_ruleOfTarget_eq_ok hstays
    dsimp only
    rw [hnegated, htarget, hname, hrule, ruleOfTarget_eq_ok hrule]
  exact ⟨_, hrule, rfl, haccepts⟩

end Lines

end Ignore

end LineCensus
