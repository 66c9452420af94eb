import LineCensus.Ignore.Spec
import LineCensus.Proofs.Cutting
import LineCensus.Proofs.Trimming
import Mathlib.Data.List.Forall2

/-! What the lines of an ignore file come to: the rule of a line, its segments and their pieces, and the rules of
many lines. -/
namespace LineCensus.Ignore

section Results

variable {α β ε : Type} {f : α → Except ε β} {items : List α} {results : List β} {item : α} {result : β}

private theorem mapM_eq_ok_iff :
    items.mapM f = .ok results ↔ List.Forall₂ (fun item result => f item = .ok result) items results := by
  induction items generalizing results with
  | nil => cases results <;> simp [pure, Except.pure]
  | cons item items ih =>
    rw [List.mapM_cons]
    cases hitem : f item with
    | error e => cases results <;> simp [bind, Except.bind, hitem]
    | ok result =>
      cases hrest : items.mapM f with
      | error e => cases results <;> simp [bind, Except.bind, hitem, ← ih, hrest]
      | ok rest => cases results <;> simp [bind, Except.bind, pure, Except.pure, hitem, ← ih, hrest]

private theorem exists_mapM_eq_ok_iff :
    (∃ results, items.mapM f = .ok results) ↔ ∀ item ∈ items, ∃ result, f item = .ok result := by
  simp only [mapM_eq_ok_iff]
  induction items with
  | nil => simp
  | cons item items ih =>
    rw [List.forall_mem_cons, ← ih]
    constructor
    · rintro ⟨_, hcons⟩
      cases hcons with
      | cons hitem hrest => exact ⟨⟨_, hitem⟩, _, hrest⟩
    · rintro ⟨⟨result, hitem⟩, rest, hrest⟩
      exact ⟨result :: rest, .cons hitem hrest⟩

private theorem exists_item_of_mem (h : items.mapM f = .ok results) (hmem : result ∈ results) :
    ∃ item ∈ items, f item = .ok result := by
  rw [mapM_eq_ok_iff] at h
  induction h with
  | nil => cases hmem
  | @cons first _ rest _ hfirst _ ih =>
    rcases List.mem_cons.mp hmem with rfl | hmem
    · exact ⟨first, List.mem_cons_self .., hfirst⟩
    · obtain ⟨item, hitem, hresult⟩ := ih hmem
      exact ⟨item, List.mem_cons_of_mem _ hitem, hresult⟩

theorem exists_getLast?_of_mapM (h : items.mapM f = .ok results) (hlast : results.getLast? = some result) :
    ∃ item, items.getLast? = some item ∧ f item = .ok result := by
  rw [mapM_eq_ok_iff, ← List.forall₂_reverse_iff] at h
  rw [List.getLast?_eq_head?_reverse] at hlast ⊢
  cases hreverse : results.reverse with
  | nil => simp [hreverse] at hlast
  | cons last rest =>
    rw [hreverse] at h hlast
    obtain ⟨item, items, hitem, -, hitems⟩ := List.forall₂_cons_right_iff.mp h
    exact ⟨item, by simp [hitems], hitem.trans (congrArg Except.ok (Option.some.inj hlast))⟩

end Results

section Spec

variable {lines : List (List Char)} {spec : Spec} {rule : Rule}

theorem ofLines_eq (lines : List (List Char)) :
    Spec.ofLines lines = (lines.mapM Rule.ofLine?).map fun rules => ⟨rules.filterMap id⟩ := by
  rw [Spec.ofLines]
  cases lines.mapM Rule.ofLine? <;> rfl

theorem exists_ofLines_eq_ok_iff : (∃ spec, Spec.ofLines lines = .ok spec) ↔
    ∀ line ∈ lines, ∃ rule, Rule.ofLine? line = .ok rule := by
  rw [← exists_mapM_eq_ok_iff, ofLines_eq]
  cases lines.mapM Rule.ofLine? <;> simp [Except.map]

theorem exists_line_of_mem (h : Spec.ofLines lines = .ok spec) (hrule : rule ∈ spec.rules) :
    ∃ line ∈ lines, Rule.ofLine? line = .ok (some rule) := by
  rw [ofLines_eq] at h
  cases hrules : lines.mapM Rule.ofLine? with
  | error e =>
    rw [hrules] at h
    cases h
  | ok rules =>
    rw [hrules] at h
    cases h
    obtain ⟨_, hmem, rfl⟩ := List.mem_filterMap.mp hrule
    exact exists_item_of_mem hrules hmem

end Spec

section Line

def lineText (line : List Char) : List Char :=
  if Text.endsWith ['\\', ' '] line then line else Text.trimEnd line

def lineSegments (line : List Char) : List (List Char) :=
  Text.splitAt '/' (if (lineText line).head? == some '!' then (lineText line).drop 1 else lineText line)

variable {line segment : List Char} {rule : Rule}

theorem lineText_isPrefix (line : List Char) : lineText line <+: line := by
  unfold lineText
  split
  · exact List.prefix_rfl
  · exact Text.trimEnd_isPrefix line

theorem of_mem_lineSegments (h : segment ∈ lineSegments line) : ∀ c ∈ segment, c ∈ line ∧ c ≠ '/' := by
  intro c hc
  have hslash : c ≠ '/' := fun heq => Text.not_mem_of_mem_splitAt h (heq ▸ hc)
  have htext : c ∈ lineText line := by
    have hmem := (Text.sublist_of_mem_splitAt h).subset hc
    split at hmem
    · exact List.mem_of_mem_drop hmem
    · exact hmem
  exact ⟨(lineText_isPrefix line).subset htext, hslash⟩

def ruleOfTarget (line : List Char) (negated : Bool) : Except GlobFault Target → Except RuleError (Option Rule)
  | .error .danglingEscape => .error (.invalid line)
  | .error .openBracket => .ok none
  | .ok (.route route) =>
    match firstBadRange? 0 (routeParts route) with
    | some range => .error (.badRange range ((routeParts route).flatMap Part.expanded))
    | none => .ok (some ⟨negated, .route route⟩)
  | .ok target => .ok (some ⟨negated, target⟩)

theorem ofLine?_eq (line : List Char) : Rule.ofLine? line =
    if (lineText line).isEmpty || (lineText line).head? == some '#' || lineText line == ['/'] then .ok none
    else match complete (lineSegments line) with
      | none => .error (.invalid line)
      | some completed => ruleOfTarget line ((lineText line).head? == some '!')
          (Target.ofSegments ((lineSegments line).getLast? == some []) (mergeFolders completed)) :=
  rfl

/-- A rule of a line is made of its segments, and takes back in what starts with the mark of a negation. -/
theorem of_ofLine?_eq_some (h : Rule.ofLine? line = .ok (some rule)) :
    rule.negated = ((lineText line).head? == some '!') ∧
      ∃ completed, complete (lineSegments line) = some completed ∧
        Target.ofSegments ((lineSegments line).getLast? == some []) (mergeFolders completed) =
          .ok rule.target := by
  rw [ofLine?_eq] at h
  split at h
  · cases h
  · split at h
    · cases h
    · rename_i completed hcompleted
      unfold ruleOfTarget at h
      split at h
      · cases h
      · cases h
      · rename_i route htarget
        split at h
        · cases h
        · cases h
          exact ⟨rfl, completed, hcompleted, htarget⟩
      · rename_i target _ htarget
        cases h
        exact ⟨rfl, completed, hcompleted, htarget⟩

end Line

section Segments

variable {segments completed : List (List Char)} {segment last : List Char}

/-- The segments of a pattern that may begin in any folder if it has no slash but at its end. -/
def rooted (segments : List (List Char)) : List (List Char) :=
  match segments with
  | [] :: rest => rest
  | [segment] => if segment == ['*', '*'] then [segment] else [['*', '*'], segment]
  | [segment, []] => if segment == ['*', '*'] then [segment, []] else [['*', '*'], segment, []]
  | _ => segments

theorem complete_eq (segments : List (List Char)) :
    complete segments = (rooted segments).getLast?.map fun last =>
      if last.isEmpty then (rooted segments).dropLast ++ [['*', '*']] else rooted segments := by
  unfold complete rooted
  dsimp only
  cases List.getLast? _ <;> rfl

private theorem mem_of_mem_rooted (hmem : segment ∈ rooted segments) : segment ∈ segments ∨ segment = ['*', '*'] := by
  unfold rooted at hmem
  split at hmem
  · exact .inl (List.mem_cons_of_mem _ hmem)
  · split at hmem
    · exact .inl hmem
    · exact (List.mem_cons.mp hmem).symm
  · split at hmem
    · exact .inl hmem
    · exact (List.mem_cons.mp hmem).symm
  · exact .inl hmem

theorem complete_getLast? (h : complete segments = some completed) :
    ∃ last, completed.getLast? = some last ∧ last ≠ [] := by
  rw [complete_eq] at h
  obtain ⟨last, hlast, rfl⟩ := Option.map_eq_some_iff.mp h
  split
  · exact ⟨['*', '*'], by simp, by simp⟩
  · rename_i hne
    exact ⟨last, hlast, by simpa using hne⟩

theorem mem_of_mem_complete (h : complete segments = some completed) (hmem : segment ∈ completed) :
    segment ∈ segments ∨ segment = ['*', '*'] := by
  rw [complete_eq] at h
  obtain ⟨last, -, rfl⟩ := Option.map_eq_some_iff.mp h
  split at hmem
  · rcases List.mem_append.mp hmem with hmem | hmem
    · exact mem_of_mem_rooted (List.dropLast_subset _ hmem)
    · exact .inr (List.mem_singleton.mp hmem)
  · exact mem_of_mem_rooted hmem

private theorem mergeFolders_ne_nil (h : segments ≠ []) : mergeFolders segments ≠ [] := by
  cases segments with
  | nil => exact absurd rfl h
  | cons segment rest =>
    rw [mergeFolders]
    split
    · exact List.cons_ne_nil _ _
    · split <;> exact List.cons_ne_nil _ _

theorem mergeFolders_getLast? (segments : List (List Char)) :
    (mergeFolders segments).getLast? = segments.getLast? := by
  induction segments with
  | nil => rfl
  | cons segment rest ih =>
    rw [mergeFolders]
    split
    · rename_i hnil
      have hrest : rest = [] := by
        by_contra hne
        exact mergeFolders_ne_nil hne hnil
      rw [hrest]
    · rename_i next others hcons
      rw [hcons] at ih
      have hlast : (segment :: rest).getLast? = (next :: others).getLast? := by
        rw [List.getLast?_cons, ← ih]
        simp [List.getLast?_cons]
      rw [hlast]
      split
      · rfl
      · rw [List.getLast?_cons_cons]

private theorem mergeFolders_subset (segments : List (List Char)) : mergeFolders segments ⊆ segments := by
  induction segments with
  | nil => exact List.Subset.refl _
  | cons segment rest ih =>
    rw [mergeFolders]
    split
    · exact List.cons_subset_cons _ (List.nil_subset _)
    · rename_i hcons
      rw [hcons] at ih
      split
      · exact fun _ hmem => List.mem_cons_of_mem _ (ih hmem)
      · exact List.cons_subset_cons _ ih

end Segments

section Pieces

def Piece.StaysInName : Piece → Prop
  | .char c => c ≠ '/'
  | .set _ _ => False
  | _ => True

variable {fuel : Nat} {c : Char} {rest text : List Char} {pieces : List Piece} {piece : Piece}

/-- Outside brackets a piece is a fixed character of the segment, or stands for characters of a name. -/
theorem of_piecesFrom_cons (hc : c ≠ '[') (h : piecesFrom (fuel + 1) (c :: rest) = .ok pieces) :
    ∃ piece tail more, pieces = piece :: more ∧ piecesFrom fuel tail = .ok more ∧ tail ⊆ rest ∧
      (piece = .anyRun ∨ piece = .anyChar ∨ ∃ d ∈ c :: rest, piece = .char d) := by
  have hbind {piece : Piece} {tail : List Char} (hsub : tail ⊆ rest)
      (hpiece : piece = .anyRun ∨ piece = .anyChar ∨ ∃ d ∈ c :: rest, piece = .char d)
      (h : (do return piece :: (← piecesFrom fuel tail)) = Except.ok (ε := GlobFault) pieces) :
      ∃ piece tail more, pieces = piece :: more ∧ piecesFrom fuel tail = .ok more ∧ tail ⊆ rest ∧
        (piece = .anyRun ∨ piece = .anyChar ∨ ∃ d ∈ c :: rest, piece = .char d) := by
    cases htail : piecesFrom fuel tail with
    | error e =>
      rw [htail] at h
      cases h
    | ok more =>
      rw [htail] at h
      cases h
      exact ⟨piece, tail, more, rfl, htail, hsub, hpiece⟩
  unfold piecesFrom at h
  split at h
  · exact hbind (List.Subset.refl _) (.inl rfl) h
  · exact hbind (List.Subset.refl _) (.inr (.inl rfl)) h
  · cases rest with
    | nil => cases h
    | cons d rest => exact hbind (List.subset_cons_self ..) (.inr (.inr ⟨d, by simp, rfl⟩)) h
  · exact absurd rfl hc
  · exact hbind (List.Subset.refl _) (.inr (.inr ⟨_, List.mem_cons_self .., rfl⟩)) h

theorem staysInName_of_piecesFrom (hbracket : '[' ∉ text) (hslash : '/' ∉ text)
    (h : piecesFrom fuel text = .ok pieces) : ∀ piece ∈ pieces, piece.StaysInName := by
  induction fuel generalizing text pieces with
  | zero =>
    cases h
    simp
  | succ fuel ih =>
    cases text with
    | nil =>
      cases h
      simp
    | cons c rest =>
      rw [List.mem_cons, not_or] at hbracket
      obtain ⟨piece, tail, more, rfl, hmore, hsub, hpiece⟩ := of_piecesFrom_cons (Ne.symm hbracket.1) h
      have htail : '/' ∉ tail := fun hmem => hslash (List.mem_cons_of_mem _ (hsub hmem))
      refine List.forall_mem_cons.mpr ⟨?_, ih (fun hmem => hbracket.2 (hsub hmem)) htail hmore⟩
      rcases hpiece with rfl | rfl | ⟨d, hd, rfl⟩
      · trivial
      · trivial
      · exact fun heq => hslash (heq ▸ hd)

private theorem of_ofChars_eq_name (h : Segment.ofChars text = .ok (.name pieces)) :
    pieces = [.anyName] ∨ piecesFrom text.length text = .ok pieces := by
  unfold Segment.ofChars at h
  split at h
  · cases h
  · split at h
    · cases h
      exact .inl rfl
    · cases hpieces : piecesFrom text.length text with
      | error e =>
        rw [hpieces] at h
        cases h
      | ok pieces =>
        rw [hpieces] at h
        cases h
        exact .inr rfl

theorem staysInName_of_ofChars (hbracket : '[' ∉ text) (hslash : '/' ∉ text)
    (h : Segment.ofChars text = .ok (.name pieces)) : ∀ piece ∈ pieces, piece.StaysInName := by
  rcases of_ofChars_eq_name h with rfl | hpieces
  · simp [Piece.StaysInName]
  · exact staysInName_of_piecesFrom hbracket hslash hpieces

theorem ne_nil_of_ofChars (htext : text ≠ []) (hbracket : '[' ∉ text)
    (h : Segment.ofChars text = .ok (.name pieces)) : pieces ≠ [] := by
  rcases of_ofChars_eq_name h with rfl | hpieces
  · exact List.cons_ne_nil _ _
  · obtain ⟨c, rest, rfl⟩ := List.exists_cons_of_ne_nil htext
    rw [List.mem_cons, not_or] at hbracket
    obtain ⟨piece, _, more, rfl, -⟩ := of_piecesFrom_cons (Ne.symm hbracket.1) hpieces
    exact List.cons_ne_nil _ _

theorem exists_ofChars_eq_ok (hbracket : '[' ∉ text) (hescape : '\\' ∉ text) :
    ∃ segment, Segment.ofChars text = .ok segment := by
  have hpieces (fuel : Nat) : ∀ text : List Char, '[' ∉ text → '\\' ∉ text →
      ∃ pieces, piecesFrom fuel text = .ok pieces := by
    induction fuel with
    | zero => exact fun _ _ _ => ⟨[], rfl⟩
    | succ fuel ih =>
      intro text hbracket hescape
      cases text with
      | nil => exact ⟨[], rfl⟩
      | cons c rest =>
        rw [List.mem_cons, not_or] at hbracket hescape
        obtain ⟨pieces, hrest⟩ := ih rest hbracket.2 hescape.2
        unfold piecesFrom
        split
        · exact ⟨_, by rw [hrest]; rfl⟩
        · exact ⟨_, by rw [hrest]; rfl⟩
        · exact absurd rfl hescape.1
        · exact absurd rfl hbracket.1
        · exact ⟨_, by rw [hrest]; rfl⟩
  obtain ⟨pieces, hok⟩ := hpieces text.length text hbracket hescape
  unfold Segment.ofChars
  split
  · exact ⟨_, rfl⟩
  · split
    · exact ⟨_, rfl⟩
    · exact ⟨.name pieces, by rw [hok]; rfl⟩

end Pieces

section Compiled

variable {line : List Char} {segments : List Segment} {parts : List Part} {piece : Piece}

private theorem firstBadRange?_eq_none (h : ∀ piece, Part.piece piece ∈ parts → ∀ offset, piece.badRange? offset = none)
    (offset : Nat) : firstBadRange? offset parts = none := by
  induction parts generalizing offset with
  | nil => rfl
  | cons part parts ih =>
    have hrest (offset : Nat) : firstBadRange? offset parts = none :=
      ih (fun piece hmem => h piece (List.mem_cons_of_mem _ hmem)) offset
    cases part with
    | fixed text => exact hrest _
    | piece p => rw [firstBadRange?, h p (List.mem_cons_self ..), hrest, Option.none_or]

private theorem of_mem_routeRestParts {slash : Bool} (h : Part.piece piece ∈ routeRestParts slash segments) :
    ∃ pieces, Segment.name pieces ∈ segments ∧ piece ∈ pieces := by
  induction segments generalizing slash with
  | nil => cases h
  | cons segment rest ih =>
    have hlater {slash : Bool} (h : Part.piece piece ∈ routeRestParts slash rest) :
        ∃ pieces, Segment.name pieces ∈ segment :: rest ∧ piece ∈ pieces := by
      obtain ⟨pieces, hmem, hpiece⟩ := ih h
      exact ⟨pieces, List.mem_cons_of_mem _ hmem, hpiece⟩
    cases segment with
    | folders =>
      cases rest with
      | nil => simp [routeRestParts] at h
      | cons next rest =>
        rw [routeRestParts] at h
        · exact hlater ((List.mem_cons.mp h).resolve_left (by simp))
        · simp
    | name pieces =>
      rw [routeRestParts, List.mem_append, List.mem_append] at h
      rcases h with (hslash | hhere) | hrest
      · split at hslash <;> simp at hslash
      · obtain ⟨_, hmem, heq⟩ := List.mem_map.mp hhere
        cases heq
        exact ⟨pieces, List.mem_cons_self .., hmem⟩
      · split at hrest
        · simp at hrest
        · exact hlater hrest

private theorem of_mem_routeParts (h : Part.piece piece ∈ routeParts segments) :
    ∃ pieces, Segment.name pieces ∈ segments ∧ piece ∈ pieces := by
  unfold routeParts at h
  split at h
  · obtain ⟨pieces, hmem, hpiece⟩ := of_mem_routeRestParts ((List.mem_cons.mp h).resolve_left (by simp))
    exact ⟨pieces, List.mem_cons_of_mem _ hmem, hpiece⟩
  · exact of_mem_routeRestParts ((List.mem_cons.mp h).resolve_left (by simp))

private theorem complete_lineSegments_ne_none (hempty : lineText line ≠ []) (hmark : lineText line ≠ ['!']) :
    complete (lineSegments line) ≠ none := by
  intro hnone
  rw [complete_eq, Option.map_eq_none_iff, List.getLast?_eq_none_iff] at hnone
  have hsegments : lineSegments line = [[]] := by
    unfold rooted at hnone
    split at hnone
    · rename_i rest hrooted
      rw [hrooted, hnone]
    · split at hnone <;> cases hnone
    · split at hnone <;> cases hnone
    · exact absurd hnone (Text.splitAt_ne_nil _ _)
  have hbody := @List.intercalate_splitOn _
    (if (lineText line).head? == some '!' then (lineText line).drop 1 else lineText line) _ _ '/'
  rw [← Text.splitAt_eq_splitOn, ← lineSegments, hsegments, List.intercalate_singleton] at hbody
  split at hbody
  · rename_i hhead
    obtain ⟨c, rest, htext⟩ := List.exists_cons_of_ne_nil hempty
    rw [htext] at hbody hhead hmark
    obtain rfl : c = '!' := by simpa using hhead
    obtain rfl : rest = [] := hbody.symm
    exact hmark rfl
  · exact hempty hbody.symm

theorem exists_ruleOfTarget_eq_ok {negated : Bool} {target : Target}
    (h : ∀ route pieces, target = .route route → .name pieces ∈ route → ∀ piece ∈ pieces, piece.StaysInName) :
    ∃ rule, ruleOfTarget line negated (.ok target) = .ok rule := by
  cases target with
  | any | nested => exact ⟨_, rfl⟩
  | route route =>
    have hgood : firstBadRange? 0 (routeParts route) = none := by
      refine firstBadRange?_eq_none (fun piece hmem offset => ?_) 0
      obtain ⟨pieces, hname, hpiece⟩ := of_mem_routeParts hmem
      have hstays := h route pieces rfl hname piece hpiece
      cases piece with
      | set negated inside => exact hstays.elim
      | _ => rfl
    exact ⟨_, by rw [ruleOfTarget, hgood]⟩

/-- A line without brackets and backslashes compiles, unless it is nothing but the mark of a negation. -/
theorem exists_ofLine?_eq_ok (hbracket : '[' ∉ line) (hescape : '\\' ∉ line) (hmark : lineText line ≠ ['!']) :
    ∃ rule, Rule.ofLine? line = .ok rule := by
  rw [ofLine?_eq]
  split
  · exact ⟨none, rfl⟩
  · rename_i hrule
    have hempty : lineText line ≠ [] := fun hnil => hrule (by simp [hnil])
    cases hcompleted : complete (lineSegments line) with
    | none => exact absurd hcompleted (complete_lineSegments_ne_none hempty hmark)
    | some completed =>
      have hplain : ∀ text ∈ mergeFolders completed, '[' ∉ text ∧ '\\' ∉ text ∧ '/' ∉ text := by
        intro text htext
        rcases mem_of_mem_complete hcompleted (mergeFolders_subset _ htext) with hmem | rfl
        · have hof := of_mem_lineSegments hmem
          exact ⟨fun hc => hbracket (hof _ hc).1, fun hc => hescape (hof _ hc).1, fun hc => (hof _ hc).2 rfl⟩
        · decide
      obtain ⟨route, hroute⟩ := exists_mapM_eq_ok_iff.mpr fun text htext =>
        exists_ofChars_eq_ok (hplain text htext).1 (hplain text htext).2.1
      have hstays : ∀ pieces, .name pieces ∈ route → ∀ piece ∈ pieces, piece.StaysInName := by
        intro pieces hname
        obtain ⟨text, htext, hsegment⟩ := exists_item_of_mem hroute hname
        exact staysInName_of_ofChars (hplain text htext).1 (hplain text htext).2.2 hsegment
      dsimp only
      unfold Target.ofSegments
      dsimp only
      split
      · exact exists_ruleOfTarget_eq_ok (by split <;> rintro _ _ ⟨⟩)
      · split
        · exact exists_ruleOfTarget_eq_ok (by rintro _ _ ⟨⟩)
        · split
          · exact exists_ruleOfTarget_eq_ok (by rintro _ _ ⟨⟩)
          · rw [hroute]
            refine exists_ruleOfTarget_eq_ok ?_
            rintro _ pieces ⟨⟩
            exact hstays pieces

end Compiled

end LineCensus.Ignore
