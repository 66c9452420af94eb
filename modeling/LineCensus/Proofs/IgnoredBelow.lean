import LineCensus.Proofs.PathText
import LineCensus.Proofs.PatternWays
import LineCensus.Proofs.RuleLines

/-! What is below an ignored folder: without negations and brackets it is ignored as well, so that a scan may leave
the folder out without looking into it. -/
namespace LineCensus

namespace Cursor

def extend (c : Cursor) (tail : List Char) : Cursor :=
  { c with rest := c.rest ++ tail }

variable {c stop : Cursor} {text : List Char}

private theorem Over.extend (h : c.Over text stop) (tail : List Char) :
    (c.extend tail).Over text (stop.extend tail) where
  rest := by simp [Cursor.extend, h.rest]
  before := h.before
  offset := h.offset

end Cursor

namespace Pattern

/-- A pattern whose ways do not depend on what comes behind them. -/
def IsLocal (p : Pattern) : Prop :=
  ∀ ⦃c stop : Cursor⦄ (tail : List Char), p.Takes c stop → p.Takes (c.extend tail) (stop.extend tail)

variable {p q : Pattern} {accept : Char → Bool}

private theorem isLocal_empty : Pattern.empty.IsLocal := by
  rintro c _ tail rfl
  rfl

private theorem isLocal_one : (Pattern.one accept).IsLocal := by
  rintro c stop tail ⟨x, hx, hover⟩
  exact ⟨x, hx, hover.extend tail⟩

private theorem isLocal_lit (text : String) : (lit text).IsLocal := by
  intro c stop tail hover
  exact hover.extend tail

private theorem isLocal_many : (Pattern.many accept).IsLocal := by
  rintro c stop tail ⟨text, hall, hover⟩
  exact ⟨text, hall, hover.extend tail⟩

private theorem IsLocal.append (hp : p.IsLocal) (hq : q.IsLocal) : (p ++ q).IsLocal := by
  intro c stop tail htakes
  rw [takes_append] at htakes ⊢
  obtain ⟨middle, hfirst, hsecond⟩ := htakes
  exact ⟨middle.extend tail, hp tail hfirst, hq tail hsecond⟩

private theorem IsLocal.opt (hp : p.IsLocal) : p.opt.IsLocal := by
  rintro c stop tail (htakes | rfl)
  · exact .inl (hp tail htakes)
  · exact .inr rfl

private theorem isLocal_oneOrMore : (oneOrMore accept).IsLocal :=
  isLocal_one.append isLocal_many

end Pattern

namespace Ignore

open Pattern

def EndsOpen (text : List Char) : Prop :=
  text = [] ∨ text.getLast? = some '/'

private theorem EndsOpen.of_append {front back : List Char} (h : EndsOpen (front ++ back)) : EndsOpen back := by
  rcases h with hnil | hlast
  · exact .inl (List.append_eq_nil_iff.mp hnil).2
  · cases back with
    | nil => exact .inl rfl
    | cons c back =>
      refine .inr ?_
      rwa [List.getLast?_append_of_ne_nil _ (List.cons_ne_nil c back)] at hlast

section Names

variable {c stop : Cursor} {piece : Piece} {pieces : List Piece} {text : List Char}

private theorem Piece.isLocal (piece : Piece) : piece.toPattern.IsLocal := by
  cases piece with
  | char | anyChar | set => exact isLocal_one
  | anyRun => exact isLocal_many
  | anyName => exact isLocal_oneOrMore

theorem sequence_cons (piece : Piece) (pieces : List Piece) :
    sequence (piece :: pieces) = piece.toPattern ++ sequence pieces :=
  rfl

private theorem isLocal_sequence (pieces : List Piece) : (sequence pieces).IsLocal := by
  induction pieces with
  | nil => exact isLocal_empty
  | cons piece pieces ih =>
    rw [sequence_cons]
    exact piece.isLocal.append ih

/-- A piece that stays in a name goes over characters of a name, and only a run of them may be empty. -/
theorem Piece.StaysInName.over (hpiece : piece.StaysInName) (h : piece.toPattern.Takes c stop) :
    ∃ text, c.Over text stop ∧ '/' ∉ text ∧ (text = [] → piece = .anyRun) := by
  have hone {x : Char} (hx : isNameChar x = true) : '/' ≠ x := by
    rintro rfl
    cases hx
  cases piece with
  | set => exact hpiece.elim
  | char d =>
    obtain ⟨x, hx, hover⟩ := h
    obtain rfl : x = d := by simpa using hx
    exact ⟨[x], hover, by simpa using Ne.symm hpiece, by simp⟩
  | anyChar =>
    obtain ⟨x, hx, hover⟩ := h
    exact ⟨[x], hover, by simpa using hone hx, by simp⟩
  | anyRun =>
    obtain ⟨text, hall, hover⟩ := h
    exact ⟨text, hover, fun hmem => hone (hall _ hmem) rfl, fun _ => rfl⟩
  | anyName =>
    obtain ⟨middle, ⟨x, hx, hfirst⟩, text, hall, hmore⟩ := takes_append.mp h
    refine ⟨[x] ++ text, hfirst.trans hmore, ?_, by simp⟩
    rw [List.singleton_append, List.mem_cons, not_or]
    exact ⟨hone hx, fun hmem => hone (hall _ hmem) rfl⟩

private theorem over_of_takes_sequence (hpieces : ∀ piece ∈ pieces, piece.StaysInName)
    (h : (sequence pieces).Takes c stop) :
    ∃ text, c.Over text stop ∧ '/' ∉ text ∧ (text = [] → ∀ piece ∈ pieces, piece = .anyRun) := by
  induction pieces generalizing c with
  | nil =>
    obtain rfl : stop = c := h
    exact ⟨[], Cursor.over_nil_iff.mpr rfl, by simp, by simp⟩
  | cons piece pieces ih =>
    rw [sequence_cons, takes_append] at h
    obtain ⟨middle, hfirst, hrest⟩ := h
    obtain ⟨hpiece, hpieces⟩ := List.forall_mem_cons.mp hpieces
    obtain ⟨text, hover, hslash, hempty⟩ := hpiece.over hfirst
    obtain ⟨more, hmore, hslash', hempty'⟩ := ih hpieces hrest
    refine ⟨text ++ more, hover.trans hmore, by simp [hslash, hslash'], fun hnil => ?_⟩
    obtain ⟨htext, hmore⟩ := List.append_eq_nil_iff.mp hnil
    exact List.forall_mem_cons.mpr ⟨hempty htext, hempty' hmore⟩

/-- Runs take any name to its end. -/
theorem exists_takes_of_runs (hne : pieces ≠ []) (hruns : ∀ piece ∈ pieces, piece = .anyRun) (c : Cursor) :
    ∃ stop, (sequence pieces).Takes c stop ∧ (stop.rest = [] ∨ ∃ rest, stop.rest = '/' :: rest) := by
  have hstay (c : Cursor) (pieces : List Piece) (hruns : ∀ piece ∈ pieces, piece = .anyRun) :
      (sequence pieces).Takes c c := by
    induction pieces with
    | nil => rfl
    | cons piece pieces ih =>
      obtain ⟨rfl, hrest⟩ := List.forall_mem_cons.mp hruns
      rw [sequence_cons, takes_append]
      exact ⟨c, ⟨[], by simp, Cursor.over_nil_iff.mpr rfl⟩, ih hrest⟩
  obtain ⟨piece, pieces, rfl⟩ := List.exists_cons_of_ne_nil hne
  obtain ⟨rfl, hrest⟩ := List.forall_mem_cons.mp hruns
  obtain ⟨halong, hstop⟩ := Cursor.pastFrom_along isNameChar c.offset c.before c.rest
  refine ⟨c.past isNameChar, ?_, ?_⟩
  · rw [sequence_cons, takes_append]
    exact ⟨_, halong, hstay _ pieces hrest⟩
  · change (c.past isNameChar).rest = c.rest.dropWhile isNameChar at hstop
    rw [hstop]
    cases hdrop : c.rest.dropWhile isNameChar with
    | nil => exact .inl rfl
    | cons x rest =>
      have hx := List.head?_dropWhile_not isNameChar c.rest
      rw [hdrop] at hx
      refine .inr ⟨rest, congrArg (· :: rest) ?_⟩
      simpa [isNameChar] using hx

end Names

section Routes

/-- The last name of a route, if it ends with one, has pieces, and all of them stay in that name. -/
def EndsInName (route : List Segment) : Prop :=
  ∀ pieces, route.getLast? = some (.name pieces) → pieces ≠ [] ∧ ∀ piece ∈ pieces, piece.StaysInName

variable {c stop : Cursor} {pieces : List Piece} {route : List Segment} {slash : Bool}

private theorem EndsInName.tail {segment : Segment} (h : EndsInName (segment :: route)) (hne : route ≠ []) :
    EndsInName route := by
  intro pieces hlast
  refine h pieces ?_
  obtain ⟨next, rest, rfl⟩ := List.exists_cons_of_ne_nil hne
  rwa [List.getLast?_cons_cons]

def nameLead (slash : Bool) : Pattern :=
  if slash then lit "/" else .empty

private theorem isLocal_nameLead (slash : Bool) : (nameLead slash).IsLocal := by
  cases slash with
  | false => exact isLocal_empty
  | true => exact isLocal_lit "/"

private theorem takes_name {q : Pattern} :
    ((if slash then lit "/" ++ sequence pieces else sequence pieces) ++ q).Takes c stop ↔
      ∃ start, (nameLead slash).Takes c start ∧
        ∃ middle, (sequence pieces).Takes start middle ∧ q.Takes middle stop := by
  cases slash with
  | false =>
    rw [if_neg Bool.false_ne_true, takes_append]
    constructor
    · intro h
      exact ⟨c, rfl, h⟩
    · rintro ⟨_, rfl, h⟩
      exact h
  | true =>
    simp only [if_true, takes_append, nameLead]
    constructor
    · rintro ⟨middle, ⟨start, hstart, hname⟩, hq⟩
      exact ⟨start, hstart, middle, hname, hq⟩
    · rintro ⟨start, hstart, middle, hname, hq⟩
      exact ⟨middle, ⟨start, hstart, hname⟩, hq⟩

/-- A name at the end of a route that fits in front of a place where a new name begins fits with that name as
well. -/
theorem exists_takes_name_below (hne : pieces ≠ []) (hpieces : ∀ piece ∈ pieces, piece.StaysInName)
    (hopen : EndsOpen c.rest)
    (h : ((if slash then lit "/" ++ sequence pieces else sequence pieces) ++ (lit "/" <|> atEnd)).Takes c stop)
    (tail : List Char) :
    ∃ stop, ((if slash then lit "/" ++ sequence pieces else sequence pieces) ++
      (lit "/" <|> atEnd)).Takes (c.extend tail) stop := by
  simp only [takes_name, takes_orElse, takes_atEnd] at h ⊢
  obtain ⟨start, hstart, middle, hname, hslash | ⟨hend, -⟩⟩ := h
  · exact ⟨stop.extend tail, start.extend tail, isLocal_nameLead slash tail hstart, middle.extend tail,
      isLocal_sequence pieces tail hname, .inl (isLocal_lit "/" tail hslash)⟩
  · obtain ⟨front, hfront⟩ := hstart.over
    obtain ⟨text, hover, hnoslash, hempty⟩ := over_of_takes_sequence hpieces hname
    have hstartopen : EndsOpen start.rest := (hfront.rest ▸ hopen).of_append
    have hmiddle : middle.rest = [] := by
      have hmiddleopen : EndsOpen middle.rest := (hover.rest ▸ hstartopen).of_append
      rcases hend with hnil | hfeed
      · exact hnil
      · rw [hfeed] at hmiddleopen
        rcases hmiddleopen with hnil | hlast
        · cases hnil
        · cases hlast
    have htext : text = [] := by
      rw [hover.rest, hmiddle, List.append_nil] at hstartopen
      rcases hstartopen with hnil | hlast
      · exact hnil
      · exact absurd (List.mem_of_getLast? hlast) hnoslash
    obtain ⟨stop, htakes, hstop⟩ := exists_takes_of_runs hne (hempty htext) (start.extend tail)
    have hlead := isLocal_nameLead slash tail hstart
    rcases hstop with hnil | ⟨rest, hrest⟩
    · exact ⟨stop, start.extend tail, hlead, stop, htakes, .inr ⟨.inl hnil, rfl⟩⟩
    · exact ⟨_, start.extend tail, hlead, stop, htakes,
        .inl (Cursor.over_singleton_iff.mpr ⟨rest, hrest, rfl⟩)⟩

/-- Behind a pattern that does not depend on what follows, a line may go on where the next pattern lets it. -/
theorem exists_takes_append_below {p q : Pattern} (hp : p.IsLocal) (hopen : EndsOpen c.rest) {tail : List Char}
    (hq : ∀ {middle : Cursor}, EndsOpen middle.rest → q.Takes middle stop →
      ∃ stop, q.Takes (middle.extend tail) stop)
    (h : (p ++ q).Takes c stop) : ∃ stop, (p ++ q).Takes (c.extend tail) stop := by
  obtain ⟨middle, hfirst, hsecond⟩ := takes_append.mp h
  obtain ⟨text, hover⟩ := hfirst.over
  obtain ⟨last, hlast⟩ := hq (hover.rest ▸ hopen).of_append hsecond
  exact ⟨last, takes_append.mpr ⟨_, hp tail hfirst, hlast⟩⟩

private theorem routeRestPattern_folders (slash : Bool) (hne : route ≠ []) :
    routeRestPattern slash (.folders :: route) =
      opt (lit "/" ++ oneOrMore isPathChar) ++ routeRestPattern true route := by
  obtain ⟨next, rest, rfl⟩ := List.exists_cons_of_ne_nil hne
  rfl

private theorem exists_takes_rest_below (hroute : EndsInName route) (hopen : EndsOpen c.rest)
    (h : (routeRestPattern slash route).Takes c stop) (tail : List Char) :
    ∃ stop, (routeRestPattern slash route).Takes (c.extend tail) stop := by
  induction route generalizing c slash with
  | nil => exact ⟨_, isLocal_empty tail h⟩
  | cons segment route ih =>
    cases segment with
    | folders =>
      by_cases hnil : route = []
      · subst hnil
        exact ⟨_, isLocal_lit "/" tail h⟩
      · rw [routeRestPattern_folders slash hnil] at h ⊢
        exact exists_takes_append_below ((isLocal_lit "/").append isLocal_oneOrMore).opt hopen
          (ih (hroute.tail hnil)) h
    | name pieces =>
      rw [routeRestPattern] at h ⊢
      split at h
      · rename_i hnil
        rw [if_pos hnil]
        obtain ⟨hne, hpieces⟩ := hroute pieces (by rw [List.isEmpty_iff.mp hnil]; rfl)
        exact exists_takes_name_below hne hpieces hopen h tail
      · rename_i hne
        rw [if_neg hne]
        refine exists_takes_append_below ?_ hopen (ih (hroute.tail (by simpa using hne))) h
        split
        · exact (isLocal_lit "/").append (isLocal_sequence pieces)
        · exact isLocal_sequence pieces

private theorem exists_takes_below (hroute : EndsInName route) (hopen : EndsOpen c.rest)
    (h : (routePattern route).Takes c stop) (tail : List Char) :
    ∃ stop, (routePattern route).Takes (c.extend tail) stop := by
  unfold routePattern at h ⊢
  split at h
  · rename_i rest
    by_cases hnil : rest = []
    · subst hnil
      exact ⟨_, (isLocal_oneOrMore.append (isLocal_lit "/")).opt.append isLocal_empty tail h⟩
    · exact exists_takes_append_below (isLocal_oneOrMore.append (isLocal_lit "/")).opt hopen
        (fun hmiddle htakes => exists_takes_rest_below (hroute.tail hnil) hmiddle htakes tail) h
  · exact exists_takes_rest_below hroute hopen h tail

/-- A target without brackets takes what is below a folder along with the folder. -/
theorem Target.accepts_append {target : Target} {path : List Char}
    (htarget : ∀ route, target = .route route → EndsInName route) (hopen : EndsOpen path)
    (h : target.accepts path = true) (tail : List Char) : target.accepts (path ++ tail) = true := by
  cases target with
  | any =>
    rw [accepts, List.any_append, Bool.or_eq_true]
    exact .inl h
  | nested =>
    rw [accepts, List.contains_iff_mem] at h ⊢
    exact List.mem_append_left tail h
  | route route =>
    rw [accepts, fits_iff] at h ⊢
    obtain ⟨stop, htakes⟩ := h
    exact exists_takes_below (htarget route rfl) hopen htakes tail

end Routes

section Rules

variable {line : List Char} {rule : Rule} {rules : List Rule} {spec : Spec}

private theorem of_ofSegments_eq_route {nested : Bool} {segments : List (List Char)} {route : List Segment}
    (h : Target.ofSegments nested segments = .ok (.route route)) :
    segments.mapM Segment.ofChars = .ok route := by
  unfold Target.ofSegments at h
  dsimp only at h
  split at h
  · split at h <;> cases h
  · split at h
    · cases h
    · split at h
      · cases h
      · cases hroute : segments.mapM Segment.ofChars with
        | error e =>
          rw [hroute] at h
          cases h
        | ok route =>
          rw [hroute] at h
          cases h
          rfl

private theorem endsInName_of_ofLine? (hbracket : '[' ∉ line) (h : Rule.ofLine? line = .ok (some rule)) :
    ∀ route, rule.target = .route route → EndsInName route := by
  intro route hroute pieces hlast
  obtain ⟨-, completed, hcompleted, htarget⟩ := of_ofLine?_eq_some h
  rw [hroute] at htarget
  obtain ⟨text, htext, hsegment⟩ := exists_getLast?_of_mapM (of_ofSegments_eq_route htarget) hlast
  rw [mergeFolders_getLast?] at htext
  obtain ⟨last, hlast', hne⟩ := complete_getLast? hcompleted
  obtain rfl : last = text := Option.some.inj (hlast'.symm.trans htext)
  have hplain : '[' ∉ last ∧ '/' ∉ last := by
    rcases mem_of_mem_complete hcompleted (List.mem_of_getLast? htext) with hmem | rfl
    · have hof := of_mem_lineSegments hmem
      exact ⟨fun hc => hbracket (hof _ hc).1, fun hc => (hof _ hc).2 rfl⟩
    · decide
  exact ⟨ne_nil_of_ofChars hne hplain.1 hsegment, staysInName_of_ofChars hplain.1 hplain.2 hsegment⟩

private theorem negated_of_ofLine? (hmark : line.head? ≠ some '!') (h : Rule.ofLine? line = .ok (some rule)) :
    rule.negated = false := by
  rw [(of_ofLine?_eq_some h).1]
  by_contra hhead
  have hhead : (lineText line).head? = some '!' := by simpa using hhead
  obtain ⟨tail, htail⟩ := lineText_isPrefix line
  apply hmark
  rw [← htail, List.head?_append, hhead, Option.some_or]

/-- Without negated rules a path is left out if any rule decides on it. -/
theorem leavesOut_iff (hrules : ∀ rule ∈ rules, rule.negated = false) (path : List Char) :
    leavesOut rules path = true ↔ ∃ rule ∈ rules, rule.target.accepts path = true := by
  unfold leavesOut
  split
  · rename_i hnone
    simpa using hnone
  · rename_i rule hsome
    have hmem : rule ∈ rules := List.mem_reverse.mp (List.mem_of_find?_eq_some hsome)
    have haccepts := List.find?_some hsome
    exact iff_of_true (by rw [hrules rule hmem]; rfl) ⟨rule, hmem, haccepts⟩

end Rules

section Subjects

variable {path folder below : Path}

/-- A relative path starts with neither of the two marks that rules do not see. -/
theorem subject_eq (h : path.Relative) (hne : path.parts ≠ []) (isFolder : Bool) :
    subject path isFolder = path.toString.toList ++ if isFolder then ['/'] else [] := by
  obtain ⟨first, rest, hparts⟩ := List.exists_cons_of_ne_nil hne
  have hfirst : path.toString.toList =
      first.toList ++ if rest = [] then [] else '/' :: ['/'].intercalate (rest.map String.toList) := by
    rw [h.toList_toString hne, hparts, List.map_cons]
    split
    · rename_i hrest
      rw [hrest, List.map_nil, List.intercalate_singleton, List.append_nil]
    · rename_i hrest
      rw [List.intercalate_cons_of_ne_nil (by simpa using hrest), List.append_assoc, List.singleton_append]
  obtain ⟨c, cs, hcons, hslash, hdot⟩ := (h.parts first (hparts ▸ List.mem_cons_self ..)).exists_cons
  rw [subject, hfirst, hcons]
  split
  · rename_i heq
    exact absurd (List.cons.inj heq).1 hslash
  · rename_i heq
    obtain ⟨hc, heq⟩ := List.cons.inj heq
    obtain ⟨d, more, rfl, hd⟩ := hdot hc
    exact absurd (List.cons.inj heq).1 hd
  · rfl

private theorem subject_nil : subject { parts := [] } true = [] :=
  rfl

private theorem endsOpen_subject (h : path.Relative) : EndsOpen (subject path true) := by
  by_cases hne : path.parts = []
  · obtain ⟨root, parts⟩ := path
    obtain rfl : root = "" := h.root
    obtain rfl : parts = [] := hne
    exact .inl subject_nil
  · rw [subject_eq h hne, if_pos rfl]
    exact .inr (by simp)

/-- What rules see of a path below a folder goes on from what they see of the folder. -/
theorem exists_subject_join (h : folder.Relative) (h' : below.Relative) (hbelow : below.parts ≠ [])
    (isFolder : Bool) : ∃ tail, subject (folder.join below) isFolder = subject folder true ++ tail := by
  by_cases hne : folder.parts = []
  · obtain ⟨root, parts⟩ := folder
    obtain rfl : root = "" := h.root
    obtain rfl : parts = [] := hne
    exact ⟨_, by rw [subject_nil, List.nil_append]⟩
  · obtain ⟨hjoin, hrel⟩ := h.join h'
    rw [subject_eq hrel (by rw [hjoin]; simp [hne]), subject_eq h hne, Path.toString_join h h' hne hbelow,
      if_pos rfl, String.toList_append, String.toList_append, List.append_assoc]
    exact ⟨_, rfl⟩

end Subjects

def Spec.IsClosed (spec : Spec) : Prop :=
  ∀ folder below : Path, folder.Relative → below.Relative → below.parts ≠ [] →
    spec.ignores folder true = true → ∀ isFolder, spec.ignores (folder.join below) isFolder = true

theorem isClosed_of_lines {lines : List (List Char)} {spec : Spec} (hspec : Spec.ofLines lines = .ok spec)
    (hlines : ∀ line ∈ lines, line.head? ≠ some '!' ∧ '[' ∉ line) : spec.IsClosed := by
  have hrules : ∀ rule ∈ spec.rules,
      rule.negated = false ∧ ∀ route, rule.target = .route route → EndsInName route := by
    intro rule hrule
    obtain ⟨line, hline, hcompiled⟩ := exists_line_of_mem hspec hrule
    obtain ⟨hmark, hbracket⟩ := hlines line hline
    exact ⟨negated_of_ofLine? hmark hcompiled, endsInName_of_ofLine? hbracket hcompiled⟩
  intro folder below hfolder hbelow hne h isFolder
  rw [Spec.ignores, leavesOut_iff fun rule hrule => (hrules rule hrule).1] at h ⊢
  obtain ⟨rule, hrule, haccepts⟩ := h
  obtain ⟨tail, htail⟩ := exists_subject_join hfolder hbelow hne isFolder
  refine ⟨rule, hrule, ?_⟩
  rw [htail]
  exact Target.accepts_append (hrules rule hrule).2 (endsOpen_subject hfolder) haccepts tail

end Ignore

end LineCensus
