import LineCensus.Command.Run
import LineCensus.Proofs.RuleLines

/-! Loading the rules of a tree: which contents of its ignore file leave rules behind, and what comes of a file that
is no text. -/
namespace LineCensus.Ignore

/-- The lines that the rules of a tree are made of: the default ones, its own as far as they can be read, and extra
ones. -/
def givenLines (tree : Node) (extra : List String) : List (List Char) :=
  defaultLines.map String.toList ++ (ownLines tree).toOption.getD [] ++ extra.map String.toList

variable {tree : Node} {content : Content} {extra : List String}

theorem load_spec (root : Path) (tree : Node) (extra : List String) :
    (load root tree extra).spec = Spec.ofLines (givenLines tree extra) := by
  rw [load, givenLines]
  cases ownLines tree <;> rfl

private theorem load_warnings (root : Path) (tree : Node) (extra : List String) :
    (load root tree extra).warnings = match ownLines tree with
      | .ok _ => []
      | .error e => ["Could not read " ++ (root.join { parts := [fileName] }).toString ++ ": " ++ e.message] := by
  rw [load]
  cases ownLines tree <;> rfl

private theorem ownLines_of_file (hfile : tree.entry? fileName = some (.file content)) :
    ownLines tree = (Text.Utf8.decode content.toList).map Text.lines := by
  rw [ownLines, hfile]

private theorem givenLines_of_no_own (hown : (ownLines tree).toOption.getD [] = []) :
    givenLines tree extra = defaultLines.map String.toList ++ extra.map String.toList := by
  rw [givenLines, hown, List.append_nil]

/-- Every default line compiles. -/
theorem exists_rule_of_default : ∀ line ∈ defaultLines.map String.toList, ∃ rule, Rule.ofLine? line = .ok rule := by
  intro line hline
  have hplain : ∀ line ∈ defaultLines.map String.toList, '[' ∉ line ∧ '\\' ∉ line ∧ lineText line ≠ ['!'] := by
    decide
  exact exists_ofLine?_eq_ok (hplain line hline).1 (hplain line hline).2.1 (hplain line hline).2.2

/-- Whatever the ignore file of a tree holds, what is loaded is known from its content. If that is no text, the rules
are those of a tree without the file, and one warning tells why. If it is a text, there is no warning, and there are
rules exactly if each of its lines compiles; they all do unless one of them holds a bracket or a backslash, or is
nothing but the mark of a negation. -/
theorem load_returns_iff (root : Path) (tree : Node) (content : Content) (extra : List String)
    (hfile : tree.entry? fileName = some (.file content))
    (hextra : ∀ line ∈ extra.map String.toList, ∃ rule, Rule.ofLine? line = .ok rule) :
    (∀ e, Text.Utf8.decode content.toList = .error e → ∃ spec,
      (load root tree extra).spec = .ok spec ∧
      (load root tree extra).warnings =
        ["Could not read " ++ (root.join { parts := [fileName] }).toString ++ ": " ++ e.message] ∧
      ∀ other : Node, other.entry? fileName = none →
        (load root other extra).spec = .ok spec ∧ (load root other extra).warnings = []) ∧
    ∀ text, Text.Utf8.decode content.toList = .ok text →
      (load root tree extra).warnings = [] ∧
      ((∃ spec, (load root tree extra).spec = .ok spec) ↔
        ∀ line ∈ Text.lines text, ∃ rule, Rule.ofLine? line = .ok rule) ∧
      ((∀ line ∈ Text.lines text, '[' ∉ line ∧ '\\' ∉ line ∧ lineText line ≠ ['!']) →
        ∃ spec, (load root tree extra).spec = .ok spec) := by
  constructor
  · intro e hdecode
    have hown : ownLines tree = .error e := by rw [ownLines_of_file hfile, hdecode, Except.map]
    obtain ⟨spec, hspec⟩ := exists_ofLines_eq_ok_iff.mpr
      (List.forall_mem_append.mpr ⟨exists_rule_of_default, hextra⟩)
    refine ⟨spec, ?_, by rw [load_warnings, hown], fun other habsent => ?_⟩
    · rw [load_spec, givenLines_of_no_own (by rw [hown]; rfl), hspec]
    · have hother : ownLines other = .ok [] := by rw [ownLines, habsent]
      refine ⟨?_, by rw [load_warnings, hother]⟩
      rw [load_spec, givenLines_of_no_own (by rw [hother]; rfl), hspec]
  · intro text hdecode
    have hown : ownLines tree = .ok (Text.lines text) := by rw [ownLines_of_file hfile, hdecode, Except.map]
    have hwarnings : (load root tree extra).warnings = [] := by rw [load_warnings, hown]
    have hiff : (∃ spec, (load root tree extra).spec = .ok spec) ↔
        ∀ line ∈ Text.lines text, ∃ rule, Rule.ofLine? line = .ok rule := by
      have hlines : givenLines tree extra =
          defaultLines.map String.toList ++ Text.lines text ++ extra.map String.toList := by
        rw [givenLines, hown]
        rfl
      rw [load_spec, hlines, exists_ofLines_eq_ok_iff, List.forall_mem_append, List.forall_mem_append]
      exact ⟨fun h => h.1.2, fun h => ⟨⟨exists_rule_of_default, h⟩, hextra⟩⟩
    refine ⟨hwarnings, hiff, fun hplain => hiff.mpr fun line hline => ?_⟩
    obtain ⟨hbracket, hescape, hmark⟩ := hplain line hline
    exact exists_ofLine?_eq_ok hbracket hescape hmark

/-- Two bytes that are no text, beside an extra line for a report. -/
theorem load_returns_without_two_bytes :
    let tree : Node := .folder [(".gitignore", .file (.bytes ⟨#[0xff, 0xfe]⟩))]
    tree.entry? fileName = some (.file (.bytes ⟨#[0xff, 0xfe]⟩)) ∧
      (∀ line ∈ ["report.json"].map String.toList, ∃ rule, Rule.ofLine? line = .ok rule) ∧
      ∃ spec, (load .top tree ["report.json"]).spec = .ok spec ∧
        (load .top tree ["report.json"]).warnings = ["Could not read /.gitignore: " ++
          "'utf-8' codec can't decode byte 0xff in position 0: invalid start byte"] ∧
        (load .top (.folder []) ["report.json"]).spec = .ok spec := by
  intro tree
  have hfile : tree.entry? fileName = some (.file (.bytes ⟨#[0xff, 0xfe]⟩)) := rfl
  have hextra : ∀ line ∈ ["report.json"].map String.toList, ∃ rule, Rule.ofLine? line = .ok rule := by
    intro line hline
    obtain rfl := List.mem_singleton.mp hline
    exact exists_ofLine?_eq_ok (by decide) (by decide) (by decide)
  have hdecode : Text.Utf8.decode [0xff, 0xfe] = .error ⟨.invalidStart, 0, 0xff, 1⟩ := rfl
  obtain ⟨spec, hspec, hwarnings, habsent⟩ :=
    (load_returns_iff .top tree _ ["report.json"] hfile hextra).1 _ hdecode
  refine ⟨hfile, hextra, spec, hspec, ?_, (habsent (.folder []) rfl).1⟩
  rw [hwarnings]
  decide

/-- A backslash at the end of a line is no rule, and a run on a folder with such an ignore file breaks off. -/
theorem load_refuses_backslash_at_end :
    let tree : Node := .folder [(".gitignore", .file (.bytes ⟨#[97, 92]⟩))]
    (load .top tree []).spec = .error (.invalid ['a', '\\']) ∧
      (Command.runFolder { folder := .top, disk := tree } {} {} .top tree {}).exitCode = 1 := by
  intro tree
  have hspec : (load .top tree []).spec = .error (.invalid ['a', '\\']) := rfl
  refine ⟨hspec, ?_⟩
  simp only [Command.runFolder, Command.reportLines, hspec]
  rfl

end LineCensus.Ignore
