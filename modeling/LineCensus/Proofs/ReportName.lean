import LineCensus.Proofs.LoadedRules
import LineCensus.Proofs.NameRules
import LineCensus.Proofs.ScannedFiles
import LineCensus.Proofs.TreeNames

/-! The report of an earlier run: which file names keep themselves out of a scan when they are the last line of
its rules. -/
namespace LineCensus

namespace Ignore

variable {lines : List (List Char)} {line : List Char} {spec : Spec}

private theorem leavesOut_append (rules : List Rule) (rule : Rule) (path : List Char) :
    leavesOut (rules ++ [rule]) path =
      if rule.target.accepts path then !rule.negated else leavesOut rules path := by
  rw [leavesOut, List.reverse_append, List.reverse_singleton, List.singleton_append, List.find?_cons]
  cases rule.target.accepts path <;> rfl

/-- The rules of some lines and one more. -/
theorem ofLines_append (h : Spec.ofLines (lines ++ [line]) = .ok spec) : ∃ front last,
    Spec.ofLines lines = .ok front ∧ Rule.ofLine? line = .ok last ∧ spec.rules = front.rules ++ last.toList := by
  rw [ofLines_eq, List.mapM_append, List.mapM_cons, List.mapM_nil] at h
  cases hfront : lines.mapM Rule.ofLine? with
  | error e =>
    rw [hfront] at h
    cases h
  | ok rules =>
    cases hlast : Rule.ofLine? line with
    | error e =>
      rw [hfront, hlast] at h
      cases h
    | ok last =>
      rw [hfront, hlast] at h
      cases h
      refine ⟨⟨rules.filterMap id⟩, last, by rw [ofLines_eq, hfront]; rfl, rfl, ?_⟩
      cases last <;> simp

end Ignore

namespace Path

/-- What rules see of a file: its name behind the folders that lead to it. -/
theorem exists_lead {front : List String} {name : String} (h : Relative { parts := front ++ [name] })
    (hclear : ∀ folder ∈ front, '\n' ∉ folder.toList) :
    ∃ lead, Ignore.Leads lead ∧ Ignore.subject { parts := front ++ [name] } false = lead ++ name.toList := by
  obtain ⟨hfolders, hfile⟩ := h.of_append
  rw [Ignore.subject_eq h (by simp), if_neg Bool.false_ne_true, List.append_nil]
  by_cases hfront : front = []
  · subst hfront
    exact ⟨[], .inl rfl, by rw [h.toList_toString (by simp)]; simp⟩
  · have hjoin := toString_join hfolders hfile hfront (by simp)
    rw [(hfolders.join hfile).1, hfile.toString_eq (by simp), String.intercalate_singleton] at hjoin
    refine ⟨(toString { parts := front }).toList ++ ['/'], .inr ⟨_, ?_, ?_, rfl⟩, ?_⟩
    · exact mt String.toList_eq_nil_iff.mp (toString_ne_empty _)
    · intro hmem
      obtain ⟨folder, hfolder, hfeed⟩ := hfolders.exists_part_of_mem hfront (by decide) hmem
      exact hclear folder hfolder hfeed
    · rw [hjoin, String.toList_append, String.toList_append]
      rfl

end Path

open Ignore (Plain Rule StandsForItself load)
open Command (reportLines)

section Report

variable {root : Path} {tree : Node} {output name : String} {s : Scanner} {found : Found}

private theorem givenLines_of_name (tree : Node) (name : String) :
    Ignore.givenLines tree [name] = Ignore.givenLines tree [] ++ [name.toList] := by
  simp [Ignore.givenLines]

/-- A name that stands for itself is left out wherever no folder on the way has a line feed in its name. -/
theorem exists_folder_of_mem_files (htree : tree.Distinct) (hnames : tree.Named)
    (hself : StandsForItself name.toList) (hspec : (load root tree [name]).spec = .ok s.spec)
    (hfound : found ∈ s.files tree) (hlast : found.path.getLast? = some name) :
    ∃ folder ∈ found.path.dropLast, '\n' ∈ folder.toList := by
  obtain ⟨rule, hrule, hnegated, haccepts⟩ := hself
  have hselects := (Scanner.mem_files htree).mp hfound
  have hrelative := hnames.relative_of_find? hselects.listed
  by_contra hclear
  simp only [not_exists, not_and] at hclear
  have hpath : found.path = found.path.dropLast ++ [name] :=
    (List.dropLast_append_getLast? name hlast).symm
  rw [hpath] at hrelative
  obtain ⟨lead, hlead, hsubject⟩ := Path.exists_lead hrelative hclear
  have hslash : '/' ∉ name.toList := (hrelative.parts name (by simp)).no_slash
  rw [Ignore.load_spec, givenLines_of_name] at hspec
  obtain ⟨front, last, -, hlastrule, hrules⟩ := Ignore.ofLines_append hspec
  obtain rfl : last = some rule := Except.ok.inj (hlastrule.symm.trans hrule)
  have hkept := hselects.kept
  rw [Ignore.Spec.ignores, hpath, hsubject, hrules, Option.toList_some, Ignore.leavesOut_append,
    Ignore.accepts_append_name (Ignore.target_of_name hslash hrule hnegated) hlead hslash haccepts, hnegated] at hkept
  cases hkept

/-- A folder with a file of the given name, and an ignore file that takes everything back in. -/
def openFolder (name : String) : Node :=
  .folder [(".gitignore", .file (.bytes ⟨#[33, 42]⟩)), (name, .file (.zeros 0))]

private theorem openFolder_distinct (h : name ≠ ".gitignore") : (openFolder name).Distinct := by
  refine Node.distinct_folder.mpr ⟨by simpa using Ne.symm h, ?_⟩
  exact List.forall_mem_cons.mpr ⟨.leaf rfl, List.forall_mem_singleton.mpr (.leaf rfl)⟩

private theorem openFolder_named (h : Path.IsName name) : (openFolder name).Named := by
  refine Node.named_folder.mpr ⟨?_, ?_⟩
  · exact List.forall_mem_cons.mpr ⟨by decide, List.forall_mem_singleton.mpr h⟩
  · exact List.forall_mem_cons.mpr ⟨.leaf rfl, List.forall_mem_singleton.mpr (.leaf rfl)⟩

private theorem ne_of_supported (h : Registry.builtin.isSupported name = true) : name ≠ ".gitignore" := by
  rintro rfl
  revert h
  decide

private theorem givenLines_openFolder (name : String) : Ignore.givenLines (openFolder name) [] =
    Ignore.defaultLines.map String.toList ++ [['!', '*']] := by
  have hown : Ignore.ownLines (openFolder name) = .ok [['!', '*']] := rfl
  rw [Ignore.givenLines, hown]
  rfl

/-- A name that does not stand for itself is left in behind a line that takes everything back in. -/
theorem leavesOut_of_not_standsForItself {lines : List (List Char)} {spec : Ignore.Spec} {text : List Char}
    (hself : ¬StandsForItself text) (hchar : ∃ c ∈ text, c ≠ '\n')
    (h : Ignore.Spec.ofLines (lines ++ [['!', '*']] ++ [text]) = .ok spec) :
    Ignore.leavesOut spec.rules text = false := by
  obtain ⟨own, last, hown, hlast, hrules⟩ := Ignore.ofLines_append h
  obtain ⟨front, back, -, hback, hownRules⟩ := Ignore.ofLines_append hown
  obtain rfl : back = some ⟨true, .any⟩ := (Except.ok.inj hback).symm
  have hany : Ignore.Target.any.accepts text = true := by
    obtain ⟨c, hc, hfeed⟩ := hchar
    exact List.any_eq_true.mpr ⟨c, hc, by simpa [Ignore.isPathChar] using hfeed⟩
  have hopen : Ignore.leavesOut own.rules text = false := by
    rw [hownRules, Option.toList_some, Ignore.leavesOut_append, if_pos hany]
    rfl
  rw [hrules]
  cases last with
  | none => rwa [Option.toList_none, List.append_nil]
  | some rule =>
    rw [Option.toList_some, Ignore.leavesOut_append]
    split
    · rename_i haccepts
      by_contra hnegated
      exact hself ⟨rule, hlast, by simpa using hnegated, haccepts⟩
    · exact hopen

/-- A name that compiles and does not stand for itself is found beside an ignore file that takes everything
back in. -/
theorem mem_files_openFolder (hname : Path.IsName name) (hsupported : Registry.builtin.isSupported name = true)
    (hcompiles : ∃ rule, Rule.ofLine? name.toList = .ok rule) (hself : ¬StandsForItself name.toList) (root : Path) :
    ∃ spec, (load root (openFolder name) [name]).spec = .ok spec ∧
      ⟨[name], .file (.zeros 0)⟩ ∈ ({ spec } : Scanner).files (openFolder name) := by
  have hown := ne_of_supported hsupported
  obtain ⟨_, hlanguage⟩ := Option.isSome_iff_exists.mp hsupported
  obtain ⟨_, hextension, -⟩ := Option.bind_eq_some_iff.mp hlanguage
  have hdot := (of_extensionOf?_eq_some hextension).1
  have hlines := givenLines_openFolder name
  obtain ⟨spec, hspec⟩ : ∃ spec, (load root (openFolder name) [name]).spec = .ok spec := by
    rw [Ignore.load_spec, givenLines_of_name, hlines, Ignore.exists_ofLines_eq_ok_iff]
    simp only [List.forall_mem_append, List.forall_mem_singleton]
    exact ⟨⟨Ignore.exists_rule_of_default, some ⟨true, .any⟩, rfl⟩, hcompiles⟩
  have hrelative : Path.Relative { parts := [name] } := ⟨rfl, by simpa using hname.toIsPart⟩
  have hkept : spec.ignores { parts := [name] } false = false := by
    rw [Ignore.load_spec, givenLines_of_name, hlines] at hspec
    rw [Ignore.Spec.ignores, Ignore.subject_eq hrelative (by simp), hrelative.toString_eq (by simp),
      String.intercalate_singleton, if_neg Bool.false_ne_true, List.append_nil]
    exact leavesOut_of_not_standsForItself hself ⟨'.', hdot, by decide⟩ hspec
  have hfind : (openFolder name).find? [name] = some (.file (.zeros 0)) := by
    have hlookup : (name == ".gitignore") = false := by simpa using hown
    simp [openFolder, Node.find?, Node.entry?, List.lookup_cons, hlookup]
  refine ⟨spec, hspec, (Scanner.mem_files (openFolder_distinct hown)).mpr
    ⟨hfind, rfl, List.cons_ne_nil _ _, ?_, hkept, ?_, ?_⟩⟩
  · intro folder hne hprefix hproper
    rcases List.prefix_cons_iff.mp hprefix with rfl | ⟨rest, rfl, hrest⟩
    · exact absurd rfl hne
    · exact absurd (by rw [List.prefix_nil.mp hrest]) hproper
  · simpa [Scanner.wants] using hsupported
  · rintro _ ⟨⟩
    simp [Content.toList]

private theorem mem_parts_of_name {path : Path} (h : path.name ≠ "") : path.name ∈ path.parts := by
  rw [Path.name] at h ⊢
  cases hlast : path.parts.getLast? with
  | none => simp [hlast] at h
  | some last => exact List.mem_of_getLast? hlast

private theorem reportLines_of_name (h : (Path.ofString output).name ≠ "") :
    reportLines (some output) = [(Path.ofString output).name] := by
  rw [reportLines, if_neg]
  rintro hempty
  obtain rfl : output = "" := by simpa using hempty
  exact h (by decide)

/-- The file name of a report is the last line of the rules of a scan. The rules load exactly if the name
compiles. A name in which nothing has a meaning but asterisks and question marks compiles and stands for itself,
and a name that stands for itself is left out, whatever the other lines are, but for folders with a line feed in
their names. Of any other name of a source that compiles some tree has a file among its sources. -/
theorem scan_leaves_out_report (root : Path) (tree : Node) (output : String) (htree : tree.Distinct)
    (hnames : tree.Named) (hname : (Path.ofString output).name ≠ "")
    (hown : ∀ lines, Ignore.ownLines tree = .ok lines → ∀ line ∈ lines, ∃ rule, Rule.ofLine? line = .ok rule) :
    let name := (Path.ofString output).name
    let loaded (tree : Node) := load root tree (reportLines (some output))
    ((∃ spec, (loaded tree).spec = .ok spec) ↔ ∃ rule, Rule.ofLine? name.toList = .ok rule) ∧
    (Plain name.toList → StandsForItself name.toList) ∧
    (StandsForItself name.toList → ∀ s : Scanner, (loaded tree).spec = .ok s.spec →
      ∀ found ∈ s.files tree, found.path.getLast? = some name →
        ∃ folder ∈ found.path.dropLast, '\n' ∈ folder.toList) ∧
    (Registry.builtin.isSupported name = true → (∃ rule, Rule.ofLine? name.toList = .ok rule) →
      ¬StandsForItself name.toList → ∃ (other : Node) (spec : Ignore.Spec), other.Distinct ∧ other.Named ∧
        (loaded other).spec = .ok spec ∧
        ∃ found ∈ ({ spec } : Scanner).files other, found.path = [name]) := by
  have hpart := Path.isPart_of_mem_ofString (mem_parts_of_name hname)
  simp only [reportLines_of_name hname]
  generalize (Path.ofString output).name = name at *
  refine ⟨?_, fun hplain => ?_, fun hself s hspec found hfound hlast => ?_, fun hsupported hcompiles hself => ?_⟩
  · have hgiven : ∀ line ∈ Ignore.givenLines tree [], ∃ rule, Rule.ofLine? line = .ok rule := by
      rw [Ignore.givenLines, List.map_nil, List.append_nil, List.forall_mem_append]
      refine ⟨Ignore.exists_rule_of_default, ?_⟩
      cases hlines : Ignore.ownLines tree with
      | ok lines => exact hown lines hlines
      | error e => simp [Except.toOption]
    rw [Ignore.load_spec, givenLines_of_name, Ignore.exists_ofLines_eq_ok_iff, List.forall_mem_append,
      List.forall_mem_singleton]
    exact and_iff_right hgiven
  · exact hplain.standsForItself (mt String.toList_eq_nil_iff.mp hname) hpart.no_slash
  · exact exists_folder_of_mem_files htree hnames hself hspec hfound hlast
  · have hproper : Path.IsName name := by
      refine ⟨hpart, ?_⟩
      rintro rfl
      revert hsupported
      decide
    obtain ⟨spec, hspec, hfound⟩ := mem_files_openFolder hproper hsupported hcompiles hself root
    exact ⟨openFolder name, spec, openFolder_distinct (ne_of_supported hsupported), openFolder_named hproper,
      hspec, _, hfound, rfl⟩

/-- The report of a run in a folder, beside one of the same name below. -/
theorem scan_leaves_out_report_of_two :
    let file : Node := .file (.zeros 0)
    let tree : Node := .folder [("report.py", file), ("sub", .folder [("report.py", file), ("a.py", file)])]
    tree.Distinct ∧ tree.Named ∧ (Path.ofString "sub/report.py").name = "report.py" ∧
      Plain "report.py".toList ∧
      (∃ spec, (load .top tree (reportLines (some "sub/report.py"))).spec = .ok spec) ∧
      ∀ s : Scanner, (load .top tree (reportLines (some "sub/report.py"))).spec = .ok s.spec →
        ∀ found ∈ s.files tree, found.path.getLast? = some "report.py" →
          ∃ folder ∈ found.path.dropLast, '\n' ∈ folder.toList := by
  intro file tree
  have htree : tree.Distinct := by decide
  have hnames : tree.Named := by decide
  have hname : (Path.ofString "sub/report.py").name = "report.py" := by decide
  have hplain : Plain "report.py".toList := ⟨by decide, by decide, by decide, by decide, by decide⟩
  have hown : ∀ lines, Ignore.ownLines tree = .ok lines → ∀ line ∈ lines, ∃ rule, Rule.ofLine? line = .ok rule := by
    rintro lines ⟨⟩
    simp
  obtain ⟨hloads, hself, hout, -⟩ := scan_leaves_out_report .top tree "sub/report.py" htree hnames
    (by rw [hname]; decide) hown
  rw [hname] at hloads hself hout
  obtain ⟨rule, hrule, -⟩ := hself hplain
  exact ⟨htree, hnames, hname, hplain, hloads.mpr ⟨_, hrule⟩, hout (hself hplain)⟩

/-- A report whose name has brackets is found, one below a folder with a line feed in its name is, and a
backslash at the end of the name leaves no rules. -/
theorem scan_finds_report :
    let file : Node := .file (.zeros 0)
    let found (output : String) (tree : Node) := (load .top tree (reportLines (some output))).spec.toOption.map
      fun spec => (({ spec } : Scanner).files tree).map (·.path)
    found "out[1].py" (.folder [("out[1].py", file)]) = some [["out[1].py"]] ∧
      found "out.py" (.folder [("a\n", .folder [("out.py", file)])]) = some [["a\n", "out.py"]] ∧
      found "out\\" (.folder []) = none := by
  decide +kernel

end Report

end LineCensus
