import LineCensus.Proofs.IgnoredBelow
import LineCensus.Proofs.LoadedRules
import LineCensus.Proofs.ScannedFiles
import LineCensus.Proofs.TreeNames

/-! Leaving out ignored folders: where everything below them is ignored as well, a scan that looks into every folder
finds the same files. -/
namespace LineCensus.Scanner

variable {s : Scanner} {tree : Node} {found : Found}

/-- What a scan finds that looks into every folder, and judges each file alone. -/
def filesUnpruned (s : Scanner) (tree : Node) : List Found :=
  (tree.walk (fun _ => false) []).filter s.keeps

private theorem entered_of_keeps {below : List String} (hpath : Path.Relative { parts := below })
    (hclosed : s.spec.IsClosed)
    (hkept : s.spec.ignores { parts := below } false = false) :
    ∀ folder, folder <+: below → folder ≠ below → s.prunes folder = false := by
  rintro folder ⟨rest, rfl⟩ hproper
  by_contra hpruned
  have hpruned : s.prunes folder = true := by simpa using hpruned
  have hne : rest ≠ [] := fun hnil => hproper (by rw [hnil, List.append_nil])
  obtain ⟨hfolder, hrest⟩ := hpath.of_append
  have hignored := hclosed _ _ hfolder hrest hne hpruned false
  rw [(hfolder.join hrest).1] at hignored
  exact absurd (hignored.symm.trans hkept) (by simp)

private theorem mem_filesUnpruned (h : tree.Distinct) (hnames : tree.Named) (hclosed : s.spec.IsClosed) :
    found ∈ s.filesUnpruned tree ↔ found ∈ s.files tree := by
  rw [filesUnpruned, files, List.mem_filter, List.mem_filter, Node.mem_walk h, Node.mem_walk h]
  refine and_congr_left fun hkeeps => exists_congr fun below => and_congr_right fun hpath => ?_
  constructor
  · intro hleads
    have hrelative := hnames.relative_of_find? hleads.find
    rw [List.nil_append] at hpath
    have hkept := ((keeps_iff (hpath ▸ hleads.inside)).mp hkeeps).1
    rw [hpath] at hkept
    refine ⟨hleads.find, hleads.leaf, hleads.inside, fun folder _ hprefix hproper => ?_⟩
    exact entered_of_keeps hrelative hclosed hkept folder hprefix hproper
  · intro hleads
    exact ⟨hleads.find, hleads.leaf, hleads.inside, fun _ _ _ _ => rfl⟩

private theorem filesUnpruned_eq (h : tree.Distinct) (hnames : tree.Named) (hclosed : s.spec.IsClosed) :
    s.filesUnpruned tree = s.files tree := by
  have hpairwise : (s.filesUnpruned tree).Pairwise fun f g => Node.Before f.path g.path :=
    (Node.pairwise_walk h).filter _
  have hnodup : (s.filesUnpruned tree).Nodup := by
    refine hpairwise.imp ?_
    rintro f _ hbefore rfl
    exact hbefore.irrefl
  refine List.Perm.eq_of_pairwise ?_ hpairwise (pairwise_files h) ?_
  · intro f g _ _ hfg hgf
    exact absurd hgf hfg.asymm
  · exact (List.perm_ext_iff_of_nodup hnodup (nodup_path_files h).of_map).mpr
      fun _ => mem_filesUnpruned h hnames hclosed

/-- If no line starts with the mark of a negation or holds a bracket, everything below an ignored folder is ignored,
files as well as folders, and a scan finds the same sources as one that looks into every folder and judges each
file alone. -/
theorem pruning_changes_nothing (root : Path) (tree : Node) (extra : List String) (spec : Ignore.Spec)
    (hspec : (Ignore.load root tree extra).spec = .ok spec)
    (hlines : ∀ line ∈ Ignore.givenLines tree extra, line.head? ≠ some '!' ∧ '[' ∉ line) :
    (∀ folder below : Path, folder.Relative → below.Relative → below.parts ≠ [] →
      spec.ignores folder true = true → ∀ isFolder, spec.ignores (folder.join below) isFolder = true) ∧
    ∀ (s : Scanner) (scanned : Node), s.spec = spec → scanned.Distinct → scanned.Named →
      s.files scanned = s.filesUnpruned scanned ∧
      ∀ (disk : Node) (place : Path), disk.find? place.parts = some scanned →
        s.sources disk place = (s.filesUnpruned scanned).map (s.source disk place) := by
  rw [Ignore.load_spec] at hspec
  have hclosed : spec.IsClosed := Ignore.isClosed_of_lines hspec hlines
  refine ⟨hclosed, ?_⟩
  rintro s scanned rfl hdistinct hnames
  have hfiles : s.filesUnpruned scanned = s.files scanned := filesUnpruned_eq hdistinct hnames hclosed
  refine ⟨hfiles.symm, fun disk place hplace => ?_⟩
  rw [sources, hplace, hfiles]

/-- An ignore file that leaves out a folder by its line with a star, and a file in that folder. -/
theorem pruning_changes_nothing_of_out :
    let file : Node := .file (.zeros 0)
    let out : Node := .folder [("a.py", file)]
    let rules : Node := .file (.bytes "/o*t/".toUTF8)
    let tree : Node := .folder [(".gitignore", rules), ("out", out), ("b.py", file)]
    ∃ spec, (Ignore.load .top tree []).spec = .ok spec ∧
      (∀ line ∈ Ignore.givenLines tree [], line.head? ≠ some '!' ∧ '[' ∉ line) ∧
      tree.Distinct ∧ tree.Named ∧
      spec.ignores { parts := ["out"] } true = true ∧ spec.ignores { parts := ["out", "a.py"] } false = true ∧
      (Scanner.mk spec .builtin none maxFileBytes).files tree =
        (Scanner.mk spec .builtin none maxFileBytes).filesUnpruned tree := by
  intro file out rules tree
  obtain ⟨spec, hspec⟩ : ∃ spec, (Ignore.load .top tree []).spec = .ok spec := ⟨_, rfl⟩
  have hlines : ∀ line ∈ Ignore.givenLines tree [], line.head? ≠ some '!' ∧ '[' ∉ line := by decide
  have hdistinct : tree.Distinct := by decide
  have hnames : tree.Named := by decide
  obtain ⟨hbelow, hfiles⟩ := pruning_changes_nothing .top tree [] spec hspec hlines
  have hout : spec.ignores { parts := ["out"] } true = true := by
    cases hspec
    rfl
  refine ⟨spec, hspec, hlines, hdistinct, hnames, hout, ?_, (hfiles _ tree rfl hdistinct hnames).1⟩
  exact hbelow { parts := ["out"] } { parts := ["a.py"] } ⟨rfl, by decide⟩ ⟨rfl, by decide⟩ (by decide) hout false

end LineCensus.Scanner
