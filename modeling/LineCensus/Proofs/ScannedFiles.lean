import LineCensus.Proofs.TreeWalk
import LineCensus.Scan

/-! The sources of a tree: which files they are, and that they come in one order whatever the order in which
folders list their entries. -/
namespace LineCensus

private theorem Content.take_eq (n : Nat) (content : Content) : content.take n = content.toList.take n := by
  cases content with
  | bytes data => simp [take, toList]
  | zeros size => simp [take, toList]

namespace Scanner

/-- A file below the root of a tree that is a source: no folder on the way to it is ignored, and neither is the
file itself, its name is wanted, and it has no zero among its first bytes as far as it can be opened. -/
structure Selects (s : Scanner) (tree : Node) (found : Found) : Prop where
  listed : tree.find? found.path = some found.node
  file : found.node.isFolder = false
  inside : found.path ≠ []
  entered : ∀ folder, folder ≠ [] → folder <+: found.path → folder ≠ found.path →
    s.spec.ignores { parts := folder } true = false
  kept : s.spec.ignores { parts := found.path } false = false
  wanted : s.wants (found.path.getLast inside) = true
  text : ∀ content, found.node = .file content → 0 ∉ content.toList.take 1024

variable {s : Scanner} {tree : Node} {found : Found}

private theorem isBinary_eq_false_iff {node : Node} :
    isBinary node = false ↔ ∀ content, node = .file content → 0 ∉ content.toList.take 1024 := by
  cases node with
  | file content => simp [isBinary, Content.take_eq, probeBytes]
  | ghost | folder => simp [isBinary]

theorem keeps_iff (hinside : found.path ≠ []) : s.keeps found = true ↔
    s.spec.ignores { parts := found.path } false = false ∧ s.wants (found.path.getLast hinside) = true ∧
      ∀ content, found.node = .file content → 0 ∉ content.toList.take 1024 := by
  rw [keeps, List.getLast?_eq_some_getLast hinside, ← isBinary_eq_false_iff]
  simp [and_assoc]

theorem mem_files (h : tree.Distinct) : found ∈ s.files tree ↔ s.Selects tree found := by
  rw [files, List.mem_filter, Node.mem_walk h]
  constructor
  · rintro ⟨⟨below, hpath, hleads⟩, hkeeps⟩
    obtain rfl : found.path = below := hpath
    obtain ⟨hkept, hwanted, htext⟩ := (keeps_iff hleads.inside).mp hkeeps
    exact ⟨hleads.find, hleads.leaf, hleads.inside, hleads.entered, hkept, hwanted, htext⟩
  · intro hsel
    refine ⟨⟨found.path, rfl, hsel.listed, hsel.file, hsel.inside, hsel.entered⟩, ?_⟩
    exact (keeps_iff hsel.inside).mpr ⟨hsel.kept, hsel.wanted, hsel.text⟩

theorem pairwise_files (h : tree.Distinct) :
    (s.files tree).Pairwise fun f g => Node.Before f.path g.path :=
  (Node.pairwise_walk h).filter _

theorem nodup_path_files (h : tree.Distinct) : ((s.files tree).map (·.path)).Nodup := by
  refine List.pairwise_map.mpr ((pairwise_files h).imp ?_)
  intro f g hbefore heq
  rw [heq] at hbefore
  exact Node.Before.irrefl _ hbefore

private theorem Selects.relisted {listed : Node} (h : s.Selects tree found) (hlisted : tree.Relisted listed)
    (htree : tree.Distinct) : s.Selects listed found :=
  { h with listed := hlisted.find? htree h.file h.listed }

/-- The files in their order are determined by the tree, and the order of its entries is no part of it. -/
theorem files_relisted {listed : Node} (hlisted : tree.Relisted listed) (h : tree.Distinct) :
    s.files listed = s.files tree := by
  have h' := hlisted.distinct h
  have hmem (found : Found) : found ∈ s.files listed ↔ found ∈ s.files tree := by
    rw [mem_files h', mem_files h]
    exact ⟨fun hsel => hsel.relisted hlisted.symm h', fun hsel => hsel.relisted hlisted h⟩
  refine List.Perm.eq_of_pairwise ?_ (pairwise_files h') (pairwise_files h) ?_
  · intro f g _ _ hfg hgf
    exact absurd hgf hfg.asymm
  · exact (List.perm_ext_iff_of_nodup (nodup_path_files h').of_map (nodup_path_files h).of_map).mpr hmem

/-- A scan finds exactly the files of a tree that are sources, each once, in the order of their paths: the
files of a folder by name, in front of those in its folders by name. The order in which folders list their
entries makes no difference. -/
theorem files_are_selected (s : Scanner) (tree : Node) (h : tree.Distinct) :
    (∀ found, found ∈ s.files tree ↔ s.Selects tree found) ∧
      ((s.files tree).map (·.path)).Nodup ∧
      ((s.files tree).Pairwise fun f g => Node.Before f.path g.path) ∧
      (∀ listed, tree.Relisted listed → s.files listed = s.files tree) ∧
      ∀ disk root, disk.find? root.parts = some tree →
        (s.sources disk root).map (·.relPath) =
          (s.files tree).map fun found => Path.toString { parts := found.path } := by
  refine ⟨fun _ => mem_files h, nodup_path_files h, pairwise_files h,
    fun _ hlisted => files_relisted hlisted h, fun disk root hroot => ?_⟩
  rw [sources, hroot, List.map_map]
  rfl

/-- A tree with an ignored folder and a file of zeros: what is left out, what is found, and the same files from
the entries in another order. -/
theorem files_are_selected_of_four :
    let s : Scanner := { spec := ⟨[⟨false, .route [.folders, .name ("dist".toList.map .char), .folders]⟩]⟩ }
    let file : Node := .file (.zeros 0)
    let source : Node := .folder [("b.py", file), ("a.py", file), ("n.py", .file (.zeros 9))]
    let dist : Node := .folder [("c.py", file)]
    let tree : Node := .folder [("src", source), ("dist", dist)]
    let listed : Node := .folder [("dist", dist), ("src", source)]
    tree.Distinct ∧ tree.Relisted listed ∧ ⟨["src", "b.py"], file⟩ ∈ s.files tree ∧
      ⟨["src", "n.py"], .file (.zeros 9)⟩ ∉ s.files tree ∧ ⟨["dist", "c.py"], file⟩ ∉ s.files tree ∧
      s.files listed = s.files tree := by
  intro s file source dist tree listed
  have htree : tree.Distinct := by decide
  have hlisted : tree.Relisted listed := .of_perm (.swap ..) htree
  obtain ⟨hmem, -, -, hsame, -⟩ := files_are_selected s tree htree
  refine ⟨htree, hlisted, (hmem _).mpr ?_, ?_, ?_, hsame listed hlisted⟩
  · refine ⟨rfl, rfl, by decide, ?_, by decide +kernel, by decide +kernel, ?_⟩
    · intro folder hne hprefix hproper
      rcases List.prefix_cons_iff.mp hprefix with rfl | ⟨rest, rfl, hrest⟩
      · exact absurd rfl hne
      rcases List.prefix_cons_iff.mp hrest with rfl | ⟨rest, rfl, hnil⟩
      · decide +kernel
      · rw [List.prefix_nil.mp hnil] at hproper
        exact absurd rfl hproper
    · rintro _ ⟨⟩
      decide
  · intro h
    have htext := ((hmem _).mp h).text _ rfl
    revert htext
    decide
  · intro h
    have hentered := ((hmem _).mp h).entered ["dist"] (by decide) (by decide) (by decide)
    revert hentered
    decide +kernel

end Scanner

end LineCensus
