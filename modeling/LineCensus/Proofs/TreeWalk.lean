import LineCensus.Tree.Walk
import Mathlib.Data.List.Nodup

/-! The walk through a tree: the files that it finds, and the order in which it finds them. -/
namespace LineCensus

namespace Node

/-- A tree as a disk holds it: no folder has two entries of one name. -/
inductive Distinct : Node → Prop
  | leaf {node : Node} (hleaf : node.isFolder = false) : Distinct node
  | folder {entries : List (String × Node)} (hnames : (entries.map (·.1)).Nodup)
    (hnodes : ∀ name node, (name, node) ∈ entries → Distinct node) : Distinct (.folder entries)

theorem distinct_folder {entries : List (String × Node)} :
    (folder entries).Distinct ↔ (entries.map (·.1)).Nodup ∧ ∀ entry ∈ entries, entry.2.Distinct := by
  constructor
  · rintro (hleaf | ⟨hnames, hnodes⟩)
    · cases hleaf
    · exact ⟨hnames, fun entry hmem => hnodes entry.1 entry.2 hmem⟩
  · rintro ⟨hnames, hnodes⟩
    exact .folder hnames fun name node hmem => hnodes (name, node) hmem

section Decide

variable {property : Node → Prop} (allowed : List String → Prop) [DecidablePred allowed]
  (hleaf : ∀ node, node.isFolder = false → property node)
  (hfolder : ∀ entries, property (.folder entries) ↔
    allowed (entries.map (·.1)) ∧ ∀ entry ∈ entries, property entry.2)

mutual

/-- Decides a property of trees that asks something of the names in each folder, and of nothing else. -/
def decideNames : (node : Node) → Decidable (property node)
  | .file _ => .isTrue (hleaf _ rfl)
  | .ghost => .isTrue (hleaf _ rfl)
  | .folder entries =>
    have := decideEntries entries
    decidable_of_iff _ (hfolder entries).symm

def decideEntries : (entries : List (String × Node)) → Decidable (∀ entry ∈ entries, property entry.2)
  | [] => .isTrue (List.forall_mem_nil _)
  | (_, node) :: rest =>
    have := decideNames node
    have := decideEntries rest
    decidable_of_iff _ List.forall_mem_cons.symm

end

end Decide

instance : DecidablePred Distinct :=
  decideNames List.Nodup (fun _ => .leaf) fun _ => distinct_folder

/-- The order of the files of a tree: where their paths part, a file comes before what is in a folder, and of
two files or two folders the one whose name is less. -/
inductive Before : List String → List String → Prop
  | files {a b : String} (h : a < b) : Before [a] [b]
  | mixed (a b c : String) (rest : List String) : Before [a] (b :: c :: rest)
  | folders {a b : String} (h : a < b) (c d : String) (p q : List String) : Before (a :: c :: p) (b :: d :: q)
  | inside (a : String) {p q : List String} (h : Before p q) : Before (a :: p) (a :: q)

private theorem Before.append {p q : List String} (h : Before p q) (path : List String) :
    Before (path ++ p) (path ++ q) := by
  induction path with
  | nil => exact h
  | cons name path ih => exact .inside name ih

theorem Before.asymm {p q : List String} (h : Before p q) : ¬Before q p := by
  induction h with
  | files h =>
    rintro (h' | _ | _ | ⟨_, h'⟩)
    · exact String.lt_asymm h h'
    · cases h'
  | mixed =>
    rintro (_ | _ | _ | ⟨_, h'⟩)
    cases h'
  | folders h =>
    rintro (_ | _ | ⟨h', _⟩ | ⟨_, _⟩)
    · exact String.lt_asymm h h'
    · exact String.lt_irrefl _ h
  | inside _ h ih =>
    rintro (h' | _ | ⟨h', _⟩ | ⟨_, h'⟩)
    · exact String.lt_irrefl _ h'
    · cases h
    · exact String.lt_irrefl _ h'
    · exact ih h'

theorem Before.irrefl (p : List String) : ¬Before p p :=
  fun h => h.asymm h

section Entries

variable {entries : List (String × Node)} {name : String} {node : Node}

private theorem lookup_eq_some_iff_mem (hnames : (entries.map (·.1)).Nodup) :
    entries.lookup name = some node ↔ (name, node) ∈ entries := by
  induction entries with
  | nil => simp
  | cons entry rest ih =>
    obtain ⟨other, first⟩ := entry
    rw [List.map_cons, List.nodup_cons] at hnames
    by_cases hname : name = other
    · subst hname
      have hrest : (name, node) ∉ rest := fun h => hnames.1 (List.mem_map.mpr ⟨_, h, rfl⟩)
      simp [hrest, eq_comm]
    · have hne : (name == other) = false := by simpa using hname
      rw [List.lookup_cons, hne, ih hnames.2]
      simp [hname]

private theorem find?_cons (hnames : (entries.map (·.1)).Nodup) (rest : List String) {target : Node} :
    (Node.folder entries).find? (name :: rest) = some target ↔
      ∃ node, (name, node) ∈ entries ∧ node.find? rest = some target := by
  simp [find?, entry?, Option.bind_eq_some_iff, lookup_eq_some_iff_mem hnames]

theorem find?_leaf (hleaf : node.isFolder = false) {path : List String} (hpath : path ≠ []) :
    node.find? path = none := by
  obtain ⟨name, rest, rfl⟩ := List.exists_cons_of_ne_nil hpath
  cases node with
  | folder => cases hleaf
  | file | ghost => rfl

end Entries

section Walk

def ownFiles (path : List String) (entries : List (String × Node)) : List (String × Found) :=
  (entries.filter (!·.2.isFolder)).map fun e => (e.1, ⟨path ++ [e.1], e.2⟩)

def inFolders (prune : List String → Bool) (path : List String) (entries : List (String × Node)) :
    List (String × List Found) :=
  (entries.filter (·.2.isFolder)).map fun e =>
    (e.1, if prune (path ++ [e.1]) then [] else e.2.walk prune (path ++ [e.1]))

variable {prune : List String → Bool} {path : List String} {entries : List (String × Node)} {found : Found}

private theorem walk_leaf {node : Node} (hleaf : node.isFolder = false) : node.walk prune path = [] := by
  cases node with
  | folder => cases hleaf
  | file | ghost => simp only [walk]

private theorem walkEntries_eq (prune : List String → Bool) (path : List String)
    (entries : List (String × Node)) :
    walkEntries prune path entries = (ownFiles path entries, inFolders prune path entries) := by
  induction entries with
  | nil => simp [walkEntries, ownFiles, inFolders]
  | cons entry rest ih =>
    obtain ⟨name, node⟩ := entry
    rw [walkEntries, ih]
    cases node <;> simp [ownFiles, inFolders, isFolder]

private theorem walk_folder (prune : List String → Bool) (path : List String) (entries : List (String × Node)) :
    (Node.folder entries).walk prune path =
      (sortByName (ownFiles path entries)).map (·.2) ++
        (sortByName (inFolders prune path entries)).flatMap (·.2) := by
  rw [walk, walkEntries_eq]

private theorem mem_ownFiles {name : String} : (name, found) ∈ ownFiles path entries ↔
    ∃ node, (name, node) ∈ entries ∧ node.isFolder = false ∧ found = ⟨path ++ [name], node⟩ := by
  simp only [ownFiles, List.mem_map, List.mem_filter, Prod.mk.injEq, Prod.exists]
  constructor
  · rintro ⟨_, node, ⟨hmem, hleaf⟩, rfl, rfl⟩
    exact ⟨node, hmem, by simpa using hleaf, rfl⟩
  · rintro ⟨node, hmem, hleaf, rfl⟩
    exact ⟨name, node, ⟨hmem, by simpa using hleaf⟩, rfl, rfl⟩

private theorem mem_inFolders {name : String} {inner : List Found} :
    (name, inner) ∈ inFolders prune path entries ↔ ∃ node, (name, node) ∈ entries ∧
      node.isFolder = true ∧
      inner = if prune (path ++ [name]) then [] else node.walk prune (path ++ [name]) := by
  simp only [inFolders, List.mem_map, List.mem_filter, Prod.mk.injEq, Prod.exists]
  constructor
  · rintro ⟨_, node, ⟨hmem, hfolder⟩, rfl, rfl⟩
    exact ⟨node, hmem, hfolder, rfl⟩
  · rintro ⟨node, hmem, hfolder, rfl⟩
    exact ⟨name, node, ⟨hmem, hfolder⟩, rfl, rfl⟩

private theorem mem_sortByName {α : Type} {entry : String × α} {entries : List (String × α)} :
    entry ∈ sortByName entries ↔ entry ∈ entries :=
  List.mem_mergeSort

private theorem mem_walk_folder : found ∈ (Node.folder entries).walk prune path ↔
    ∃ name node, (name, node) ∈ entries ∧
      (node.isFolder = false ∧ found = ⟨path ++ [name], node⟩ ∨
        node.isFolder = true ∧ prune (path ++ [name]) = false ∧
          found ∈ node.walk prune (path ++ [name])) := by
  rw [walk_folder, List.mem_append, List.mem_map, List.mem_flatMap]
  simp only [mem_sortByName, Prod.exists, mem_ownFiles, mem_inFolders]
  constructor
  · rintro (⟨name, _, ⟨node, hmem, hleaf, rfl⟩, rfl⟩ | ⟨name, _, ⟨node, hmem, hfolder, rfl⟩, hfound⟩)
    · exact ⟨name, node, hmem, .inl ⟨hleaf, rfl⟩⟩
    · split at hfound
      · cases hfound
      · rename_i hopen
        exact ⟨name, node, hmem, .inr ⟨hfolder, by simpa using hopen, hfound⟩⟩
  · rintro ⟨name, node, hmem, ⟨hleaf, rfl⟩ | ⟨hfolder, hopen, hfound⟩⟩
    · exact .inl ⟨name, _, ⟨node, hmem, hleaf, rfl⟩, rfl⟩
    · exact .inr ⟨name, _, ⟨node, hmem, hfolder, rfl⟩, by simpa [hopen] using hfound⟩

structure Leads (prune : List String → Bool) (path : List String) (node : Node) (below : List String)
    (target : Node) : Prop where
  find : node.find? below = some target
  leaf : target.isFolder = false
  inside : below ≠ []
  entered : ∀ folder, folder ≠ [] → folder <+: below → folder ≠ below → prune (path ++ folder) = false

private theorem Leads.cons {node target : Node} {name : String} {below : List String}
    (hnames : (entries.map (·.1)).Nodup) (hmem : (name, node) ∈ entries)
    (hopen : prune (path ++ [name]) = false) (h : Leads prune (path ++ [name]) node below target) :
    Leads prune path (.folder entries) (name :: below) target where
  find := (find?_cons hnames below).mpr ⟨node, hmem, h.find⟩
  leaf := h.leaf
  inside := List.cons_ne_nil _ _
  entered := by
    intro folder hne hprefix hproper
    obtain ⟨first, rest, rfl⟩ := List.exists_cons_of_ne_nil hne
    obtain ⟨rfl, hrest⟩ := List.cons_prefix_cons.mp hprefix
    cases rest with
    | nil => exact hopen
    | cons next rest =>
      have := h.entered (next :: rest) (List.cons_ne_nil _ _) hrest fun heq => hproper (heq ▸ rfl)
      simpa using this

private theorem Leads.singleton {node : Node} {name : String} (hnames : (entries.map (·.1)).Nodup)
    (hmem : (name, node) ∈ entries) (hleaf : node.isFolder = false) :
    Leads prune path (.folder entries) [name] node where
  find := (find?_cons hnames []).mpr ⟨node, hmem, rfl⟩
  leaf := hleaf
  inside := List.cons_ne_nil _ _
  entered := by
    intro folder hne hprefix hproper
    rcases List.prefix_cons_iff.mp hprefix with rfl | ⟨rest, rfl, hrest⟩
    · exact absurd rfl hne
    · rw [List.prefix_nil.mp hrest] at hproper
      exact absurd rfl hproper

private theorem Leads.of_cons {target : Node} {name : String} {below : List String}
    (hnames : (entries.map (·.1)).Nodup) (h : Leads prune path (.folder entries) (name :: below) target) :
    ∃ node, (name, node) ∈ entries ∧ (below = [] ∧ target = node ∨
      node.isFolder = true ∧ prune (path ++ [name]) = false ∧
        Leads prune (path ++ [name]) node below target) := by
  obtain ⟨node, hmem, hfind⟩ := (find?_cons hnames below).mp h.find
  refine ⟨node, hmem, ?_⟩
  by_cases hbelow : below = []
  · subst hbelow
    exact .inl ⟨rfl, (Option.some.inj hfind).symm⟩
  · refine .inr ⟨?_, h.entered [name] (by simp) (by simp) (by simpa using Ne.symm hbelow), ?_⟩
    · by_contra hleaf
      cases (find?_leaf (by simpa using hleaf) hbelow).symm.trans hfind
    · refine ⟨hfind, h.leaf, hbelow, fun folder hne hprefix hproper => ?_⟩
      have := h.entered (name :: folder) (by simp) (by simpa using hprefix) (by simpa using hproper)
      simpa using this

/-- The walk finds exactly the files that are not below a pruned folder. -/
theorem mem_walk {node : Node} (h : node.Distinct) : found ∈ node.walk prune path ↔
    ∃ below, found.path = path ++ below ∧ Leads prune path node below found.node := by
  induction h generalizing path with
  | leaf hleaf =>
    rw [walk_leaf hleaf]
    refine iff_of_false (by simp) ?_
    rintro ⟨below, -, hleads⟩
    cases (find?_leaf hleaf hleads.inside).symm.trans hleads.find
  | @folder entries hnames hnodes ih =>
    rw [mem_walk_folder]
    constructor
    · rintro ⟨name, node, hmem, ⟨hleaf, rfl⟩ | ⟨hfolder, hopen, hfound⟩⟩
      · exact ⟨[name], rfl, .singleton hnames hmem hleaf⟩
      · obtain ⟨below, hpath, hleads⟩ := (ih name node hmem).mp hfound
        exact ⟨name :: below, by simpa using hpath, .cons hnames hmem hopen hleads⟩
    · rintro ⟨below, hpath, hleads⟩
      obtain ⟨name, rest, rfl⟩ := List.exists_cons_of_ne_nil hleads.inside
      obtain ⟨node, hmem, ⟨rfl, rfl⟩ | ⟨hfolder, hopen, hrest⟩⟩ := hleads.of_cons hnames
      · exact ⟨name, _, hmem, .inl ⟨hleads.leaf, by rw [← hpath]⟩⟩
      · refine ⟨name, node, hmem, .inr ⟨hfolder, hopen, ?_⟩⟩
        exact (ih name node hmem).mpr ⟨rest, by simpa using hpath, hrest⟩

end Walk

section Order

variable {prune : List String → Bool} {path : List String} {entries : List (String × Node)}

private theorem pairwise_sortByName {α : Type} {entries : List (String × α)} (hnames : (entries.map (·.1)).Nodup) :
    (sortByName entries).Pairwise fun a b => a.1 < b.1 := by
  have hle : (sortByName entries).Pairwise fun a b => decide (a.1 ≤ b.1) = true := by
    apply List.pairwise_mergeSort
    · intro a b c hab hbc
      rw [decide_eq_true_iff] at hab hbc ⊢
      exact String.le_trans hab hbc
    · intro a b
      simpa using String.le_total a.1 b.1
  have hne : (sortByName entries).Pairwise fun a b => a.1 ≠ b.1 := by
    rw [← ((List.mergeSort_perm entries _).map (·.1)).nodup_iff] at hnames
    exact List.pairwise_map.mp hnames
  refine (hle.and hne).imp fun ⟨h, hdiff⟩ => ?_
  rw [decide_eq_true_iff] at h
  exact String.not_le.mp fun hge => hdiff (String.le_antisymm h hge)

private theorem nodup_ownFiles (hnames : (entries.map (·.1)).Nodup) :
    ((ownFiles path entries).map (·.1)).Nodup := by
  rw [ownFiles, List.map_map]
  exact hnames.sublist (List.filter_sublist.map _)

private theorem nodup_inFolders (hnames : (entries.map (·.1)).Nodup) :
    ((inFolders prune path entries).map (·.1)).Nodup := by
  rw [inFolders, List.map_map]
  exact hnames.sublist (List.filter_sublist.map _)

private theorem path_of_mem_inFolders {name : String} {inner : List Found} {found : Found}
    (hnodes : ∀ name node, (name, node) ∈ entries → node.Distinct)
    (hinner : (name, inner) ∈ inFolders prune path entries) (hfound : found ∈ inner) :
    ∃ next rest, found.path = path ++ name :: next :: rest := by
  obtain ⟨node, hmem, -, rfl⟩ := mem_inFolders.mp hinner
  split at hfound
  · cases hfound
  · obtain ⟨below, hpath, hleads⟩ := (mem_walk (hnodes name node hmem)).mp hfound
    obtain ⟨next, rest, rfl⟩ := List.exists_cons_of_ne_nil hleads.inside
    exact ⟨next, rest, by simpa using hpath⟩

private theorem pairwise_ownFiles (path : List String) (hnames : (entries.map (·.1)).Nodup) :
    (sortByName (ownFiles path entries)).Pairwise fun f g => Before f.2.path g.2.path := by
  refine (pairwise_sortByName (nodup_ownFiles hnames)).imp_of_mem ?_
  rintro ⟨a, f⟩ ⟨b, g⟩ hf hg hlt
  change a < b at hlt
  obtain ⟨_, -, -, rfl⟩ := mem_ownFiles.mp (mem_sortByName.mp hf)
  obtain ⟨_, -, -, rfl⟩ := mem_ownFiles.mp (mem_sortByName.mp hg)
  exact (Before.files hlt).append path

private theorem pairwise_inFolders (hnames : (entries.map (·.1)).Nodup)
    (hnodes : ∀ name node, (name, node) ∈ entries → node.Distinct) :
    (sortByName (inFolders prune path entries)).Pairwise fun inner inner' =>
      ∀ f ∈ inner.2, ∀ g ∈ inner'.2, Before f.path g.path := by
  refine (pairwise_sortByName (nodup_inFolders hnames)).imp_of_mem ?_
  rintro ⟨a, inner⟩ ⟨b, inner'⟩ hinner hinner' hlt f hf g hg
  obtain ⟨c, p, hfpath⟩ := path_of_mem_inFolders hnodes (mem_sortByName.mp hinner) hf
  obtain ⟨d, q, hgpath⟩ := path_of_mem_inFolders hnodes (mem_sortByName.mp hinner') hg
  rw [hfpath, hgpath]
  exact (Before.folders hlt c d p q).append path

/-- The walk finds the files in their order, whatever the order of the entries. -/
theorem pairwise_walk {node : Node} (h : node.Distinct) :
    (node.walk prune path).Pairwise fun f g => Before f.path g.path := by
  induction h generalizing path with
  | leaf hleaf =>
    rw [walk_leaf hleaf]
    exact .nil
  | @folder entries hnames hnodes ih =>
    rw [walk_folder, List.pairwise_append, List.pairwise_map, List.pairwise_flatMap]
    refine ⟨pairwise_ownFiles path hnames, ⟨?_, pairwise_inFolders hnames hnodes⟩, ?_⟩
    · rintro ⟨name, inner⟩ hinner
      obtain ⟨node, hmem, -, rfl⟩ := mem_inFolders.mp (mem_sortByName.mp hinner)
      dsimp only
      split
      · exact .nil
      · exact ih name node hmem
    · intro f hf g hg
      obtain ⟨⟨a, _⟩, hown, rfl⟩ := List.mem_map.mp hf
      obtain ⟨_, -, -, rfl⟩ := mem_ownFiles.mp (mem_sortByName.mp hown)
      obtain ⟨⟨b, inner⟩, hinner, hg⟩ := List.mem_flatMap.mp hg
      obtain ⟨c, rest, hgpath⟩ := path_of_mem_inFolders hnodes (mem_sortByName.mp hinner) hg
      rw [hgpath]
      exact (Before.mixed a b c rest).append path

end Order

section Relisted

inductive Relisted : Node → Node → Prop
  | leaf {node : Node} (hleaf : node.isFolder = false) : Relisted node node
  | folder {entries listed : List (String × Node)} (hnames : (listed.map (·.1)).Perm (entries.map (·.1)))
    (hnodes : ∀ name node other, (name, node) ∈ entries → (name, other) ∈ listed → Relisted node other) :
    Relisted (.folder entries) (.folder listed)

variable {node other : Node}

private theorem Relisted.refl (h : node.Distinct) : node.Relisted node := by
  induction h with
  | leaf hleaf => exact .leaf hleaf
  | folder hnames _ ih =>
    refine .folder (.refl _) fun name node other hnode hother => ?_
    obtain rfl : node = other := Option.some.inj <|
      ((lookup_eq_some_iff_mem hnames).mpr hnode).symm.trans ((lookup_eq_some_iff_mem hnames).mpr hother)
    exact ih name node hnode

theorem Relisted.of_perm {entries listed : List (String × Node)} (hperm : listed.Perm entries)
    (h : (Node.folder entries).Distinct) : (Node.folder entries).Relisted (.folder listed) := by
  cases Relisted.refl h with
  | leaf hleaf => cases hleaf
  | folder _ hnodes =>
    exact .folder (hperm.map _) fun name node other hnode hother =>
      hnodes name node other hnode (hperm.mem_iff.mp hother)

theorem Relisted.symm (h : node.Relisted other) : other.Relisted node := by
  induction h with
  | leaf hleaf => exact .leaf hleaf
  | folder hnames _ ih =>
    exact .folder hnames.symm fun name node other hnode hother => ih name other node hother hnode

private theorem exists_mem_of_perm {entries listed : List (String × Node)} {name : String}
    (hnames : (listed.map (·.1)).Perm (entries.map (·.1))) (hmem : (name, node) ∈ entries) :
    ∃ other, (name, other) ∈ listed := by
  have hname : name ∈ listed.map (·.1) := hnames.mem_iff.mpr (List.mem_map.mpr ⟨_, hmem, rfl⟩)
  obtain ⟨⟨_, other⟩, hother, rfl⟩ := List.mem_map.mp hname
  exact ⟨other, hother⟩

theorem Relisted.distinct (h : node.Relisted other) (hnode : node.Distinct) : other.Distinct := by
  induction h with
  | leaf => exact hnode
  | folder hnames _ ih =>
    cases hnode with
    | leaf hleaf => cases hleaf
    | folder hdistinct hnodes =>
      refine .folder (hnames.nodup_iff.mpr hdistinct) fun name other hother => ?_
      obtain ⟨node, hmem⟩ := exists_mem_of_perm hnames.symm hother
      exact ih name node other hmem hother (hnodes name node hmem)

theorem Relisted.find? (h : node.Relisted other) (hnode : node.Distinct) {path : List String} {target : Node}
    (hleaf : target.isFolder = false) (hfind : node.find? path = some target) :
    other.find? path = some target := by
  have hother := h.distinct hnode
  induction h generalizing path with
  | leaf => exact hfind
  | @folder entries listed hnames _ ih =>
    cases hnode with
    | leaf hnot => cases hnot
    | folder hdistinct hnodes =>
      cases hother with
      | leaf hnot => cases hnot
      | folder hdistinct' hothers =>
        cases path with
        | nil =>
          obtain rfl : Node.folder entries = target := Option.some.inj hfind
          cases hleaf
        | cons name rest =>
          obtain ⟨node, hmem, hrest⟩ := (find?_cons hdistinct rest).mp hfind
          obtain ⟨other, hlisted⟩ := exists_mem_of_perm hnames hmem
          exact (find?_cons hdistinct' rest).mpr ⟨other, hlisted,
            ih name node other hmem hlisted (hnodes name node hmem) hrest (hothers name other hlisted)⟩

end Relisted

end Node

end LineCensus
