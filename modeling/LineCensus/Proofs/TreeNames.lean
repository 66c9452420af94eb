import LineCensus.Proofs.PathText
import LineCensus.Proofs.TreeWalk

/-! The names in a tree, and the paths that they make. -/
namespace LineCensus

namespace Path

structure IsName (name : String) : Prop extends IsPart name where
  ne_dots : name ≠ ".."

instance (name : String) : Decidable (IsName name) :=
  decidable_of_iff (IsPart name ∧ name ≠ "..")
    ⟨fun ⟨hpart, hdots⟩ => ⟨hpart, hdots⟩, fun h => ⟨h.toIsPart, h.ne_dots⟩⟩

/-- A path in its shortest form does not lead back. -/
theorem ne_dots_of_mem_collapse {path : Path} {part : String} (h : part ∈ path.collapse.parts) : part ≠ ".." := by
  have hfold (parts : List String) {front : List String} (hfront : ∀ part ∈ front, part ≠ "..") :
      ∀ part ∈ parts.foldl stepInto front, part ≠ ".." := by
    induction parts generalizing front with
    | nil => exact hfront
    | cons first rest ih =>
      refine ih ?_
      rw [stepInto]
      split
      · exact fun part hpart => hfront part ((List.dropLast_sublist front).subset hpart)
      · rename_i hfirst
        simpa [or_imp, forall_and] using ⟨hfront, by simpa using hfirst⟩
  exact hfold path.parts (by simp) part h

end Path

namespace Node

inductive Named : Node → Prop
  | leaf {node : Node} (hleaf : node.isFolder = false) : Named node
  | folder {entries : List (String × Node)} (hnames : ∀ name ∈ entries.map (·.1), Path.IsName name)
    (hnodes : ∀ name node, (name, node) ∈ entries → Named node) : Named (.folder entries)

variable {node target : Node} {path : List String}

theorem named_folder {entries : List (String × Node)} :
    (folder entries).Named ↔ (∀ name ∈ entries.map (·.1), Path.IsName name) ∧ ∀ entry ∈ entries, entry.2.Named := by
  constructor
  · rintro (hleaf | ⟨hnames, hnodes⟩)
    · cases hleaf
    · exact ⟨hnames, fun entry hmem => hnodes entry.1 entry.2 hmem⟩
  · rintro ⟨hnames, hnodes⟩
    exact .folder hnames fun name node hmem => hnodes (name, node) hmem

instance : DecidablePred Named :=
  decideNames (fun names => ∀ name ∈ names, Path.IsName name) (fun _ => .leaf) fun _ => named_folder

/-- Every part of a path through a tree is a name. -/
theorem Named.isName_of_find? (h : node.Named) (hfind : node.find? path = some target) :
    ∀ name ∈ path, Path.IsName name := by
  induction h generalizing path with
  | leaf hleaf =>
    by_cases hpath : path = []
    · simp [hpath]
    · cases (find?_leaf hleaf hpath).symm.trans hfind
  | @folder entries hnames hnodes ih =>
    cases path with
    | nil => simp
    | cons name rest =>
      obtain ⟨node, hentry, hrest⟩ := Option.bind_eq_some_iff.mp hfind
      obtain ⟨front, back, rfl, -⟩ := List.lookup_eq_some_iff.mp hentry
      have hmem : (name, node) ∈ front ++ (name, node) :: back :=
        List.mem_append_right front (List.mem_cons_self ..)
      exact List.forall_mem_cons.mpr ⟨hnames name (List.mem_map_of_mem hmem), ih name node hmem hrest⟩

private theorem step_eq_ok {disk : Node} {place next : List String} {part : String} (hdots : part ≠ "..")
    (h : disk.step place part = .ok next) : next = place ++ [part] := by
  rw [step] at h
  split at h
  · rw [if_neg (by simpa using hdots)] at h
    split at h
    · cases h
    · split at h
      · exact (Except.ok.inj h).symm
      · cases h
  · cases h
  · cases h

private theorem foldlM_step_eq_ok {disk : Node} {front parts place : List String} (hdots : ∀ part ∈ parts, part ≠ "..")
    (h : parts.foldlM disk.step front = .ok place) : place = front ++ parts := by
  induction parts generalizing front with
  | nil =>
    rw [List.append_nil]
    exact (Except.ok.inj h).symm
  | cons part rest ih =>
    obtain ⟨hpart, hrest⟩ := List.forall_mem_cons.mp hdots
    rw [List.foldlM_cons] at h
    cases hstep : disk.step front part with
    | error fault =>
      rw [hstep] at h
      cases h
    | ok next =>
      rw [hstep] at h
      rw [ih hrest h, step_eq_ok hpart hstep, List.append_assoc, List.singleton_append]

/-- Names lead to the place that they spell. -/
theorem follow_eq_ok {disk : Node} {parts place : List String} (hdots : ∀ part ∈ parts, part ≠ "..")
    (h : disk.follow parts = .ok place) : place = parts :=
  foldlM_step_eq_ok hdots h

/-- A path through a tree is a relative path. -/
theorem Named.relative_of_find? (h : node.Named) (hfind : node.find? path = some target) :
    Path.Relative { parts := path } where
  root := rfl
  parts := fun name hname => (h.isName_of_find? hfind name hname).toIsPart

end Node

end LineCensus
