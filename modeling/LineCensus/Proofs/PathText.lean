import LineCensus.Language.Basic
import LineCensus.Proofs.Cutting
import LineCensus.Tree.Path
import Mathlib.Data.List.Basic

/-! Relative paths and their texts: a path is determined by its text, and the extension of a file by the last part
of the path that leads to it. -/
namespace LineCensus

namespace Path

/-- A part that is left when a path is read: it is not empty, has no slash in it, and is no single dot. -/
structure IsPart (part : String) : Prop where
  ne_empty : part ≠ ""
  no_slash : '/' ∉ part.toList
  ne_dot : part ≠ "."

instance (part : String) : Decidable (IsPart part) :=
  decidable_of_iff (part ≠ "" ∧ '/' ∉ part.toList ∧ part ≠ ".")
    ⟨fun ⟨hempty, hslash, hdot⟩ => ⟨hempty, hslash, hdot⟩, fun ⟨hempty, hslash, hdot⟩ => ⟨hempty, hslash, hdot⟩⟩

structure Relative (path : Path) : Prop where
  root : path.root = ""
  parts : ∀ part ∈ path.parts, IsPart part

variable {path other folder below : Path} {part : String}

theorem isPart_of_mem_ofString {text : String} (h : part ∈ (ofString text).parts) : IsPart part := by
  obtain ⟨hmem, hkept⟩ := List.mem_filter.mp h
  obtain ⟨piece, hpiece, rfl⟩ := List.mem_map.mp hmem
  rw [Bool.and_eq_true] at hkept
  refine ⟨?_, ?_, ?_⟩
  · simpa using hkept.1
  · rw [String.toList_ofList]
    exact Text.not_mem_of_mem_splitAt hpiece
  · simpa using hkept.2

theorem IsPart.exists_cons (h : IsPart part) :
    ∃ c rest, part.toList = c :: rest ∧ c ≠ '/' ∧ (c = '.' → ∃ d more, rest = d :: more ∧ d ≠ '/') := by
  obtain ⟨c, rest, hcons⟩ := List.exists_cons_of_ne_nil (mt String.toList_eq_nil_iff.mp h.ne_empty)
  have hslash := h.no_slash
  rw [hcons, List.mem_cons, not_or] at hslash
  refine ⟨c, rest, hcons, Ne.symm hslash.1, ?_⟩
  rintro rfl
  cases rest with
  | nil => exact absurd (String.toList_inj.mp hcons) h.ne_dot
  | cons d more => exact ⟨d, more, rfl, fun hd => hslash.2 (hd ▸ List.mem_cons_self ..)⟩

theorem Relative.of_append {front back : List String} (h : Relative { parts := front ++ back }) :
    Relative { parts := front } ∧ Relative { parts := back } :=
  ⟨⟨rfl, fun part hpart => h.parts part (List.mem_append_left _ hpart)⟩,
    ⟨rfl, fun part hpart => h.parts part (List.mem_append_right _ hpart)⟩⟩

theorem Relative.join (h : folder.Relative) (h' : below.Relative) :
    (folder.join below) = { parts := folder.parts ++ below.parts } ∧ (folder.join below).Relative := by
  have hjoin : folder.join below = { parts := folder.parts ++ below.parts } := by
    rw [Path.join, if_neg (by simp [isAbsolute, h'.root]), ← h.root]
  refine ⟨hjoin, ?_⟩
  rw [hjoin]
  refine ⟨rfl, fun part hpart => ?_⟩
  exact (List.mem_append.mp hpart).elim (h.parts part) (h'.parts part)

theorem Relative.toString_eq (h : path.Relative) (hne : path.parts ≠ []) :
    path.toString = "/".intercalate path.parts := by
  obtain ⟨first, rest, hparts⟩ := List.exists_cons_of_ne_nil hne
  have hfirst : first ≠ "" := (h.parts first (hparts ▸ List.mem_cons_self ..)).ne_empty
  have htext : "/".intercalate (first :: rest) ≠ "" := by
    cases rest with
    | nil => simpa using hfirst
    | cons next rest => simp [String.intercalate_cons_cons, hfirst]
  rw [toString, h.root, String.empty_append, hparts, if_neg]
  simpa using htext

theorem Relative.toList_toString (h : path.Relative) (hne : path.parts ≠ []) :
    path.toString.toList = ['/'].intercalate (path.parts.map String.toList) := by
  rw [h.toString_eq hne, String.toList_intercalate]
  rfl

theorem toString_ne_empty (path : Path) : path.toString ≠ "" := by
  rw [toString]
  split
  · decide
  · rename_i htext
    simpa using htext

/-- Every character of a path but its slashes is one of a part. -/
theorem Relative.exists_part_of_mem (h : path.Relative) (hne : path.parts ≠ []) {c : Char} (hc : c ≠ '/')
    (hmem : c ∈ path.toString.toList) : ∃ part ∈ path.parts, c ∈ part.toList := by
  have hpieces (pieces : List (List Char)) (hmem : c ∈ ['/'].intercalate pieces) :
      ∃ piece ∈ pieces, c ∈ piece := by
    induction pieces with
    | nil => cases hmem
    | cons piece rest ih =>
      by_cases hrest : rest = []
      · rw [hrest, List.intercalate_singleton] at hmem
        exact ⟨piece, List.mem_cons_self .., hmem⟩
      · rw [List.intercalate_cons_of_ne_nil hrest, List.mem_append, List.mem_append, List.mem_singleton] at hmem
        rcases hmem with (hpiece | hslash) | hlater
        · exact ⟨piece, List.mem_cons_self .., hpiece⟩
        · exact absurd hslash hc
        · obtain ⟨other, hother, hlater⟩ := ih hlater
          exact ⟨other, List.mem_cons_of_mem _ hother, hlater⟩
  rw [h.toList_toString hne] at hmem
  obtain ⟨piece, hpiece, hmem⟩ := hpieces _ hmem
  obtain ⟨part, hpart, rfl⟩ := List.mem_map.mp hpiece
  exact ⟨part, hpart, hmem⟩

/-- The text of a path tells its parts. -/
theorem Relative.splitOn_toString (h : path.Relative) (hne : path.parts ≠ []) :
    path.toString.toList.splitOn '/' = path.parts.map String.toList := by
  rw [h.toList_toString hne]
  refine List.splitOn_intercalate _ ?_ (by simpa using hne)
  intro piece hpiece
  obtain ⟨part, hpart, rfl⟩ := List.mem_map.mp hpiece
  exact (h.parts part hpart).no_slash

theorem Relative.toString_inj (h : path.Relative) (h' : other.Relative) (hne : path.parts ≠ [])
    (hne' : other.parts ≠ []) (heq : path.toString = other.toString) : path = other := by
  have hparts : path.parts.map String.toList = other.parts.map String.toList := by
    rw [← h.splitOn_toString hne, ← h'.splitOn_toString hne', heq]
  have hparts : path.parts = other.parts :=
    List.map_injective_iff.mpr (fun _ _ => String.toList_inj.mp) hparts
  obtain ⟨root, parts⟩ := path
  obtain ⟨root', parts'⟩ := other
  obtain rfl : root = "" := h.root
  obtain rfl : root' = "" := h'.root
  exact congrArg (Path.mk "") hparts

theorem toString_join (h : folder.Relative) (h' : below.Relative) (hfolder : folder.parts ≠ [])
    (hbelow : below.parts ≠ []) :
    (folder.join below).toString = folder.toString ++ "/" ++ below.toString := by
  obtain ⟨hjoin, hrel⟩ := h.join h'
  rw [hjoin] at hrel ⊢
  rw [hrel.toString_eq (by simp [hfolder]), h.toString_eq hfolder, h'.toString_eq hbelow,
    String.intercalate_append_of_ne_nil hfolder hbelow]

end Path

/-- The extension of a file does not depend on what stands in front of a slash or a backslash. -/
theorem extensionOf?_behind {separator : String} (h : separator ∈ ["/", "\\"]) (front name : String) :
    extensionOf? (front ++ separator ++ name) = extensionOf? name := by
  have hpath : (front ++ separator ++ name).toList.map (fun c => if c == '\\' then '/' else c) =
      front.toList.map (fun c => if c == '\\' then '/' else c) ++
        '/' :: name.toList.map (fun c => if c == '\\' then '/' else c) := by
    rcases List.mem_pair.mp h with rfl | rfl <;> simp
  rw [extensionOf?, extensionOf?, hpath, Text.afterLast_append_cons]

/-- The extension of a file does not depend on the folder that it is in. -/
theorem extensionOf?_append (front name : String) :
    extensionOf? (front ++ "/" ++ name) = extensionOf? name :=
  extensionOf?_behind (List.mem_cons_self ..) front name

theorem Path.Relative.extensionOf?_toString {path : Path} (h : path.Relative) (hne : path.parts ≠ []) :
    extensionOf? path.toString = extensionOf? path.name := by
  obtain ⟨front, last, hparts⟩ := (List.eq_nil_or_concat path.parts).resolve_left hne
  rw [List.concat_eq_append] at hparts
  have hname : path.name = last := by simp [Path.name, hparts]
  rw [h.toString_eq hne, hname, hparts]
  by_cases hfront : front = []
  · subst hfront
    simp
  · rw [String.intercalate_append_of_ne_nil hfront (List.cons_ne_nil _ _), String.intercalate_singleton]
    exact extensionOf?_append _ last

section Ending

variable {name extension : String}

def slashed (c : Char) : Char :=
  if c == '\\' then '/' else c

private theorem slashed_eq_dot_iff {c : Char} : slashed c = '.' ↔ c = '.' := by
  rw [slashed]
  split
  · rename_i h
    rw [beq_iff_eq] at h
    subst h
    decide
  · rfl

/-- The extension of a file name begins with its last dot, behind which there is no slash or backslash. -/
theorem of_extensionOf?_eq_some (h : extensionOf? name = some extension) :
    '.' ∈ name.toList ∧ Text.afterLast '.' name.toList ≠ [] ∧
      extension = String.ofList (Text.lower ('.' :: Text.afterLast '.' name.toList)) := by
  have hpath : name.toList.map (fun c => if c == '\\' then '/' else c) = name.toList.map slashed := rfl
  rw [extensionOf?, hpath] at h
  split at h
  · rename_i hdot
    rw [Bool.and_eq_true, List.contains_iff_mem] at hdot
    obtain ⟨hdot, hend⟩ := hdot
    have hsuffix := Text.afterLast_suffix '/' (name.toList.map slashed)
    have hlast := Text.afterLast_of_suffix hsuffix hdot
    have hname : '.' ∈ name.toList := by
      obtain ⟨c, hc, heq⟩ := List.mem_map.mp (hsuffix.subset hdot)
      rwa [← slashed_eq_dot_iff.mp heq]
    have hclear : '/' ∉ Text.afterLast '.' (name.toList.map slashed) := by
      rw [hlast]
      exact fun hmem => Text.not_mem_afterLast '/' _ ((Text.afterLast_suffix '.' _).subset hmem)
    have hsame : Text.afterLast '.' (name.toList.map slashed) = Text.afterLast '.' name.toList := by
      rw [Text.afterLast_map (fun _ => slashed_eq_dot_iff)] at hclear ⊢
      refine (List.map_congr_left fun c hc => ?_).trans (List.map_id _)
      have hne : slashed c ≠ '/' := fun heq => hclear (heq ▸ List.mem_map_of_mem hc)
      rw [slashed] at hne ⊢
      split
      · rename_i hback
        exact absurd (if_pos hback) hne
      · rfl
    rw [← hlast, hsame] at hend h
    exact ⟨hname, by simpa using hend, (Option.some.inj h).symm⟩
  · cases h

theorem suffixOf_eq (hdot : '.' ∈ name.toList) (hend : Text.afterLast '.' name.toList ≠ []) :
    suffixOf name = if '.' ∈ name.toList.tail then '.' :: Text.afterLast '.' name.toList else [] := by
  obtain ⟨front, hfront⟩ := Text.exists_eq_append_afterLast hdot
  have hlength : name.length = front.length + 1 + (Text.afterLast '.' name.toList).length := by
    rw [← String.length_toList, congrArg List.length hfront]
    simp only [List.length_append, List.length_cons]
    omega
  have htail : '.' ∈ name.toList.tail ↔ front ≠ [] := by
    rw [hfront]
    cases front with
    | nil => simp [Text.not_mem_afterLast]
    | cons c rest => simp
  have hshort : name.length ≤ (Text.afterLast '.' name.toList).length + 1 ↔ front = [] := by
    rw [hlength, ← List.length_eq_zero_iff]
    omega
  change (if (Text.afterLast '.' name.toList).isEmpty ||
      decide (name.length ≤ (Text.afterLast '.' name.toList).length + 1) then []
    else '.' :: Text.afterLast '.' name.toList) = _
  by_cases hfirst : front = []
  · rw [if_pos (by simp [hshort.mpr hfirst]), if_neg (by simp [htail, hfirst])]
  · rw [if_neg (by simp [hend, hshort, hfirst]), if_pos (htail.mpr hfirst)]

end Ending

end LineCensus
