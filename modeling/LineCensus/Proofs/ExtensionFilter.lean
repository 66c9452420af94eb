import LineCensus.Proofs.LowerCase
import LineCensus.Proofs.Padding
import LineCensus.Proofs.PathText
import LineCensus.Scan

/-! The choice of files by a comma list of extensions: what a scan finds with the list, out of what it finds
without one. -/
namespace LineCensus

open Text (lower splitAt trim)

/-- An extension that a comma list names: an item of the list that is not blank, in lower case and with one
dot in front. -/
def Listed (text : List Char) (extension : String) : Prop :=
  ∃ item ∈ splitAt ',' text, trim item ≠ [] ∧
    extension = String.ofList ('.' :: lower ((trim item).dropWhile (· == '.')))

instance (text : List Char) (extension : String) : Decidable (Listed text extension) :=
  inferInstanceAs (Decidable (∃ item ∈ splitAt ',' text, _))

def Fits (text : List Char) (name : String) : Prop :=
  ∃ extension ∈ extensionOf? name, Listed text extension

instance (text : List Char) (name : String) : Decidable (Fits text name) :=
  inferInstanceAs (Decidable (∃ extension ∈ extensionOf? name, _))

private theorem lower_of_listed {text : List Char} {extension : String} (h : Listed text extension) :
    lower extension.toList = extension.toList ∧ extension.toList ≠ [] := by
  obtain ⟨item, -, -, rfl⟩ := h
  rw [String.toList_ofList]
  refine ⟨Text.lowerFrom_of_lowered [] ?_, List.cons_ne_nil _ _⟩
  refine List.forall_mem_cons.mpr ⟨Text.lowered_of_ascii (by decide) (by decide), ?_⟩
  exact fun _ h => Text.lowered_of_mem_lowerFrom h

section Parsing

variable {text : List Char} {extensions : List String}

private theorem mem_of_parseExtensions (h : parseExtensions text = some extensions) (extension : String) :
    extension ∈ extensions ↔ Listed text extension := by
  have hitems : (splitAt ',' text).map trim = (splitAt ',' (trim text)).map trim :=
    Text.map_trim_splitAt (by decide) (Text.padded_trim text)
  simp only [parseExtensions] at h
  split at h
  · cases h
  · rw [Option.some_inj, ← hitems] at h
    rw [← h]
    simp only [List.mem_map, List.mem_filter, Listed]
    constructor
    · rintro ⟨_, ⟨⟨item, hitem, rfl⟩, hne⟩, rfl⟩
      exact ⟨item, hitem, by simpa using hne, rfl⟩
    · rintro ⟨item, hitem, hne, rfl⟩
      exact ⟨trim item, ⟨⟨item, hitem, rfl⟩, by simpa using hne⟩, rfl⟩

private theorem eq_nil_of_parseExtensions (h : parseExtensions text = some extensions) :
    extensions = [] ↔ ∀ item ∈ splitAt ',' text, trim item = [] := by
  have hmem := mem_of_parseExtensions h
  rw [List.eq_nil_iff_forall_not_mem]
  constructor
  · intro hnone item hitem
    by_contra hne
    exact hnone _ ((hmem _).mpr ⟨item, hitem, hne, rfl⟩)
  · intro hblank extension hextension
    obtain ⟨item, hitem, hne, -⟩ := (hmem extension).mp hextension
    exact hne (hblank item hitem)

private theorem exists_parseExtensions (hne : trim text ≠ []) (hstar : trim text ≠ ['*']) :
    ∃ extensions, parseExtensions text = some extensions := by
  simp only [parseExtensions]
  rw [if_neg (by simp [hne, hstar])]
  exact ⟨_, rfl⟩

end Parsing

namespace Scanner

variable {s : Scanner} {name : String} {text : List Char} {extensions : List String}

/-- The extensions asked for, as the end of the name shows them: not for a name that begins with its only
dot. -/
theorem any_lower_suffixOf {extension : String} (hname : extensionOf? name = some extension)
    (hlisted : ∀ other, other ∈ extensions ↔ Listed text other) :
    (extensions.any fun other => lower other.toList == lower (suffixOf name)) = true ↔
      Fits text name ∧ '.' ∈ name.toList.tail := by
  obtain ⟨hdot, hend, hextension⟩ := of_extensionOf?_eq_some hname
  have hfits : Fits text name ↔ Listed text extension := by simp [Fits, hname]
  rw [hfits, List.any_eq_true, suffixOf_eq hdot hend]
  constructor
  · rintro ⟨other, hother, heq⟩
    obtain ⟨hlower, hne⟩ := lower_of_listed ((hlisted other).mp hother)
    rw [beq_iff_eq, hlower] at heq
    split at heq
    · rename_i htail
      have hsame : other = extension := String.toList_inj.mp (by rw [heq, hextension, String.toList_ofList])
      exact ⟨hsame ▸ (hlisted other).mp hother, htail⟩
    · exact absurd heq hne
  · rintro ⟨hlist, htail⟩
    refine ⟨extension, (hlisted extension).mpr hlist, ?_⟩
    rw [if_pos htail, beq_iff_eq, (lower_of_listed hlist).1, hextension, String.toList_ofList]

/-- A list that names no extension is no restriction. -/
theorem wants_of_extensions (h : parseExtensions text = some extensions) :
    ({ s with extensions := some extensions } : Scanner).wants name =
      (({ s with extensions := none } : Scanner).wants name &&
        decide ((∀ item ∈ splitAt ',' text, trim item = []) ∨ Fits text name ∧ '.' ∈ name.toList.tail)) := by
  by_cases hsupported : s.registry.isSupported name = true
  · obtain ⟨language, hlanguage⟩ := Option.isSome_iff_exists.mp hsupported
    obtain ⟨extension, hname, -⟩ := Option.bind_eq_some_iff.mp hlanguage
    rw [wants, wants, hsupported, Bool.true_and, Bool.true_and, Bool.true_and, Bool.eq_iff_iff,
      Bool.or_eq_true, List.isEmpty_iff, decide_eq_true_eq, eq_nil_of_parseExtensions h,
      any_lower_suffixOf hname (mem_of_parseExtensions h)]
  · simp only [wants, hsupported, Bool.false_and]

/-- With a comma list of extensions a scan finds the sources with one of these extensions among those that it
finds without the list, in the same order, and only such whose name has a dot behind its first character. A
list of nothing but blank items leaves out nothing. -/
theorem sources_of_listed_extensions (s : Scanner) (disk : Node) (root : Path) (text : List Char)
    (hne : trim text ≠ []) (hstar : trim text ≠ ['*']) :
    ({ s with extensions := parseExtensions text } : Scanner).sources disk root =
      (({ s with extensions := none } : Scanner).sources disk root).filter fun source =>
        (∀ item ∈ splitAt ',' text, trim item = []) ∨
          Fits text source.name ∧ '.' ∈ source.name.toList.tail := by
  obtain ⟨extensions, hextensions⟩ := exists_parseExtensions hne hstar
  rw [hextensions, sources, sources]
  cases hfind : disk.find? root.parts with
  | none => rfl
  | some tree =>
    dsimp only
    have hkeeps : ({ s with extensions := some extensions } : Scanner).files tree =
        (({ s with extensions := none } : Scanner).files tree).filter fun found =>
          let name := found.path.getLast?.getD ""
          (∀ item ∈ splitAt ',' text, trim item = []) ∨ Fits text name ∧ '.' ∈ name.toList.tail := by
      rw [files, files, List.filter_filter]
      refine List.filter_congr fun found _ => ?_
      simp only [keeps, wants_of_extensions hextensions]
      ac_rfl
    rw [List.filter_map, hkeeps]
    rfl

/-- A list with an item in capitals, a blank item and one without a dot, over files in nested folders. -/
theorem sources_of_three_listed_extensions :
    let s : Scanner := { spec := ⟨[]⟩ }
    let file : Node := .file (.zeros 0)
    let disk : Node := .folder [("a.py", file),
      ("sub", .folder [("b.Js", file), ("sub", .folder [("c.ts", file), ("sub", .folder [(".py", file)])])])]
    let text := " .PY, ,js ".toList
    let listed : Scanner := { s with extensions := parseExtensions text }
    trim text ≠ [] ∧ trim text ≠ ['*'] ∧
      listed.sources disk .top = (s.sources disk .top).filter (fun source =>
        (∀ item ∈ splitAt ',' text, trim item = []) ∨
          Fits text source.name ∧ '.' ∈ source.name.toList.tail) ∧
      (listed.sources disk .top).map (·.name) = ["a.py", "b.Js"] := by
  intro s file disk text listed
  have hne : trim text ≠ [] := by decide
  have hstar : trim text ≠ ['*'] := by decide
  exact ⟨hne, hstar, sources_of_listed_extensions s disk .top text hne hstar, by decide +kernel⟩

/-- A file whose name is an extension only is left out though its extension is listed, and a list of one comma
leaves in a file whose extension is not. -/
theorem sources_of_dot_file :
    let s : Scanner := { spec := ⟨[]⟩ }
    let disk : Node := .folder [(".py", .file (.zeros 0))]
    let found (text : List Char) :=
      ({ s with extensions := parseExtensions text } : Scanner).sources disk .top
    let claimed (text : List Char) := (s.sources disk .top).filter fun source => Fits text source.name
    (found ['p', 'y']).map (·.name) = [] ∧ (claimed ['p', 'y']).map (·.name) = [".py"] ∧
      (found [',']).map (·.name) = [".py"] ∧ (claimed [',']).map (·.name) = [] := by
  decide +kernel

end Scanner

end LineCensus
