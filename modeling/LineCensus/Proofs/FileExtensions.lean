import LineCensus.Language.Registry
import LineCensus.Proofs.LetterCase
import LineCensus.Proofs.PathText

/-! The extension of a file name and its language: neither depends on what stands in front of the last separator nor on
the case of ASCII letters, and an extension is its own extension. -/
namespace LineCensus

open Text (SameLetters afterLast lower)

def baseName (filename : String) : List Char :=
  afterLast '/' (filename.toList.map slashed)

def endingOf? (base : List Char) : Option String :=
  if '.' ∈ base ∧ afterLast '.' base ≠ [] then some (String.ofList (lower ('.' :: afterLast '.' base))) else none

variable {filename other extension : String} {base text ending : List Char}

private theorem extensionOf?_eq (filename : String) : extensionOf? filename = endingOf? (baseName filename) := by
  have hpath : filename.toList.map (fun c => if c == '\\' then '/' else c) = filename.toList.map slashed := rfl
  rw [extensionOf?, hpath, endingOf?, ← baseName]
  simp only [Bool.and_eq_true, List.contains_iff_mem, Bool.not_eq_true', List.isEmpty_eq_false_iff]

private theorem not_mem_baseName (filename : String) : '/' ∉ baseName filename ∧ '\\' ∉ baseName filename := by
  refine ⟨Text.not_mem_afterLast '/' _, fun hmem => ?_⟩
  obtain ⟨c, -, hc⟩ := List.mem_map.mp ((Text.afterLast_suffix '/' _).subset hmem)
  rw [slashed] at hc
  split at hc
  · exact absurd hc (by decide)
  · rename_i hne
    exact hne (by rw [hc]; rfl)

private theorem baseName_of_clear (hslash : '/' ∉ text) (hbackslash : '\\' ∉ text) :
    baseName (String.ofList text) = text := by
  have hsame : text.map slashed = text := by
    refine (List.map_congr_left fun c hc => ?_).trans (List.map_id _)
    have hne : c ≠ '\\' := ne_of_mem_of_not_mem hc hbackslash
    rw [slashed, if_neg (by simpa using hne), id]
  rw [baseName, String.toList_ofList, hsame, Text.afterLast_of_not_mem hslash]

private theorem toLower_slashed (c : Char) : (slashed c).toLower = slashed c.toLower := by
  have hback : c.toLower = '\\' ↔ c = '\\' := Text.toLower_eq_iff (by decide) (by decide)
  simp only [slashed, beq_iff_eq, hback]
  split <;> rfl

private theorem sameLetters_baseName (h : SameLetters filename.toList other.toList) :
    SameLetters (baseName filename) (baseName other) := by
  have hswap : Char.toLower ∘ slashed = slashed ∘ Char.toLower := funext toLower_slashed
  have hbase (name : String) :
      (baseName name).map Char.toLower = afterLast '/' ((name.toList.map Char.toLower).map slashed) := by
    rw [baseName, ← Text.afterLast_map fun _ => Text.toLower_eq_iff (by decide) (by decide), List.map_map, hswap,
      List.map_map]
  rw [SameLetters, hbase, hbase, h]

private theorem endingOf?_of_sameLetters {base other : List Char} (h : SameLetters base other) :
    endingOf? base = endingOf? other := by
  have hdot (c : Char) : c.toLower = '.' ↔ c = '.' := Text.toLower_eq_iff (by decide) (by decide)
  have hmap (base : List Char) : '.' ∈ base ↔ '.' ∈ base.map Char.toLower := by simp [hdot]
  have hmem : '.' ∈ base ↔ '.' ∈ other := by rw [hmap base, hmap other, h]
  have hending : SameLetters (afterLast '.' base) (afterLast '.' other) := by
    rw [SameLetters, ← Text.afterLast_map hdot, ← Text.afterLast_map hdot, h]
  have hempty : afterLast '.' base = [] ↔ afterLast '.' other = [] := by
    rw [← List.map_eq_nil_iff, hending, List.map_eq_nil_iff]
  have hlower : lower ('.' :: afterLast '.' base) = lower ('.' :: afterLast '.' other) :=
    SameLetters.lower_eq (congrArg ('.' :: ·) hending)
  simp only [endingOf?, hmem, ne_eq, hempty, hlower]

/-- A name of a dot and an ending is its own base name. -/
theorem extensionOf?_dot_append (hne : ending ≠ []) (hslash : '/' ∉ ending) (hbackslash : '\\' ∉ ending)
    (hdot : '.' ∉ ending) :
    extensionOf? (String.ofList ('.' :: ending)) = some (String.ofList (lower ('.' :: ending))) := by
  have hending : afterLast '.' ('.' :: ending) = ending := by
    rw [← List.nil_append ('.' :: ending), Text.afterLast_append_cons, Text.afterLast_of_not_mem hdot]
  rw [extensionOf?_eq, baseName_of_clear (by simpa using hslash) (by simpa using hbackslash), endingOf?, hending,
    if_pos ⟨List.mem_cons_self .., hne⟩]

private theorem exists_ending (h : extensionOf? filename = some extension) :
    ∃ ending, ending ≠ [] ∧ '/' ∉ ending ∧ '\\' ∉ ending ∧ '.' ∉ ending ∧
      extension = String.ofList (lower ('.' :: ending)) := by
  rw [extensionOf?_eq, endingOf?] at h
  split at h
  · rename_i hdot
    obtain ⟨hslash, hbackslash⟩ := not_mem_baseName filename
    have hpart := (Text.afterLast_suffix '.' (baseName filename)).subset
    exact ⟨_, hdot.2, fun hmem => hslash (hpart hmem), fun hmem => hbackslash (hpart hmem),
      Text.not_mem_afterLast '.' _, (Option.some.inj h).symm⟩
  · cases h

/-- Lower case keeps an ending an ending, since it brings in no mark, and changes it only once. -/
theorem extensionOf?_extension (h : extensionOf? filename = some extension) :
    extensionOf? extension = some extension := by
  obtain ⟨ending, hne, hslash, hbackslash, hdot, rfl⟩ := exists_ending h
  have hlower : lower ('.' :: ending) = '.' :: Text.lowerFrom ['.'] ending := rfl
  have hclear {mark : Char} (hmark : mark.toNat ≤ 96) (hnot : mark ∉ ending) :
      mark ∉ Text.lowerFrom ['.'] ending := fun hmem => hnot (Text.mem_of_mem_lowerFrom hmark hmem)
  have htwice := Text.lower_lower ('.' :: ending)
  rw [hlower] at htwice ⊢
  rw [extensionOf?_dot_append (Text.lowerFrom_ne_nil _ hne) (hclear (by decide) hslash)
    (hclear (by decide) hbackslash) (hclear (by decide) hdot), htwice]

namespace Registry

private theorem resolve?_congr (registry : Registry) (h : extensionOf? filename = extensionOf? other) :
    registry.resolve? filename = registry.resolve? other := by
  rw [resolve?, resolve?, h]

/-- The language of a file hangs on the extension of its base name alone, in any case of its ASCII letters: anything
in front of a slash or a backslash may be added, and letters may be exchanged for their capitals and back. An extension,
taken as a file name, has itself as extension. -/
theorem resolve?_of_base_name (registry : Registry) (filename : String) :
    (∀ folder, ∀ separator ∈ ["/", "\\"],
      registry.resolve? (folder ++ separator ++ filename) = registry.resolve? filename) ∧
    (∀ other, SameLetters filename.toList other.toList →
      extensionOf? other = extensionOf? filename ∧ registry.resolve? other = registry.resolve? filename) ∧
    ∀ extension, extensionOf? filename = some extension → extensionOf? extension = some extension := by
  refine ⟨fun folder separator hseparator => ?_, fun other hletters => ?_, fun extension => extensionOf?_extension⟩
  · exact registry.resolve?_congr (extensionOf?_behind hseparator folder filename)
  · have hextension : extensionOf? other = extensionOf? filename := by
      rw [extensionOf?_eq, extensionOf?_eq, endingOf?_of_sameLetters (sameLetters_baseName hletters)]
    exact ⟨hextension, registry.resolve?_congr hextension⟩

/-- A name with a capital sigma at its end, in a folder and in capitals, and a Python file in capitals. -/
theorem resolve?_of_base_name_in_capitals :
    SameLetters "src.d/x.aΣ".toList "SRC.D/X.AΣ".toList ∧
      extensionOf? "SRC.D/X.AΣ" = extensionOf? "src.d/x.aΣ" ∧ extensionOf? "src.d/x.aΣ" = some ".aς" ∧
      extensionOf? ".aς" = some ".aς" ∧
      SameLetters "run.py".toList "Run.PY".toList ∧
      Registry.builtin.resolve? "Run.PY" = Registry.builtin.resolve? "run.py" ∧
      Registry.builtin.resolve? ("tools.c" ++ "\\" ++ "run.py") = Registry.builtin.resolve? "run.py" ∧
      (Registry.builtin.resolve? "run.py").map (·.name) = some "Python" := by
  have hsigma : SameLetters "src.d/x.aΣ".toList "SRC.D/X.AΣ".toList := by decide
  have hrun : SameLetters "run.py".toList "Run.PY".toList := by decide
  have hextension : extensionOf? "src.d/x.aΣ" = some ".aς" := by decide +kernel
  obtain ⟨-, hletters, hown⟩ := resolve?_of_base_name .builtin "src.d/x.aΣ"
  obtain ⟨hbehind, hcapitals, -⟩ := resolve?_of_base_name .builtin "run.py"
  exact ⟨hsigma, (hletters _ hsigma).1, hextension, hown _ hextension, hrun, (hcapitals _ hrun).2,
    hbehind "tools.c" "\\" (by decide), by decide⟩

end Registry

end LineCensus
