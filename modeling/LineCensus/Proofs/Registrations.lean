import LineCensus.Language.Registry
import Mathlib.Data.List.Basic

/-! Languages registered one after another: the first one with the extension of a file has it for good, and the
extensions of all of them tell which files have a language. -/
namespace LineCensus

section Distinct

variable {α : Type} [BEq α] [LawfulBEq α] {item : α}

private theorem mem_eraseRepsBy_loop (last : α) (items kept : List α) :
    item ∈ List.eraseRepsBy.loop (· == ·) last items kept ↔ item ∈ kept ∨ item = last ∨ item ∈ items := by
  induction items generalizing last kept with
  | nil => simp [List.eraseRepsBy.loop, or_comm]
  | cons next rest ih =>
    rw [List.eraseRepsBy.loop]
    split
    · rename_i hsame
      rw [ih, List.mem_cons, ← eq_of_beq hsame, ← or_assoc (a := item = last), or_self]
    · rw [ih, List.mem_cons, List.mem_cons, or_comm (a := item = last), or_assoc]

private theorem mem_eraseReps (items : List α) : item ∈ items.eraseReps ↔ item ∈ items := by
  cases items with
  | nil => exact Iff.rfl
  | cons first rest =>
    refine (mem_eraseRepsBy_loop first rest []).trans ?_
    simp

end Distinct

private theorem mem_sortedDistinct {text : String} (texts : List String) :
    text ∈ sortedDistinct texts ↔ text ∈ texts := by
  rw [sortedDistinct, mem_eraseReps, List.mem_mergeSort]

def Language.Claims (language : Language) (filename : String) : Prop :=
  ∃ extension ∈ language.extensions, extensionOf? filename = some extension

/-- A language given with extensions in any case has them in lower case. -/
theorem Language.claims_ofExtensions_iff {name filename : String} {extensions : List String}
    {delimiters : Delimiters} {heuristic : Declaration.Heuristic} :
    (ofExtensions name extensions delimiters heuristic).Claims filename ↔
      ∃ extension ∈ extensions, extensionOf? filename = some (String.ofList (Text.lower extension.toList)) := by
  simp [Claims, ofExtensions]

namespace Registry

def registerAll (registry : Registry) (languages : List Language) : Registry :=
  languages.foldl register registry

variable {registry : Registry} {language next : Language} {filename : String}

private theorem languages_registerAll (registry : Registry) (languages : List Language) :
    (registry.registerAll languages).languages = registry.languages ++ languages := by
  induction languages generalizing registry with
  | nil => exact (List.append_nil _).symm
  | cons first rest ih =>
    rw [registerAll, List.foldl_cons, ← registerAll, ih, register, List.append_assoc, List.singleton_append]

/-- Every registry comes from the empty one, language by language. -/
theorem registerAll_empty (languages : List Language) : empty.registerAll languages = ⟨languages⟩ :=
  congrArg mk (languages_registerAll empty languages)

private theorem resolve?_eq_find? {extension : String} (h : extensionOf? filename = some extension) :
    registry.resolve? filename = registry.languages.find? (·.extensions.contains extension) := by
  rw [resolve?, h]
  rfl

private theorem resolve?_of_no_extension (h : extensionOf? filename = none) : registry.resolve? filename = none := by
  rw [resolve?, h]
  rfl

private theorem claims_iff {extension : String} (h : extensionOf? filename = some extension) :
    language.Claims filename ↔ language.extensions.contains extension = true := by
  simp [Language.Claims, h]

private theorem not_claims_of_no_extension (h : extensionOf? filename = none) : ¬language.Claims filename := by
  rintro ⟨extension, -, hextension⟩
  rw [h] at hextension
  cases hextension

/-- A file has the first language with its extension. -/
theorem resolve?_eq_some_iff :
    registry.resolve? filename = some language ↔ ∃ before after,
      registry.languages = before ++ language :: after ∧ language.Claims filename ∧
        ∀ earlier ∈ before, ¬earlier.Claims filename := by
  cases hname : extensionOf? filename with
  | none => simp [resolve?_of_no_extension hname, not_claims_of_no_extension hname]
  | some extension =>
    simp only [resolve?_eq_find? hname, claims_iff hname, List.find?_eq_some_iff_append]
    constructor
    · rintro ⟨hclaims, before, after, hlanguages, hbefore⟩
      exact ⟨before, after, hlanguages, hclaims, by simpa using hbefore⟩
    · rintro ⟨before, after, hlanguages, hclaims, hbefore⟩
      exact ⟨hclaims, before, after, hlanguages, by simpa using hbefore⟩

private theorem resolve?_eq_none_iff :
    registry.resolve? filename = none ↔ ∀ language ∈ registry.languages, ¬language.Claims filename := by
  cases hname : extensionOf? filename with
  | none => simp [resolve?_of_no_extension hname, not_claims_of_no_extension hname]
  | some extension => simp [resolve?_eq_find? hname, claims_iff hname]

private theorem isSupported_iff :
    registry.isSupported filename = true ↔ ∃ language ∈ registry.languages, language.Claims filename := by
  rw [isSupported, Option.isSome_iff_ne_none, ne_eq, resolve?_eq_none_iff]
  push Not
  rfl

private theorem isSupported_iff_mem_extensions :
    registry.isSupported filename = true ↔
      ∃ extension ∈ registry.extensions, extensionOf? filename = some extension := by
  rw [isSupported_iff]
  simp only [extensions, mem_sortedDistinct, List.mem_flatMap, Language.Claims]
  constructor
  · rintro ⟨language, hmem, extension, hextension, hname⟩
    exact ⟨extension, ⟨language, hmem, hextension⟩, hname⟩
  · rintro ⟨extension, ⟨language, hmem, hextension⟩, hname⟩
    exact ⟨language, hmem, extension, hextension, hname⟩

/-- A further language takes no file away from those that have it already. -/
theorem resolve?_register (h : registry.isSupported filename = true) :
    (registry.register next).resolve? filename = registry.resolve? filename := by
  obtain ⟨language, hlanguage⟩ := Option.isSome_iff_exists.mp h
  obtain ⟨before, after, hlanguages, hfirst⟩ := resolve?_eq_some_iff.mp hlanguage
  rw [hlanguage, resolve?_eq_some_iff]
  refine ⟨before, after ++ [next], ?_, hfirst⟩
  rw [register, hlanguages, List.append_assoc, List.cons_append]

private theorem isSupported_register :
    (registry.register next).isSupported filename = true ↔
      registry.isSupported filename = true ∨ next.Claims filename := by
  simp only [isSupported_iff, register, List.mem_append, List.mem_singleton, or_and_right, exists_or,
    exists_eq_left]

/-- After any languages registered behind any others, a file has the earliest of all of them that has its extension,
and none if it has no extension or none of them has it. One more language changes nothing for a file that has one,
and gets exactly those of the others whose extension it is given, in any case. The files with a language are those
whose extension is among the extensions of the registry. -/
theorem resolve?_after_registrations (base registered : List Language) (filename : String) :
    let registry := (Registry.mk base).registerAll registered
    (∀ language, registry.resolve? filename = some language ↔ ∃ before after,
      base ++ registered = before ++ language :: after ∧ language.Claims filename ∧
        ∀ earlier ∈ before, ¬earlier.Claims filename) ∧
    (registry.resolve? filename = none ↔
      extensionOf? filename = none ∨ ∀ language ∈ base ++ registered, ¬language.Claims filename) ∧
    (∀ next, registry.isSupported filename = true →
      (registry.register next).resolve? filename = registry.resolve? filename) ∧
    (∀ next, registry.isSupported filename = false →
      ((registry.register next).isSupported filename = true ↔ next.Claims filename)) ∧
    (∀ name extensions delimiters heuristic,
      (Language.ofExtensions name extensions delimiters heuristic).Claims filename ↔
        ∃ extension ∈ extensions, extensionOf? filename = some (String.ofList (Text.lower extension.toList))) ∧
    (registry.isSupported filename = true ↔
      ∃ extension ∈ registry.extensions, extensionOf? filename = some extension) := by
  intro registry
  have hlanguages : registry.languages = base ++ registered := languages_registerAll ⟨base⟩ registered
  refine ⟨fun language => ?_, ?_, fun next hname => resolve?_register hname, fun next hname => ?_,
    fun _ _ _ _ => Language.claims_ofExtensions_iff, isSupported_iff_mem_extensions⟩
  · rw [resolve?_eq_some_iff, hlanguages]
  · rw [resolve?_eq_none_iff, hlanguages]
    constructor
    · exact .inr
    · rintro (hname | hnone)
      · exact fun language _ => not_claims_of_no_extension hname
      · exact hnone
  · rw [isSupported_register, hname]
    exact or_iff_right Bool.false_ne_true

/-- A language given with one extension that is taken and one that is new, in capitals. -/
theorem resolve?_after_two_registrations :
    let ruby := Language.ofExtensions "Ruby" [".PY", ".RB"] Language.hashes Declaration.script
    let registry := (Registry.mk Language.builtin).registerAll [ruby]
    let perl := Language.ofExtensions "Perl" [".rb", ".Pl"] Language.hashes Declaration.script
    registry.isSupported "a.Rb" = true ∧
      (registry.register perl).resolve? "a.Rb" = registry.resolve? "a.Rb" ∧
      (registry.resolve? "a.Rb").map (·.name) = some "Ruby" ∧
      registry.isSupported "b.PL" = false ∧ (registry.register perl).isSupported "b.PL" = true := by
  intro ruby registry perl
  have hruby : registry.isSupported "a.Rb" = true := by decide
  have hperl : registry.isSupported "b.PL" = false := by decide
  obtain ⟨-, -, hkeeps, -⟩ := resolve?_after_registrations Language.builtin [ruby] "a.Rb"
  obtain ⟨-, -, -, hgets, hclaims, -⟩ := resolve?_after_registrations Language.builtin [ruby] "b.PL"
  refine ⟨hruby, hkeeps perl hruby, by decide, hperl, (hgets perl hperl).mpr ?_⟩
  exact (hclaims _ _ _ _).mpr ⟨".Pl", by decide, by decide⟩

end Registry
end LineCensus
