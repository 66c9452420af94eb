import LineCensus.Language.Basic

/-! The registry: the languages in the order in which they claim extensions. -/
namespace LineCensus

def sortedDistinct (texts : List String) : List String :=
  (texts.mergeSort fun a b => decide (a ≤ b)).eraseReps

structure Registry where
  languages : List Language

namespace Registry

def empty : Registry := ⟨[]⟩

def builtin : Registry := ⟨Language.builtin⟩

/-- Adds a language behind the others; it gets the extensions that no earlier one has. -/
def register (registry : Registry) (language : Language) : Registry :=
  ⟨registry.languages ++ [language]⟩

def resolve? (registry : Registry) (filename : String) : Option Language := do
  let extension ← extensionOf? filename
  registry.languages.find? fun language => language.extensions.contains extension

def isSupported (registry : Registry) (filename : String) : Bool :=
  (registry.resolve? filename).isSome

def extensions (registry : Registry) : List String :=
  sortedDistinct (registry.languages.flatMap (·.extensions))

def names (registry : Registry) : List String :=
  registry.languages.map (·.name)

end Registry

end LineCensus
