import LineCensus.Tree.Basic

/-! The files of a tree in a fixed order, whatever the order in which folders list their names. -/
namespace LineCensus

structure Found where
  path : List String
  node : Node

def sortByName {α : Type} (entries : List (String × α)) : List (String × α) :=
  entries.mergeSort fun a b => decide (a.1 ≤ b.1)

namespace Node

mutual

/-- The files below a folder with the given path: first its own in order of their names, then those
of its folders in order of their names. Folders that `prune` holds of are not entered. -/
def walk (prune : List String → Bool) (path : List String) : Node → List Found
  | .folder entries =>
    let (files, folders) := walkEntries prune path entries
    (sortByName files).map (·.2) ++ (sortByName folders).flatMap (·.2)
  | _ => []

def walkEntries (prune : List String → Bool) (path : List String) :
    List (String × Node) → List (String × Found) × List (String × List Found)
  | [] => ([], [])
  | (name, node) :: rest =>
    let (files, folders) := walkEntries prune path rest
    let here := path ++ [name]
    match node with
    | .folder entries =>
      (files, (name, if prune here then [] else walk prune here (.folder entries)) :: folders)
    | node => ((name, ⟨here, node⟩) :: files, folders)

end

end Node

end LineCensus
