import LineCensus.Ignore.Rule
import LineCensus.Text.Newline
import LineCensus.Text.Utf8
import LineCensus.Tree.Basic

/-! Which paths of a tree are ignored: the last rule that decides on a path counts. -/
namespace LineCensus.Ignore

structure Spec where
  rules : List Rule

def defaultLines : List String :=
  ["# Default ignore patterns", ".git/", "node_modules/", "venv/", ".venv/", "__pycache__/", "dist/",
    "build/", "target/", ".vscode/", ".idea/", ".pytest_cache/", ".DS_Store", "*.min.js"]

def Spec.ofLines (lines : List (List Char)) : Except RuleError Spec := do
  let rules ← lines.mapM Rule.ofLine?
  return ⟨rules.filterMap id⟩

def fileName : String := ".gitignore"

def ownLines (tree : Node) : Except Text.Utf8.DecodeError (List (List Char)) :=
  match tree.entry? fileName with
  | some (.file content) => (Text.Utf8.decode content.toList).map Text.lines
  | _ => .ok []

structure Loaded where
  spec : Except RuleError Spec
  warnings : List String

/-- The rules of a tree at `root`: the default lines, those of its ignore file, and extra ones. An
ignore file that cannot be read counts as empty. -/
def load (root : Path) (tree : Node) (extra : List String) : Loaded :=
  let (own, warnings) := match ownLines tree with
    | .ok lines => (lines, [])
    | .error e =>
      let file := root.join { parts := [fileName] }
      ([], ["Could not read " ++ file.toString ++ ": " ++ e.message])
  ⟨Spec.ofLines (defaultLines.map String.toList ++ own ++ extra.map String.toList), warnings⟩

/-- Whether the last rule that decides on a path leaves it out; without one it stays in. -/
def leavesOut (rules : List Rule) (path : List Char) : Bool :=
  match rules.reverse.find? (·.target.accepts path) with
  | none => false
  | some rule => !rule.negated

/-- A path as the rules see it: with a slash at the end for a folder, and without one at the start. -/
def subject (path : Path) (isFolder : Bool) : List Char :=
  let text := path.toString.toList ++ (if isFolder then ['/'] else [])
  match text with
  | '/' :: rest => rest
  | '.' :: '/' :: rest => rest
  | _ => text

def Spec.ignores (spec : Spec) (path : Path) (isFolder : Bool) : Bool :=
  leavesOut spec.rules (subject path isFolder)

end LineCensus.Ignore
