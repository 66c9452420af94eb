import LineCensus.Tree.Path
import LineCensus.Value

/-! File trees: files, folders, and what the file system says of a path. -/
namespace LineCensus

inductive Content where
  | bytes (data : ByteArray)
  | zeros (size : Nat)

namespace Content

def size : Content → Nat
  | .bytes data => data.size
  | .zeros size => size

def toList : Content → List UInt8
  | .bytes data => data.data.toList
  | .zeros size => List.replicate size 0

def take (n : Nat) : Content → List UInt8
  | .bytes data => (data.extract 0 n).data.toList
  | .zeros size => List.replicate (min n size) 0

end Content

/-- A file, a file that is listed but cannot be opened, or a folder with the names in it. -/
inductive Node where
  | file (content : Content)
  | ghost
  | folder (entries : List (String × Node))

inductive FileFault where
  | notFound
  | notFolder
  | isFolder
  | nameTooLong
deriving DecidableEq, Repr

def FileFault.number : FileFault → Nat
  | .notFound => 2
  | .notFolder => 20
  | .isFolder => 21
  | .nameTooLong => 36

def FileFault.name : FileFault → String
  | .notFound => "No such file or directory"
  | .notFolder => "Not a directory"
  | .isFolder => "Is a directory"
  | .nameTooLong => "File name too long"

def FileFault.message (fault : FileFault) (path : String) : String :=
  "[Errno " ++ toString fault.number ++ "] " ++ fault.name ++ ": " ++ Value.quote path

def maxPathBytes : Nat := 4095

def Path.checkLength (path : Path) : Except FileFault Unit :=
  if maxPathBytes < path.toString.utf8ByteSize then .error .nameTooLong else .ok ()

namespace Node

def isFolder : Node → Bool
  | .folder _ => true
  | _ => false

def entry? (node : Node) (name : String) : Option Node :=
  match node with
  | .folder entries => entries.lookup name
  | _ => none

def find? (node : Node) : List String → Option Node
  | [] => some node
  | name :: rest => (node.entry? name).bind (find? · rest)

def maxNameBytes : Nat := 255

/-- Puts a node at the end of a list of names, making the folders on the way. What stands there gives
way to it. -/
def graft (disk : Node) (parts : List String) (node : Node) : Node :=
  match parts with
  | [] => node
  | name :: rest =>
    let entries := match disk with
      | .folder entries => entries
      | _ => []
    let child := graft ((entries.lookup name).getD (.folder [])) rest node
    if (entries.lookup name).isSome then
      .folder (entries.map fun (other, old) => (other, if other == name then child else old))
    else .folder (entries ++ [(name, child)])

/-- Where one step leads from a place of a disk. Two dots lead back, and nowhere from the top. -/
def step (disk : Node) (place : List String) (part : String) : Except FileFault (List String) :=
  match disk.find? place with
  | some (.folder entries) =>
    if part == ".." then .ok place.dropLast
    else if maxNameBytes < part.utf8ByteSize then .error .nameTooLong
    else if (entries.lookup part).isSome then .ok (place ++ [part])
    else .error .notFound
  | some (.file _) => .error .notFolder
  | _ => .error .notFound

def follow (disk : Node) (parts : List String) : Except FileFault (List String) :=
  parts.foldlM disk.step []

/-- Where a path leads on a disk, seen from a folder. The length of the path is judged first, as it is
written. -/
def locate (disk : Node) (folder path : Path) : Except FileFault (List String) := do
  path.checkLength
  disk.follow (folder.join path).parts

def read (disk : Node) (path : Path) : Except FileFault Content := do
  match disk.find? (← disk.locate .top path) with
  | some (.file content) => .ok content
  | some (.folder _) => .error .isFolder
  | _ => .error .notFound

def target (disk : Node) (folder path : Path) : Except FileFault (List String) := do
  path.checkLength
  let parts := (folder.join path).parts
  match parts.getLast? with
  | none => .error .isFolder
  | some name =>
    let folder ← disk.follow parts.dropLast
    match disk.find? folder, disk.step folder name with
    | _, .ok place =>
      match disk.find? place with
      | some (.file _) => .ok place
      | some (.folder _) => .error .isFolder
      | _ => .error .notFound
    | some (.folder _), .error .notFound => .ok (folder ++ [name])
    | _, .error fault => .error fault

end Node

end LineCensus
