import LineCensus.Command.Run

/-! The command line: the part of the disk that a run may look at is read, the run is made, and what
it leaves behind is printed and written. -/
namespace LineCensus

/-- What stands at a place, if it can be opened: a file with its bytes, or a folder with all that is
in it if `deep` and with nothing otherwise. A link to a folder counts as an empty folder, so that
links never lead round in a circle. -/
partial def readNode? (deep : Bool) (place : String) : IO (Option Node) := do
  try
    let real ← IO.FS.realPath place
    if ← real.isDir then
      if !deep || real.toString != place then return some (.folder [])
      let nodes ← (← real.readDir).toList.mapM fun entry => do
        return (entry.fileName, (← readNode? true entry.path.toString).getD .ghost)
      return some (.folder nodes)
    else return some (.file (.bytes (← IO.FS.readBinFile real)))
  catch _ => return none

def readPlace (deep : Bool) (disk : Node) (path : Path) : IO Node := do
  let mut disk := disk
  for n in List.range (path.parts.length + 1) do
    let place := Path.collapse { parts := path.parts.take n }
    let deep := deep && n == path.parts.length
    if deep || (disk.find? place.parts).isNone then
      if let some node ← readNode? deep place.toString then
        disk := disk.graft place.parts node
  return disk

end LineCensus

def main (arguments : List String) : IO UInt32 := do
  let folder := LineCensus.Path.ofString (← IO.currentDir).toString
  let mut disk : LineCensus.Node := .folder []
  for (path, deep) in LineCensus.Command.places folder arguments do
    disk ← LineCensus.readPlace deep disk path
  let outcome := LineCensus.Command.run { folder, disk } arguments
  for file in outcome.written do
    IO.FS.writeFile ("/" ++ "/".intercalate file.place) file.content
  IO.print outcome.stdout
  IO.eprint outcome.stderr
  return outcome.exitCode.toUInt32
