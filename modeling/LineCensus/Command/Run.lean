import LineCensus.Command.Options
import LineCensus.Command.Usage
import LineCensus.Report.Json
import LineCensus.Report.Printed
import LineCensus.Report.Record
import LineCensus.Scan
import LineCensus.Tokens

/-! One run of the command on a file tree: what it prints, what it writes, and how it ends. -/
namespace LineCensus.Command

/-- The surroundings of a run: the current folder, the disk it stands on, the encodings that count
tokens, and whether the user stops the run when it comes to a single file. -/
structure Surroundings where
  folder : Path
  disk : Node
  supply : Tokens.Supply := .empty
  interrupted : Bool := false

structure Written where
  place : List String
  content : String

inductive Breakdown where
  | nullCharacter
  | target (fault : FileFault) (path : Path)
  | rule (e : Ignore.RuleError)
  | number (e : NumberError)
  | loader (message : String)
  | noExtensions
  | noTop

def Breakdown.message : Breakdown → String
  | .nullCharacter => "embedded null byte"
  | .target fault path => fault.message path.toString
  | .rule e => e.message
  | .number e => e.message
  | .loader message => message
  | .noExtensions => "'list' object has no attribute 'strip'"
  | .noTop => "'>' not supported between instances of 'list' and 'int'"

structure Console where
  stdout : String := ""
  stderr : String := ""
  written : List Written := []

structure Outcome extends Console where
  exitCode : Nat

namespace Console

def print (c : Console) (text : String) : Console :=
  { c with stdout := c.stdout ++ text }

def printLine (c : Console) (text : String) : Console :=
  c.print (text ++ "\n")

def warn (c : Console) (text : String) : Console :=
  { c with stderr := c.stderr ++ text }

def log (c : Console) (level message : String) : Console :=
  c.warn ("  > [" ++ level ++ "] " ++ message ++ "\n")

def exit (c : Console) (exitCode : Nat) : Outcome :=
  { c with exitCode }

def fail (c : Console) (e : AnalysisError) : Outcome :=
  (c.warn ("\nError: " ++ e.text ++ "\n")).exit 1

def crash (c : Console) (cause : Breakdown) : Outcome :=
  (c.warn ("An unexpected error occurred: " ++ cause.message ++ "\n")).exit 1

end Console

def hasNull (path : String) : Bool :=
  path.toList.contains (Char.ofNat 0)

def Surroundings.holds (s : Surroundings) (place : List String) (content : String) : Bool :=
  match s.disk.find? place with
  | some (.file old) => old.size == content.utf8ByteSize && old.toList == content.toUTF8.data.toList
  | _ => false

/-- Writes a report, if one is asked for. A file that cannot be written does not spoil the run. -/
def writeReport (s : Surroundings) (output : Option String) (fields : List (String × Value))
    (c : Console) : Outcome :=
  match output with
  | none => c.exit 0
  | some text =>
    if text.isEmpty then c.exit 0
    else if hasNull text then c.crash .nullCharacter
    else
      let path := Path.ofString text
      match s.disk.target s.folder path with
      | .error fault =>
        (c.warn ("Error writing file: " ++ fault.message path.toString ++ "\n")).exit 0
      | .ok place =>
        let content := Report.Json.render 0 (.record fields)
        let written := if s.holds place content then [] else [⟨place, content⟩]
        ({ c with written }.printLine ("\nReport written to: " ++ path.toString)).exit 0

def Console.progress (c : Console) (options : Options) (label : String)
    (percent : Numeric.Binary64) : Console :=
  if options.quiet then c else c.warn (Report.progressLine label percent)

def runFile (s : Surroundings) (options : Options) (analyzer : Analyzer) (path : Path)
    (c : Console) : Outcome :=
  match analyzer.language path.name with
  | .error e => c.fail e
  | .ok _ =>
    if s.interrupted then (c.printLine "\nCancelled.").exit 1
    else match readSource s.disk path path.name maxFileBytes with
      | .error e => c.fail e
      | .ok text =>
        let run := analyzer.readText .cooperative none 0 path.name text
        let c := run.progress.foldl (fun c percent =>
          c.progress options ("Analyzing " ++ path.name) percent) c
        match run.outcome with
        | .error e => c.fail e
        | .ok entry =>
          let tokens : Option Int :=
            if options.tokens then some (Tokens.Session.count s.supply {} text).1 else none
          let size : Option Int := match s.disk.find? path.parts with
            | some (.file content) => some content.size
            | _ => none
          match Report.ofFile entry size tokens with
          | .error e => c.crash (.number e)
          | .ok report =>
            let extra := (tokens.map fun n => ("tokens", Value.integer n)).toList
            writeReport s options.output (entry.fields ++ extra) (c.print report)

/-- The numbers of tokens of the sources that give a text, in order, by their names in reports. -/
def countTokens (supply : Tokens.Supply) (session : Tokens.Session) :
    List Source → List (String × Int)
  | [] => []
  | source :: rest =>
    match source.load with
    | .text text =>
      let (n, session) := session.count supply text
      (source.displayName, n) :: countTokens supply session rest
    | _ => countTokens supply session rest

def Console.event (c : Console) (options : Options) : FolderEvent → Console
  | .loaded _ => c
  | .skipped file => c.log "WARNING" file.warning
  | .counted entry =>
    if options.verbose then
      c.log "DEBUG" ("Analyzed " ++ entry.filename ++ ": " ++ toString entry.stats.total ++ " lines")
    else c
  | .progress percent => c.progress options "Progress" percent

def Console.noSources (c : Console) (registry : Registry) : Console :=
  c.print (Report.unlines [
    "No supported files found.",
    "Supported languages: " ++ ", ".intercalate registry.names,
    "Supported extensions: " ++ ", ".intercalate registry.extensions])

/-- The lines that keep the report of a run out of its own scan. -/
def reportLines (output : Option String) : List String :=
  match output with
  | none => []
  | some text => if text.isEmpty then [] else [(Path.ofString text).name]

def reportFolder (s : Surroundings) (options : Options) (folder : Folder)
    (tokens : List (String × Int)) (c : Console) : Outcome :=
  match Report.overview folder with
  | .error e => c.crash (.number e)
  | .ok overview =>
    let c := c.print overview
    if options.top.isNone && !folder.perFile.isEmpty then c.crash .noTop
    else
      let c := c.print (Report.fileLists folder (options.top.getD 0) tokens)
      let counts := tokens.map fun (name, n) => (name, Value.integer n)
      let extra := if options.tokens then [("tokens", Value.record counts)] else []
      writeReport s options.output (folder.fields ++ extra) c

def runFolder (s : Surroundings) (options : Options) (analyzer : Analyzer) (root : Path)
    (tree : Node) (c : Console) : Outcome :=
  let loaded := Ignore.load root tree (reportLines options.output)
  let c := loaded.warnings.foldl (fun c message => c.log "WARNING" message) c
  match loaded.spec, options.extensions with
  | .error e, _ => c.crash (.rule e)
  | .ok _, none => c.crash .noExtensions
  | .ok spec, some extensions =>
    let scanner : Scanner := {
      spec
      registry := analyzer.registry
      extensions := parseExtensions extensions.toList }
    let sources := scanner.sources s.disk root
    if sources.isEmpty then (c.noSources analyzer.registry).exit 0
    else
      let c := c.printLine ("Analyzing " ++ toString sources.length ++ " files...")
      let run := analyzer.readFolder none sources
      let tokens := if options.tokens then countTokens s.supply {} run.loaded else []
      let c := run.events.foldl (fun c event => c.event options event) c
      match run.outcome with
      | .error (.cancelled filename) => c.fail (.cancelled filename)
      | .error (.fault message) => c.crash (.loader message)
      | .ok folder => reportFolder s options folder tokens c

def Options.target (options : Options) (folder : Path) : Path :=
  (folder.join (.ofString (options.path.getD ""))).collapse

/-- The value of a setting as an option gives it; an option without a value gives an empty list. -/
def settingValue : Option Int → Value
  | none => .list []
  | some n => .integer n

def runOptions (s : Surroundings) (options : Options) : Outcome :=
  let c : Console := {}
  if hasNull (options.path.getD "") then c.crash .nullCharacter
  else
    let target := options.target s.folder
    let missing := (c.warn ("Error: Path not found '" ++ target.toString ++ "'\n")).exit 1
    match s.disk.locate .top target, s.disk.find? target.parts with
    | .error .nameTooLong, _ => c.crash (.target .nameTooLong target)
    | .error _, _ => missing
    | .ok _, none => missing
    | .ok _, some .ghost => missing
    | .ok _, some node =>
      match Settings.ofValues (settingValue options.chunkSize) (settingValue options.maxLines) with
      | .error e => c.fail e
      | .ok settings =>
        let analyzer : Analyzer := { settings }
        let c := c.print (Report.unlines ["--- " ++ name ++ " ---", "Target: " ++ target.toString])
        if node.isFolder then runFolder s options analyzer target node c
        else runFile s options analyzer target c

def run (s : Surroundings) (arguments : List String) : Outcome :=
  let c : Console := {}
  match Options.ofArguments arguments with
  | .error .help => (c.print help).exit 0
  | .error (.failed e) => (c.warn (usage ++ name ++ ": error: " ++ e.message ++ "\n")).exit 2
  | .ok options => runOptions s options

/-- The places that a run looks at, with a mark at those whose whole content counts: what it analyses,
and where its report goes. -/
def places (folder : Path) (arguments : List String) : List (Path × Bool) :=
  match Options.ofArguments arguments with
  | .error _ => []
  | .ok options =>
    (options.output.toList.map fun text => (folder.join (.ofString text), false)) ++
      [(options.target folder, true)]

end LineCensus.Command
