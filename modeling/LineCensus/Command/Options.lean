import LineCensus.Text.Integer
import LineCensus.Text.Search
import LineCensus.Value

/-! The arguments of the command. -/
namespace LineCensus.Command

/-- What the arguments ask for. An option may be given without a value, and then holds none; without a
path the current folder is meant, and without an output no report is written. -/
structure Options where
  path : Option String := none
  extensions : Option String := some "*"
  chunkSize : Option Int := some 1000
  maxLines : Option Int := some 100000
  tokens : Bool := false
  top : Option Int := some 10
  output : Option String := none
  quiet : Bool := false
  verbose : Bool := false
deriving DecidableEq, Repr

inductive Flag where
  | help
  | extensions
  | chunkSize
  | maxLines
  | tokens
  | top
  | output
  | quiet
  | verbose
deriving DecidableEq, Repr

namespace Flag

def spellings : List (String × Flag) :=
  [("-h", help), ("--help", help), ("-e", extensions), ("--extensions", extensions),
    ("--chunk-size", chunkSize), ("--max-lines", maxLines), ("--tokens", tokens), ("--top", top),
    ("-o", output), ("--output", output), ("-q", quiet), ("--quiet", quiet), ("-v", verbose),
    ("--verbose", verbose)]

def ofSpelling? (spelling : String) : Option Flag :=
  spellings.lookup spelling

def takesValue : Flag → Bool
  | .extensions | .chunkSize | .maxLines | .top | .output => true
  | .help | .tokens | .quiet | .verbose => false

def display (flag : Flag) : String :=
  "/".intercalate ((spellings.filter fun (_, other) => other == flag).map (·.1))

end Flag

inductive UsageError where
  | ambiguous (argument : String) (spellings : List String)
  | missingValue (flag : Flag)
  | needlessValue (flag : Flag) (value : String)
  | invalidInteger (flag : Flag) (value : String)
  | unrecognized (arguments : List String)
deriving DecidableEq, Repr

def UsageError.message : UsageError → String
  | .ambiguous argument spellings =>
    "ambiguous option: " ++ argument ++ " could match " ++ ", ".intercalate spellings
  | .missingValue flag => "argument " ++ flag.display ++ ": expected one argument"
  | .needlessValue flag value =>
    "argument " ++ flag.display ++ ": ignored explicit argument " ++ Value.quote value
  | .invalidInteger flag value =>
    "argument " ++ flag.display ++ ": invalid int value: " ++ Value.quote value
  | .unrecognized arguments => "unrecognized arguments: " ++ " ".intercalate arguments

inductive Argument where
  | plain (text : String)
  | option (flag : Flag) (spelling : String) (attached : Option (List Char))
  | terminator
  | unknown (text : String)
deriving DecidableEq, Repr

def allDigits (text : List Char) : Bool :=
  text.all fun c => (Text.digitValue? c).isSome

def isNumber (text : List Char) : Bool :=
  let text := if Text.endsWith ['\n'] text then text.dropLast else text
  match text.dropWhile (fun c => (Text.digitValue? c).isSome) with
  | [] => !text.isEmpty
  | '.' :: decimals => !decimals.isEmpty && allDigits decimals
  | _ => false

def splitEquals (text : List Char) : List Char × Option (List Char) :=
  (text.takeWhile (· != '='), (text.dropWhile (· != '=')).tail?)

/-- The options that an argument may abbreviate. Long options may be cut short, and a value may be
attached behind an equals sign; a short option may have its value or further options attached. -/
def abbreviated (text : List Char) : List (Flag × String × Option (List Char)) :=
  match text with
  | '-' :: '-' :: _ =>
    let (start, attached) := splitEquals text
    Flag.spellings.filterMap fun (spelling, flag) =>
      if Text.startsWith start spelling.toList then some (flag, spelling, attached) else none
  | _ =>
    Flag.spellings.filterMap fun (spelling, flag) =>
      if spelling.toList == text.take 2 then some (flag, spelling, some (text.drop 2))
      else if Text.startsWith text spelling.toList then some (flag, spelling, none)
      else none

def Argument.ofText (argument : String) : Except UsageError Argument :=
  let text := argument.toList
  let (start, attached) := splitEquals text
  if text.head? != some '-' then .ok (.plain argument)
  else if argument == "--" then .ok .terminator
  else match Flag.ofSpelling? argument with
    | some flag => .ok (.option flag argument none)
    | none =>
      if text.length == 1 then .ok (.plain argument)
      else match Flag.ofSpelling? (String.ofList start) with
        | some flag => .ok (.option flag (String.ofList start) attached)
        | none =>
          match abbreviated text with
          | [(flag, spelling, attached)] => .ok (.option flag spelling attached)
          | [] =>
            if isNumber (text.drop 1) || text.contains ' ' then .ok (.plain argument)
            else .ok (.unknown argument)
          | several => .error (.ambiguous argument (several.map fun (_, spelling, _) => spelling))

def Argument.ofTexts : List String → Except UsageError (List Argument)
  | [] => .ok []
  | text :: rest => do
    match ← Argument.ofText text with
    | .terminator => return .terminator :: rest.map .plain
    | argument => return argument :: (← ofTexts rest)

inductive Ending where
  | complete
  | value (flag : Flag) (text : List Char)
  | awaiting (flag : Flag)
deriving DecidableEq, Repr

/-- The options without value that an argument sets, and its ending, from its last option on, which
has nothing attached. -/
def endingOf (flag : Flag) : List Flag × Ending :=
  if flag.takesValue then ([], .awaiting flag) else ([flag], .complete)

/-- The options without value that an argument sets, and its ending, from an option on that has a text
attached. The text is the value of an option that takes one; behind a short option without value it
is made of further short options. -/
def cluster (flag : Flag) (short : Bool) : List Char → Except UsageError (List Flag × Ending)
  | [] => if flag.takesValue then .ok ([], .value flag []) else .error (.needlessValue flag "")
  | c :: rest =>
    let refused := .error (.needlessValue flag (String.ofList (c :: rest)))
    if flag.takesValue then .ok ([], .value flag (c :: rest))
    else if !short then refused
    else match Flag.ofSpelling? (String.ofList ['-', c]) with
      | none => refused
      | some next => do
        let (flags, ending) ← if rest.isEmpty then .ok (endingOf next) else cluster next true rest
        return (flag :: flags, ending)

structure Reading where
  options : Options := {}
  pathJustRead : Bool := false
  extras : List String := []

inductive Stop where
  | help
  | failed (e : UsageError)
deriving DecidableEq, Repr

def given (value : String) : Option String :=
  if value == "--" then none else some value

def integer (flag : Flag) (value : String) : Except Stop Int :=
  match Text.integer? value.toList with
  | none => .error (.failed (.invalidInteger flag value))
  | some n => .ok n

def Options.set (options : Options) (flag : Flag) (value : String) : Except Stop Options := do
  match flag with
  | .help => throw .help
  | .extensions => return { options with extensions := given value }
  | .chunkSize => return { options with chunkSize := ← (given value).mapM (integer flag) }
  | .maxLines => return { options with maxLines := ← (given value).mapM (integer flag) }
  | .tokens => return { options with tokens := true }
  | .top => return { options with top := ← (given value).mapM (integer flag) }
  | .output => return { options with output := given value }
  | .quiet => return { options with quiet := true }
  | .verbose => return { options with verbose := true }

namespace Reading

def spare (r : Reading) (text : String) : Reading :=
  { r with extras := r.extras ++ [text], pathJustRead := false }

def plain (r : Reading) (text : String) : Reading :=
  match r.options.path with
  | none => { r with options := { r.options with path := some text }, pathJustRead := true }
  | some _ => r.spare text

/-- Reads the terminator, which says nothing unless it stands next to the path or in its place. -/
def terminator (r : Reading) : Reading :=
  if r.options.path.isNone || r.pathJustRead then { r with pathJustRead := false } else r.spare "--"

def set (r : Reading) (flag : Flag) (value : String) : Except Stop Reading := do
  return { r with options := ← r.options.set flag value, pathJustRead := false }

def setAll (r : Reading) (flags : List Flag) : Except Stop Reading :=
  flags.foldlM (fun r flag => r.set flag "") r

end Reading

def readArguments (r : Reading) : List Argument → Except Stop Reading
  | [] => .ok r
  | .plain text :: rest => readArguments (r.plain text) rest
  | .terminator :: rest => readArguments r.terminator rest
  | .unknown text :: rest => readArguments (r.spare text) rest
  | .option flag spelling attached :: rest => do
    let (flags, ending) ← match attached with
      | none => .ok (endingOf flag)
      | some text =>
        (cluster flag (!Text.startsWith ['-', '-'] spelling.toList) text).mapError .failed
    match ending, rest with
    | .complete, rest => readArguments (← r.setAll flags) rest
    | .value flag text, rest =>
      readArguments (← (← r.setAll flags).set flag (String.ofList text)) rest
    | .awaiting flag, .plain value :: rest =>
      readArguments (← (← r.setAll flags).set flag value) rest
    | .awaiting flag, _ => .error (.failed (.missingValue flag))

def Options.ofArguments (arguments : List String) : Except Stop Options :=
  match Argument.ofTexts arguments with
  | .error e => .error (.failed e)
  | .ok arguments =>
    match readArguments {} arguments with
    | .error stop => .error stop
    | .ok r => if r.extras.isEmpty then .ok r.options else .error (.failed (.unrecognized r.extras))

end LineCensus.Command
