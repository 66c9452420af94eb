import LineCensus.Declaration.Family

/-! Declarations in languages whose blocks are indented. -/
namespace LineCensus.Declaration.Indented
open Pattern

def identifier : Identifier where
  isHead c := Text.isLetter c || c == '_'
  isTail c := Text.isLetter c || Text.isDigit c || c == '_'

def ident : Pattern := identifier.pattern

def further : Pattern := blanks ++ lit "," ++ blanks ++ ident

/-- An equals sign that is no comparison. -/
def assign : Pattern := blanks ++ lit "=" ++ notAhead (lit "=")

def builtinNames : List String :=
  ["str", "int", "float", "bool", "bytes", "list", "dict", "tuple", "set", "frozenset", "complex",
    "object", "Optional", "Union", "Any", "List", "Dict", "Tuple", "Set", "Callable", "Iterable",
    "Sequence", "Mapping"]

def assignment : Family where
  name := "assignment"
  binding := .single
  lead := atStart
  bound := ident
  tail := assign

def tupleAssignment : Family where
  name := "tuple_assignment"
  binding := .names
  lead := atStart
  bound := ident ++ plus further
  tail := assign

/-- The characters that make a longer operator of an equals sign behind them. -/
def operatorStarts : List Char := "=!<>+-*/%&|^:@".toList

def chainedAssignment : Family where
  name := "chained_assignment"
  binding := .single
  lead := behind (outside operatorStarts) '=' ++ blanks
  bound := ident
  tail := ahead assign

def forBinder : Family where
  name := "for_binder"
  binding := .names
  lead := wordEdge ++ lit "for" ++ gap ++ opt (lit "(")
  bound := ident ++ star further
  tail := opt (lit ")") ++ gap ++ lit "in" ++ wordEdge

def withBinder : Family where
  name := "with_binder"
  binding := .single
  lead := wordEdge ++ lit "with" ++ gap ++ fewest (outside [':']) ++ wordEdge ++ lit "as" ++ gap
  bound := ident

def attributeBinder : Family where
  name := "attribute_binder"
  binding := .single
  lead := wordEdge ++ anyWord ["self", "cls"] ++ lit "."
  bound := ident
  tail := assign

def functionParams : Family where
  name := "function_params"
  binding := .names
  lead := wordEdge ++ lit "def" ++ gap ++ ident ++ blanks ++ lit "("
  bound := upTo (outside [')'])
  tail := lit ")"

def lambdaParams : Family where
  name := "lambda_params"
  binding := .names
  lead := wordEdge ++ lit "lambda" ++ wordEdge ++ blanks
  bound := upTo (outside [':'])
  tail := lit ":"

def typeAnnotation : Family where
  name := "type_annotation"
  binding := .single
  lead := wordEdge
  bound := ident
  tail := blanks ++ lit ":" ++ blanks ++ anyWord builtinNames ++ wordEdge

end Indented

def indented : Heuristic where
  name := "indented"
  identifier := Indented.identifier
  families := [Indented.assignment, Indented.tupleAssignment, Indented.chainedAssignment,
    Indented.forBinder, Indented.withBinder, Indented.attributeBinder, Indented.functionParams,
    Indented.lambdaParams, Indented.typeAnnotation]

end LineCensus.Declaration
