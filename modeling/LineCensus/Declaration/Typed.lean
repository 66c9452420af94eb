import LineCensus.Declaration.Script

/-! Declarations in brace languages with static types. -/
namespace LineCensus.Declaration.Typed
open Pattern

def identifier : Identifier := Script.identifier

def ident : Pattern := identifier.pattern

def primitiveNames : List String :=
  ["byte", "short", "int", "long", "float", "double", "char", "boolean", "bool", "unsigned",
    "signed", "size_t", "auto", "decimal", "string", "object", "var", "dynamic"]

def knownNames : List String :=
  ["String", "Integer", "Long", "Float", "Double", "Character", "Boolean", "Byte", "Short",
    "Number", "BigDecimal", "BigInteger", "Object", "Class", "List", "Set", "Map", "Collection",
    "Iterable", "Iterator", "ArrayList", "LinkedList", "HashMap", "LinkedHashMap", "TreeMap",
    "HashSet", "LinkedHashSet", "TreeSet", "Queue", "Deque", "ArrayDeque", "Optional", "Stream",
    "Consumer", "Function", "Predicate", "Supplier", "Runnable", "Callable", "Thread",
    "StringBuilder", "Exception", "Error", "Dictionary", "IEnumerable", "IList", "Task"]

def primitiveType : Pattern := anyWord primitiveNames

def knownType : Pattern := anyWord knownNames

def capitalized : Pattern := one (fun c => 'A' ≤ c && c ≤ 'Z') ++ many identifier.isTail

def typeArguments : Pattern :=
  let inside := outside [';', '=', '(', ')', '\x7b', '\x7d']
  opt (blanks ++ lit "<" ++ fewest inside ++ oneOrMore (among ['>']))

def arrayMarks : Pattern := star (blanks ++ lit "[" ++ blanks ++ lit "]")

/-- Blanks and pointer marks, at least one of them. -/
def separator : Pattern := oneOrMore fun c => Text.isBlank c || c == '*' || c == '&'

def anyType : Pattern :=
  wordEdge ++ (primitiveType <|> knownType <|> capitalized) ++ typeArguments ++ arrayMarks

/-- A place where none of the words stands that look like a name after a type. -/
def nameAhead : Pattern :=
  notAhead (anyWord ["new", "return", "else", "throw", "case"] ++ wordEdge)

/-- The end of a declaration, or the start of its value. -/
def declarationEnd : Pattern := blanks ++ one (among ['=', ';'])

def arrow : Pattern := anyWord ["->", "=>"]

def parameters : Pattern := upTo (outside [')'])

def primitive : Family where
  name := "primitive"
  binding := .single
  lead := wordEdge ++ primitiveType ++ arrayMarks ++ separator
  bound := ident
  tail := star (blanks ++ lit "[" ++ upTo (outside [']']) ++ lit "]") ++ declarationEnd

def known : Family where
  name := "known_type"
  binding := .single
  lead := wordEdge ++ knownType ++ typeArguments ++ arrayMarks ++ gap
  bound := ident
  tail := declarationEnd

/-- A variable of any other capitalised type. -/
def generic : Family where
  name := "generic_type"
  binding := .single
  lead := wordEdge ++ notAhead (knownType ++ wordEdge) ++ capitalized ++ typeArguments ++
    arrayMarks ++ separator
  bound := ident
  tail := declarationEnd

def methodParams : Family where
  name := "method_params"
  binding := .typedNames
  lead := (anyType <|> wordEdge ++ lit "void") ++ separator ++ nameAhead ++ ident ++ blanks ++ lit "("
  bound := parameters
  tail := lit ")"

def constructorParams : Family where
  name := "constructor_params"
  binding := .typedNames
  lead := wordEdge ++ anyWord ["public", "private", "protected", "internal"] ++ gap ++ capitalized ++
    blanks ++ lit "("
  bound := parameters
  tail := lit ")"

def forBinder : Family where
  name := "for_binder"
  binding := .single
  lead := wordEdge ++ anyWord ["for", "foreach"] ++ blanks ++ lit "(" ++ blanks ++
    opt (lit "final" ++ gap) ++ anyType ++ separator
  bound := ident
  tail := blanks ++ (one (among [':', '=']) <|> wordEdge ++ lit "in" ++ wordEdge)

def resourceBinder : Family where
  name := "resource_binder"
  binding := .single
  lead := wordEdge ++ anyWord ["try", "using"] ++ blanks ++ lit "(" ++ blanks ++
    opt (lit "final" ++ gap) ++ anyType ++ separator
  bound := ident
  tail := blanks ++ lit "="

def lambdaParams : Family where
  name := "lambda_params"
  binding := .typedNames
  lead := lit "("
  bound := upTo (outside ['(', ')'])
  tail := lit ")" ++ blanks ++ arrow

def lambdaParam : Family where
  name := "lambda_param"
  binding := .single
  lead := wordEdge
  bound := ident
  tail := blanks ++ arrow ++ notAhead (one fun c => Text.isWordChar c || c == '$')

end Typed

def typed : Heuristic where
  name := "typed"
  identifier := Typed.identifier
  families := [Typed.primitive, Typed.known, Typed.generic, Typed.methodParams,
    Typed.constructorParams, Typed.forBinder, Typed.resourceBinder, Typed.lambdaParams,
    Typed.lambdaParam]

end LineCensus.Declaration
