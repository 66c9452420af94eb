import LineCensus.Value

/-! What can go wrong in a census, and how it is told. -/
namespace LineCensus

inductive ErrorCode where
  | unsupportedLanguage
  | inputTooLarge
  | sourceUnavailable
  | configError
  | cancelled
deriving DecidableEq, Repr

namespace ErrorCode

def name : ErrorCode → String
  | .unsupportedLanguage => "UNSUPPORTED_LANGUAGE"
  | .inputTooLarge => "INPUT_TOO_LARGE"
  | .sourceUnavailable => "SOURCE_UNAVAILABLE"
  | .configError => "CONFIG_ERROR"
  | .cancelled => "CANCELLED"

def all : List ErrorCode :=
  [.unsupportedLanguage, .inputTooLarge, .sourceUnavailable, .configError, .cancelled]

def ofName? (text : String) : Option ErrorCode :=
  all.find? (·.name == text)

end ErrorCode

inductive Setting where
  | chunkSize
  | maxLines
deriving DecidableEq, Repr

def Setting.name : Setting → String
  | .chunkSize => "chunk_size"
  | .maxLines => "max_lines"

inductive AnalysisError where
  | custom (code : ErrorCode) (message : String) (context : List (String × Value))
  | invalidSetting (setting : Setting) (value : Value)
  | unsupportedLanguage (filename : String)
  | inputTooLarge (filename : String) (size limit : Int) (unit : String)
  | sourceUnavailable (filename reason : String)
  | cancelled (filename : String)

namespace AnalysisError

def code : AnalysisError → ErrorCode
  | .custom code _ _ => code
  | .invalidSetting _ _ => .configError
  | .unsupportedLanguage _ => .unsupportedLanguage
  | .inputTooLarge _ _ _ _ => .inputTooLarge
  | .sourceUnavailable _ _ => .sourceUnavailable
  | .cancelled _ => .cancelled

def message : AnalysisError → String
  | .custom _ message _ => message
  | .invalidSetting setting value =>
    setting.name ++ " must be a positive integer, got " ++ value.display
  | .unsupportedLanguage filename => "Unsupported file type: " ++ filename
  | .inputTooLarge filename size limit unit =>
    "File too large: " ++ filename ++ " has " ++ toString size ++ " " ++ unit ++ " (max: " ++
      toString limit ++ ")"
  | .sourceUnavailable filename reason => "Failed to read " ++ filename ++ ": " ++ reason
  | .cancelled filename =>
    if filename.isEmpty then "Analysis cancelled" else "Analysis of " ++ filename ++ " cancelled"

/-- The class in brackets and the text, or the class alone if there is no text. -/
def text (e : AnalysisError) : String :=
  if e.message.isEmpty then e.code.name else "[" ++ e.code.name ++ "] " ++ e.message

def context : AnalysisError → List (String × Value)
  | .custom _ _ context => context
  | .invalidSetting setting value => [("field", .text setting.name), ("value", value)]
  | .unsupportedLanguage filename => [("filename", .text filename)]
  | .inputTooLarge filename size limit unit =>
    [("filename", .text filename), ("size", .integer size), ("limit", .integer limit),
      ("unit", .text unit)]
  | .sourceUnavailable filename reason => [("filename", .text filename), ("reason", .text reason)]
  | .cancelled filename => [("filename", .text filename)]

end AnalysisError

inductive NumberError where
  | quotientTooLarge
  | integerTooLarge
deriving DecidableEq, Repr

def NumberError.message : NumberError → String
  | .quotientTooLarge => "integer division result too large for a float"
  | .integerTooLarge => "int too large to convert to float"

end LineCensus
