import LineCensus.Report.Layout

/-! How the command is used. -/
namespace LineCensus.Command

def name : String := "codetally"

def usage : String := Report.unlines [
  "usage: codetally [-h] [-e EXTENSIONS] [--chunk-size CHUNK_SIZE]",
  "                 [--max-lines MAX_LINES] [--tokens] [--top TOP] [-o OUTPUT]",
  "                 [-q] [-v]",
  "                 [path]"]

def help : String := usage ++ Report.unlines [
  "",
  "Count blank, comment and code lines, plus an estimate of declared variables,",
  "in source files.",
  "",
  "positional arguments:",
  "  path                  Source file or project directory",
  "",
  "options:",
  "  -h, --help            show this help message and exit",
  "  -e EXTENSIONS, --extensions EXTENSIONS",
  "                        Comma-separated file extensions or '*' for every",
  "                        supported language",
  "  --chunk-size CHUNK_SIZE",
  "                        Lines classified per batch",
  "  --max-lines MAX_LINES",
  "                        Reject files with more lines than this",
  "  --tokens              Also estimate LLM tokens per file",
  "  --top TOP             Number of largest files to list",
  "  -o OUTPUT, --output OUTPUT",
  "                        Write the full report as JSON to this file",
  "  -q, --quiet           No progress output",
  "  -v, --verbose         Debug logging"]

end LineCensus.Command
