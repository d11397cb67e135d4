import EcmaLex.CommandLine.Arguments
import EcmaLex.Options.Read
import EcmaLex.Report.Document
import EcmaLex.Report.Text
import EcmaLex.TokenStream

/-!
# What a call of the program does

A call scans a text given with `--eval`, or a file, or else the lines of its input, and writes the
tokens as a listing or as a JSON document. Reading files is left to the caller; everything else is
decided here.
-/

namespace EcmaLex.CommandLine

/-- What a call leaves behind. -/
structure Output where
  code : Nat := 0
  stdout : String := ""
  stderr : String := ""
  deriving DecidableEq, Repr

/-- Why a file could not be read. -/
inductive FileError where
  | missing
  | directory
  | notText
  /-- Any other reason, in the words of the system. -/
  | other (reason : String)
  deriving DecidableEq, Repr

/-- The wording of a file error. -/
def FileError.message : FileError → String
  | missing => "No such file or directory (os error 2)"
  | directory => "Is a directory (os error 21)"
  | notText => "stream did not contain valid UTF-8"
  | other reason => reason

/-- The name of the program. -/
def programName : String := "jsscan"

/-- The version of the program. -/
def version : String := "0.1.0"

/-! ## Scanning -/

/-- The tokens of a source as a listing or as a document, or the error in words. -/
def render (o : Options) (json : Bool) (source : String) : Except String String :=
  let run := (TokenStream.ofSource (Utf16.ofString source) o.context).run
  match run.toExcept with
  | .error e => .error ("SyntaxError: " ++ e.display)
  | .ok tokens =>
    let comments := run.final.scanner.comments.toList
    .ok <|
      if json then (Report.document o.context tokens comments).pretty
      else Report.text tokens comments

/-- A failed call with a message. -/
def failure (message : String) : Output := { code := 1, stderr := message ++ "\n" }

/-- Scans a whole text. -/
def scanText (o : Options) (json : Bool) (source : String) : Output :=
  match render o json source with
  | .ok out => { stdout := if json then out ++ "\n" else out }
  | .error message => failure message

/-- The message about a file that could not be read. -/
def unreadable (path : String) (e : FileError) : String :=
  "Error reading " ++ path ++ ": " ++ e.message

/-! ## Calls -/

/-- What a call comes to: an output, or a conversation over its input. -/
inductive Plan where
  | finished (o : Output)
  | interactive (o : Options) (json : Bool)
  deriving DecidableEq, Repr

/-- How the program is called. -/
def usage : String := "Usage: " ++ programName ++ " [OPTIONS] [FILE]\n"

/-- What the arguments mean, one per line. -/
def help : List String :=
  [ "Arguments:",
    "  [FILE]  JavaScript file to tokenize",
    "",
    "Options:",
    "  -e, --eval <EVAL>      Tokenize inline JavaScript",
    "      --config <CONFIG>  JSON file with scan options; flags below are applied on top",
    "      --module           Module goal (implies --strict)",
    "      --strict",
    "      --jsx",
    "      --next             Numeric separators and BigInt literals",
    "      --raw              Include the source text of every token",
    "      --loc              Include line/column end positions",
    "      --ranges           Include [start, end] ranges in JSON output",
    "      --comments         Report comments alongside tokens",
    "      --no-webcompat     Disable Annex B HTML-like comments",
    "      --json             Print JSON instead of one line per token",
    "  -h, --help             Print help",
    "  -V, --version          Print version" ]

/-- What is written where the arguments ask for no scan. -/
def interruption : Interruption → Output
  | .misuse => { code := 2, stderr := "error: invalid arguments\n\n" ++ usage }
  | .version => { stdout := programName ++ " " ++ version ++ "\n" }
  | .help =>
    { stdout := "An ECMAScript tokenizer\n\n" ++ usage ++ "\n" ++
        String.join (help.map (· ++ "\n")) }

/-- The options of a call: those of the configuration file, if one is named, and the switches. -/
def loadOptions {m : Type → Type} [Monad m] (read : String → m (Except FileError String))
    (a : Arguments) : m (Except String Options) := do
  match a.config with
  | none => return .ok (a.options {})
  | some path =>
    match ← read path with
    | .error e => return .error (unreadable path e)
    | .ok text =>
      match Options.ofJson text with
      | .error f => return .error ("Invalid config " ++ path ++ ": " ++ f.display)
      | .ok base => return .ok (a.options base)

/-- Works out a call. A wrong configuration comes first, then the text of `--eval`, then the file;
without either the input is read line by line. -/
def plan {m : Type → Type} [Monad m] (read : String → m (Except FileError String))
    (args : List String) : m Plan := do
  match Arguments.parse args with
  | .error i => return .finished (interruption i)
  | .ok a =>
    match ← loadOptions read a with
    | .error message => return .finished (failure message)
    | .ok o =>
      match a.eval, a.file with
      | some text, _ => return .finished (scanText o a.wantsJson text)
      | none, some path =>
        match ← read path with
        | .error e => return .finished (failure (unreadable path e))
        | .ok text => return .finished (scanText o a.wantsJson text)
      | none, none => return .interactive o a.wantsJson

end EcmaLex.CommandLine
