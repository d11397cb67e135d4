import EcmaLex.CommandLine.Run

/-!
# Conversations

Without a text or a file the program prompts for lines and answers each with its tokens. Lines of
white space get no answer, and an error does not end the conversation; input that is no text does.
-/

namespace EcmaLex.CommandLine.Conversation

/-- What stands at the beginning. -/
def greeting : String :=
  programName ++ " v" ++ version ++
    "\nType JavaScript to see its tokens. Press Ctrl-D to exit.\n"

/-- What asks for a line. -/
def prompt : String := "> "

/-- What stands after the last prompt. -/
def farewell : String := "\n"

/-- The message about input that is no text. -/
def readError : String := "Read error: " ++ FileError.notText.message ++ "\n"

/-- The characters with the Unicode property White_Space. -/
def isSpace (c : Char) : Bool :=
  let n := c.toNat
  (0x09 ≤ n && n ≤ 0x0D) || n == 0x20 || n == 0x85 || n == 0xA0 || n == 0x1680 ||
    (0x2000 ≤ n && n ≤ 0x200A) || n == 0x2028 || n == 0x2029 || n == 0x202F || n == 0x205F ||
    n == 0x3000

/-- A line without the line feeds and carriage returns at its end. -/
def content (line : String) : String :=
  String.ofList (line.toList.reverse.dropWhile fun c => c == '\n' || c == '\r').reverse

/-- The answer to a line. -/
def respond (o : Options) (json : Bool) (line : String) : Output :=
  let source := content line
  if source.toList.all isSpace then {}
  else
    match render o json source with
    | .ok out => { stdout := out }
    | .error message => { stderr := message ++ "\n" }

/-- Splits input into lines, each with its line feed if it has one. -/
def splitLines : List UInt8 → List (List UInt8)
  | [] => []
  | b :: rest =>
    if b = 0x0A then [b] :: splitLines rest
    else
      match splitLines rest with
      | [] => [[b]]
      | line :: lines => (b :: line) :: lines

/-- The conversation over lines, from the prompt for the first. -/
def converse (o : Options) (json : Bool) : List (List UInt8) → Output
  | [] => { stdout := prompt ++ farewell }
  | line :: lines =>
    match String.fromUTF8? ⟨line.toArray⟩ with
    | none => { code := 1, stdout := prompt, stderr := readError }
    | some text =>
      let answer := respond o json text
      let rest := converse o json lines
      { code := rest.code
        stdout := prompt ++ answer.stdout ++ rest.stdout
        stderr := answer.stderr ++ rest.stderr }

/-- The whole conversation over an input. -/
def run (o : Options) (json : Bool) (input : List UInt8) : Output :=
  let out := converse o json (splitLines input)
  { out with stdout := greeting ++ out.stdout }

end EcmaLex.CommandLine.Conversation

namespace EcmaLex.CommandLine

/-- A call of the program with its input at hand. -/
def run {m : Type → Type} [Monad m] (read : String → m (Except FileError String))
    (args : List String) (input : List UInt8) : m Output := do
  match ← plan read args with
  | .finished o => return o
  | .interactive o json => return Conversation.run o json input

end EcmaLex.CommandLine
