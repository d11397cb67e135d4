import EcmaLex.CommandLine.Conversation

/-!
# The program

Input and output for the command line: files are read, lines are asked for, and what the command
line decides is written.
-/

namespace EcmaLex.CommandLine

/-- Reads a text file. -/
def readText (path : String) : IO (Except FileError String) := do
  try
    let bytes ← IO.FS.readBinFile path
    match String.fromUTF8? bytes with
    | some text => return .ok text
    | none => return .error .notText
  catch e =>
    match e with
    | .noFileOrDirectory .. => return .error .missing
    | .inappropriateType .. => return .error .directory
    | other => return .error (.other (toString other))

/-- Writes an output. -/
def emit (o : Output) : IO Unit := do
  IO.print o.stdout
  (← IO.getStdout).flush
  IO.eprint o.stderr

/-- The bytes of the next line of the input, its line feed included; none at the end. -/
partial def readLine (before : ByteArray) : IO ByteArray := do
  let chunk ← (← IO.getStdin).read 1
  if chunk.isEmpty then return before
  else if chunk.toList == [0x0A] then return before ++ chunk
  else readLine (before ++ chunk)

/-- Prompts for lines until the input ends. -/
partial def talk (o : Options) (json : Bool) : IO UInt32 := do
  emit { stdout := Conversation.prompt }
  let line ← readLine .empty
  if line.isEmpty then
    emit { stdout := Conversation.farewell }
    return 0
  else
    match String.fromUTF8? line with
    | none =>
      emit { stderr := Conversation.readError }
      return 1
    | some text =>
      emit (Conversation.respond o json text)
      talk o json

/-- Runs the program with arguments, and gives its exit code. -/
def start (args : List String) : IO UInt32 := do
  match ← plan readText args with
  | .finished o =>
    emit o
    return UInt32.ofNat o.code
  | .interactive o json =>
    emit { stdout := Conversation.greeting }
    talk o json

end EcmaLex.CommandLine

/-- Runs the program. -/
def main (args : List String) : IO UInt32 := EcmaLex.CommandLine.start args
