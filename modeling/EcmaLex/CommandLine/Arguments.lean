import EcmaLex.Options.Basic

/-!
# Command-line arguments

Options in long form, `-e` for `--eval`, at most one file, and `--` before anything that only looks
like an option. A value is attached (`--eval=x`, `-ex`, `-e=x`) or stands in the next argument;
there it may not begin with a hyphen, unless it is just a hyphen. Nothing may be given twice.

Arguments are taken from left to right, and the first that is wrong, or that asks for the version or
for help, decides.
-/

namespace EcmaLex.CommandLine

/-- The switches: options without a value. -/
inductive Switch where
  | moduleGoal
  | strict
  | jsx
  | next
  | raw
  | loc
  | ranges
  | comments
  | noWebcompat
  | json
  deriving DecidableEq, Repr

namespace Switch

/-- How a switch is written, without its hyphens. -/
def name : Switch → String
  | moduleGoal => "module"
  | strict => "strict"
  | jsx => "jsx"
  | next => "next"
  | raw => "raw"
  | loc => "loc"
  | ranges => "ranges"
  | comments => "comments"
  | noWebcompat => "no-webcompat"
  | json => "json"

/-- All switches. -/
def all : List Switch :=
  [moduleGoal, strict, jsx, next, raw, loc, ranges, comments, noWebcompat, json]

/-- The switch with a name. -/
def ofName? (name : String) : Option Switch := all.find? (·.name == name)

/-- The effect of a switch on the options; the output format is none. -/
def apply (o : Options) : Switch → Options
  | moduleGoal => { o with moduleGoal := true }
  | strict => { o with impliedStrict := true }
  | jsx => { o with jsx := true }
  | next => { o with next := true }
  | raw => { o with raw := true }
  | loc => { o with loc := true }
  | ranges => { o with ranges := true }
  | comments => { o with comments := true }
  | noWebcompat => { o with webcompat := false }
  | json => o

end Switch

/-- What was asked for. -/
structure Arguments where
  file : Option String := none
  eval : Option String := none
  config : Option String := none
  switches : List Switch := []
  deriving DecidableEq, Repr

/-- Why the arguments ask for no scan. -/
inductive Interruption where
  | misuse
  | version
  | help
  deriving DecidableEq, Repr

namespace Arguments

/-- Notes the file, which has a name and is only one. -/
def withFile (a : Arguments) (path : String) : Except Interruption Arguments :=
  if a.file.isSome || path.isEmpty then .error .misuse else .ok { a with file := some path }

/-- Notes the text to scan, which may be empty. -/
def withEval (a : Arguments) (text : String) : Except Interruption Arguments :=
  if a.eval.isSome then .error .misuse else .ok { a with eval := some text }

/-- Notes the configuration file, which has a name. -/
def withConfig (a : Arguments) (path : String) : Except Interruption Arguments :=
  if a.config.isSome || path.isEmpty then .error .misuse else .ok { a with config := some path }

/-- Notes a switch. -/
def withSwitch (a : Arguments) (s : Switch) : Except Interruption Arguments :=
  if a.switches.contains s then .error .misuse else .ok { a with switches := s :: a.switches }

/-- An argument, by its form. -/
inductive Form where
  /-- The two hyphens that end the options. -/
  | separator
  /-- A long option: `--name` or `--name=value`. -/
  | long (name : String) (value : Option String)
  /-- A hyphen and a letter, and what is attached to it. -/
  | short (letter : Char) (attached : List Char)
  /-- Anything else, a single hyphen among it. -/
  | operand (text : String)
  deriving DecidableEq, Repr

/-- The form of an argument. -/
def formOf (arg : String) : Form :=
  match arg.toList with
  | '-' :: '-' :: [] => .separator
  | '-' :: '-' :: rest =>
    let name := String.ofList (rest.takeWhile (· != '='))
    match rest.dropWhile (· != '=') with
    | _ :: value => .long name (some (String.ofList value))
    | [] => .long name none
  | '-' :: letter :: attached => .short letter attached
  | _ => .operand arg

/-- The value attached to a short option; an equals sign before it does not count. -/
def attachedValue? : List Char → Option String
  | [] => none
  | '=' :: value => some (String.ofList value)
  | value => some (String.ofList value)

/-- Operands only. -/
def parseOperands (a : Arguments) : List String → Except Interruption Arguments
  | [] => .ok a
  | arg :: rest =>
    match a.withFile arg with
    | .error i => .error i
    | .ok a => a.parseOperands rest

/-- An option that takes a value, by what it does with it. -/
inductive Taking where
  | eval
  | config
  deriving DecidableEq, Repr

/-- Notes the value of an option. -/
def withValue (a : Arguments) (t : Taking) (value : String) : Except Interruption Arguments :=
  match t with
  | .eval => a.withEval value
  | .config => a.withConfig value

/-- What a single argument comes to. -/
inductive Effect where
  /-- The arguments are understood so far. -/
  | done (r : Except Interruption Arguments)
  /-- The next argument is the value of an option. -/
  | wantsValue (t : Taking)
  /-- Only operands follow. -/
  | operandsFollow

/-- Takes an option with its attached value, if there is one. -/
def takeOption (a : Arguments) (t : Taking) (value : Option String) : Effect :=
  match value with
  | some v => .done (a.withValue t v)
  | none => .wantsValue t

/-- Takes a long option. -/
def takeLong (a : Arguments) (name : String) (value : Option String) : Effect :=
  if name = "eval" then a.takeOption .eval value
  else if name = "config" then a.takeOption .config value
  else if value.isSome then .done (.error .misuse)
  else if name = "version" then .done (.error .version)
  else if name = "help" then .done (.error .help)
  else
    match Switch.ofName? name with
    | some s => .done (a.withSwitch s)
    | none => .done (.error .misuse)

/-- Takes a short option. -/
def takeShort (a : Arguments) (letter : Char) (attached : List Char) : Effect :=
  if letter = 'e' then a.takeOption .eval (attachedValue? attached)
  else if letter = 'V' then .done (.error .version)
  else if letter = 'h' then .done (.error .help)
  else .done (.error .misuse)

/-- Takes one argument. -/
def take (a : Arguments) (arg : String) : Effect :=
  match formOf arg with
  | .separator => .operandsFollow
  | .long name value => a.takeLong name value
  | .short letter attached => a.takeShort letter attached
  | .operand text => .done (a.withFile text)

/-- Understands arguments after those in `a`. `pending` is an option whose value comes next. -/
def parseFrom (a : Arguments) (pending : Option Taking) :
    List String → Except Interruption Arguments
  | [] => if pending.isSome then .error .misuse else .ok a
  | arg :: rest =>
    match pending with
    | some t =>
      match formOf arg with
      | .operand text =>
        match a.withValue t text with
        | .error i => .error i
        | .ok a => a.parseFrom none rest
      | _ => .error .misuse
    | none =>
      match a.take arg with
      | .done (.error i) => .error i
      | .done (.ok a) => a.parseFrom none rest
      | .wantsValue t => a.parseFrom (some t) rest
      | .operandsFollow => a.parseOperands rest

/-- Understands the arguments of a call. -/
def parse (args : List String) : Except Interruption Arguments :=
  parseFrom {} none args

/-- The output is to be a JSON document. -/
def wantsJson (a : Arguments) : Bool := a.switches.contains .json

/-- The options of a configuration with the switches on top. -/
def options (a : Arguments) (base : Options) : Options := a.switches.foldl Switch.apply base

end Arguments

end EcmaLex.CommandLine
