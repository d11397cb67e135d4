/-!
# Keywords

The words with a meaning of their own: the reserved words, the words that are reserved in strict
code only, and the contextual words, which are identifiers wherever they have no special place.
-/

namespace EcmaLex

/-- The keywords of the language. -/
inductive Keyword where
  | asKw
  | asyncKw
  | awaitKw
  | breakKw
  | caseKw
  | catchKw
  | classKw
  | constKw
  | continueKw
  | debuggerKw
  | defaultKw
  | deleteKw
  | doKw
  | elseKw
  | enumKw
  | exportKw
  | extendsKw
  | falseKw
  | finallyKw
  | forKw
  | fromKw
  | functionKw
  | getKw
  | ifKw
  | implementsKw
  | importKw
  | inKw
  | instanceofKw
  | interfaceKw
  | letKw
  | newKw
  | nullKw
  | ofKw
  | packageKw
  | privateKw
  | protectedKw
  | publicKw
  | returnKw
  | setKw
  | staticKw
  | superKw
  | switchKw
  | thisKw
  | throwKw
  | trueKw
  | tryKw
  | typeofKw
  | varKw
  | voidKw
  | whileKw
  | withKw
  | yieldKw
  deriving DecidableEq, Repr

namespace Keyword

/-- How a keyword is written. -/
def spelling : Keyword → String
  | asKw => "as"
  | asyncKw => "async"
  | awaitKw => "await"
  | breakKw => "break"
  | caseKw => "case"
  | catchKw => "catch"
  | classKw => "class"
  | constKw => "const"
  | continueKw => "continue"
  | debuggerKw => "debugger"
  | defaultKw => "default"
  | deleteKw => "delete"
  | doKw => "do"
  | elseKw => "else"
  | enumKw => "enum"
  | exportKw => "export"
  | extendsKw => "extends"
  | falseKw => "false"
  | finallyKw => "finally"
  | forKw => "for"
  | fromKw => "from"
  | functionKw => "function"
  | getKw => "get"
  | ifKw => "if"
  | implementsKw => "implements"
  | importKw => "import"
  | inKw => "in"
  | instanceofKw => "instanceof"
  | interfaceKw => "interface"
  | letKw => "let"
  | newKw => "new"
  | nullKw => "null"
  | ofKw => "of"
  | packageKw => "package"
  | privateKw => "private"
  | protectedKw => "protected"
  | publicKw => "public"
  | returnKw => "return"
  | setKw => "set"
  | staticKw => "static"
  | superKw => "super"
  | switchKw => "switch"
  | thisKw => "this"
  | throwKw => "throw"
  | trueKw => "true"
  | tryKw => "try"
  | typeofKw => "typeof"
  | varKw => "var"
  | voidKw => "void"
  | whileKw => "while"
  | withKw => "with"
  | yieldKw => "yield"

/-- All keywords in alphabetical order. -/
def all : List Keyword :=
  [
    asKw, asyncKw, awaitKw, breakKw, caseKw, catchKw, classKw, constKw, continueKw, debuggerKw,
    defaultKw, deleteKw, doKw, elseKw, enumKw, exportKw, extendsKw, falseKw, finallyKw, forKw,
    fromKw, functionKw, getKw, ifKw, implementsKw, importKw, inKw, instanceofKw, interfaceKw,
    letKw, newKw, nullKw, ofKw, packageKw, privateKw, protectedKw, publicKw, returnKw, setKw,
    staticKw, superKw, switchKw, thisKw, throwKw, trueKw, tryKw, typeofKw, varKw, voidKw, whileKw,
    withKw, yieldKw]

/-- The keyword that a word spells. -/
def ofString? (word : String) : Option Keyword := all.find? (·.spelling == word)

/-- Words that only carry meaning in particular positions and are plain identifiers everywhere
else. -/
def isContextual : Keyword → Bool
  | asKw | asyncKw | fromKw | getKw | ofKw | setKw => true
  | _ => false

/-- Words that are reserved in strict code only. -/
def isStrictReserved : Keyword → Bool
  | implementsKw | interfaceKw | letKw | packageKw | privateKw | protectedKw | publicKw | staticKw
  | yieldKw => true
  | _ => false

/-- Whether the word can never name a variable. `await` depends on the goal and on the enclosing
function, so it does not count. -/
def isReserved (strict : Bool) (k : Keyword) : Bool :=
  if k.isContextual || k == awaitKw then false
  else if k.isStrictReserved then strict
  else true

end Keyword

end EcmaLex
