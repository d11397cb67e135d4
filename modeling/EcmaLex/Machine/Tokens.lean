import EcmaLex.Lexeme.Jsx
import EcmaLex.Lexeme.RegExp
import EcmaLex.Machine.Names
import EcmaLex.Machine.Numbers

/-!
# Tokens on machine words

Punctuators, regular expressions, the tokens of JSX, and the choice among all routines by the unit
at the cursor.
-/

namespace EcmaLex.Routine

open CodePoint (endOfSource)

/-! ## Punctuators -/

/-- A token without a value. -/
def punctuatorLexeme (p : Punctuator) : Lexeme := ⟨.punctuator p, .none⟩

/-- `longer` if `u` stands at the cursor, which is then taken, otherwise `shorter`. -/
def eatOr (u : CodeUnit) (longer shorter : Punctuator) : Routine LexError Punctuator := do
  let taken ← eat u
  return if taken then longer else shorter

/-- After an operator that may be doubled: `twice` and `twiceSet` for the second unit `u` without
and with an equals sign behind it, `onceSet` for an equals sign instead, otherwise `once`. -/
def doubledOr (u : CodeUnit) (twice twiceSet onceSet once : Punctuator) :
    Routine LexError Punctuator := do
  let doubled ← eat u
  if doubled then eatOr (CodeUnit.ofChar '=') twiceSet twice
  else eatOr (CodeUnit.ofChar '=') onceSet once

/-- After `.`. -/
def afterPeriod : Routine LexError Punctuator := do
  let m ← state
  if m.is CodeUnit.period && m.peekIs 1 CodeUnit.period then do
    advanceBy 2
    return .ellipsis
  else return .period

/-- After `?`. -/
def afterQuestion : Routine LexError Punctuator := do
  let doubled ← eat (CodeUnit.ofChar '?')
  if doubled then eatOr (CodeUnit.ofChar '=') .nullishAssign .nullishCoalescing
  else do
    let m ← state
    -- `a?.5:b` is a conditional
    if m.is CodeUnit.period && !m.peek.isUnit CodeUnit.isDecimalDigit then do
      advance
      return .optionalChain
    else return .question

/-- After `<`. -/
def afterLessThan (jsx : Bool) : Routine LexError Punctuator := do
  let doubled ← eat CodeUnit.lessThan
  if doubled then eatOr (CodeUnit.ofChar '=') .leftShiftAssign .leftShift
  else do
    let equal ← eat (CodeUnit.ofChar '=')
    if equal then return .lessThanEqual
    else do
      let m ← state
      -- a slash that begins a comment closes no tag
      if jsx && m.is CodeUnit.slash && !m.peekIs 1 CodeUnit.slash && !m.peekIs 1 CodeUnit.star
      then do
        advance
        return .jsxClosingTagStart
      else return .lessThan

/-- After `>`. -/
def afterGreaterThan : Routine LexError Punctuator := do
  let doubled ← eat (CodeUnit.ofChar '>')
  if doubled then
    doubledOr (CodeUnit.ofChar '>') .unsignedRightShift .unsignedRightShiftAssign
      .rightShiftAssign .rightShift
  else eatOr (CodeUnit.ofChar '=') .greaterThanEqual .greaterThan

/-- After `=`. -/
def afterEquals : Routine LexError Punctuator := do
  let doubled ← eat (CodeUnit.ofChar '=')
  if doubled then eatOr (CodeUnit.ofChar '=') .strictEqual .equal
  else eatOr (CodeUnit.ofChar '>') .arrow .assign

/-- After `!`. -/
def afterBang : Routine LexError Punctuator := do
  let equal ← eat (CodeUnit.ofChar '=')
  if equal then eatOr (CodeUnit.ofChar '=') .strictNotEqual .notEqual else return .bang

/-- After `+` or `-`: the sign again, or an equals sign. -/
def afterSign (u : CodeUnit) (twice onceSet once : Punctuator) :
    Routine LexError Punctuator := do
  let doubled ← eat u
  if doubled then return twice else eatOr (CodeUnit.ofChar '=') onceSet once

/-- The first units of punctuators other than the slash, each with what is tried behind it. -/
def punctuatorChains (jsx : Bool) : List (CodeUnit × Routine LexError Punctuator) :=
  [ (CodeUnit.leftBrace, return .leftBrace),
    (CodeUnit.rightBrace, return .rightBrace),
    (CodeUnit.ofChar '(', return .leftParen),
    (CodeUnit.ofChar ')', return .rightParen),
    (CodeUnit.leftBracket, return .leftBracket),
    (CodeUnit.rightBracket, return .rightBracket),
    (CodeUnit.ofChar ';', return .semicolon),
    (CodeUnit.ofChar ',', return .comma),
    (CodeUnit.ofChar '~', return .tilde),
    (CodeUnit.ofChar ':', return .colon),
    (CodeUnit.period, afterPeriod),
    (CodeUnit.ofChar '?', afterQuestion),
    (CodeUnit.lessThan, afterLessThan jsx),
    (CodeUnit.ofChar '>', afterGreaterThan),
    (CodeUnit.ofChar '=', afterEquals),
    (CodeUnit.ofChar '!', afterBang),
    (CodeUnit.plus, afterSign CodeUnit.plus .increment .plusAssign .plus),
    (CodeUnit.minus, afterSign CodeUnit.minus .decrement .minusAssign .minus),
    (CodeUnit.star, doubledOr CodeUnit.star .exponent .exponentAssign .starAssign .star),
    (CodeUnit.ofChar '%', eatOr (CodeUnit.ofChar '=') .percentAssign .percent),
    (CodeUnit.ofChar '&',
      doubledOr (CodeUnit.ofChar '&') .logicalAnd .logicalAndAssign .ampersandAssign .ampersand),
    (CodeUnit.ofChar '|',
      doubledOr (CodeUnit.ofChar '|') .logicalOr .logicalOrAssign .pipeAssign .pipe),
    (CodeUnit.ofChar '^', eatOr (CodeUnit.ofChar '=') .caretAssign .caret) ]

/-- What is tried behind the first unit `u` of a punctuator, which was taken. -/
def punctuatorAfter (jsx : Bool) (u : CodeUnit) : Option (Routine LexError Punctuator) :=
  (punctuatorChains jsx).lookup u

/-- A punctuator other than a slash. -/
def punctuator (c : Context) : Routine LexError Lexeme := do
  let m ← state
  advance
  match m.current.unit?.bind (punctuatorAfter c.jsx) with
  | some routine => do
    let p ← routine
    return punctuatorLexeme p
  | none => do
    let m' ← state
    failAt (.illegalCharacter m.current.toChar) m'.tokenLocation

/-! ## Regular expressions -/

/-- One unit of a pattern, or two with a backslash; `inClass` tells whether a bracket is open. -/
def patternStep (inClass : Bool) : Routine LexError (Step Bool Unit) := do
  let m ← state
  if m.isAtEnd || m.current.isUnit CodeUnit.isLineTerminator then failHere .unterminatedRegExp
  else if m.is CodeUnit.backslash then do
    advance
    let escaped ← state
    if escaped.isAtEnd || escaped.current.isUnit CodeUnit.isLineTerminator then
      failHere .unterminatedRegExp
    else do
      advance
      return .again inClass
  else if m.is CodeUnit.slash && !inClass then return .done ()
  else do
    advance
    return .again (m.is CodeUnit.leftBracket || (inClass && !m.is CodeUnit.rightBracket))

/-- One more flag. -/
def flagStep (flags : List Char) : Routine LexError (Step (List Char) (List Char)) := do
  let (c, width) ← currentCodePoint
  -- flags are not written with escapes
  if c = CodeUnit.backslash.toNat then failHere (.invalidRegExpFlag '\\')
  else if !c.isIdentifierPart then return .done flags
  else
    let flag := c.toChar
    if !RegExp.isFlag flag then failHere (.invalidRegExpFlag flag)
    else if flags.contains flag then failHere (.duplicateRegExpFlag flag)
    else do
      advanceBy width
      return .again (flags ++ [flag])

/-- The flags of a regular expression. -/
def regExpFlags : Routine LexError (List Char) := do
  let flags ← loop flagStep []
  if flags.contains 'u' && flags.contains 'v' then do
    let m ← state
    failAt .conflictingRegExpFlags m.tokenLocation
  else return flags

/-- A regular expression. What stands at the cursor is taken for its opening slash. -/
def regExp : Routine LexError Lexeme := do
  advance
  let opened ← state
  loop patternStep false
  let pattern ← sliceFrom opened.index
  advance
  let flags ← regExpFlags
  return ⟨.regExpLiteral, .regExp (Utf16.lossy pattern) (String.ofList flags)⟩

/-- After `/`, where it begins no expression. -/
def afterSlash (jsx : Bool) : Routine LexError Punctuator := do
  let assign ← eat (CodeUnit.ofChar '=')
  if assign then return .slashAssign
  else if jsx then eatOr (CodeUnit.ofChar '>') .jsxSelfClosing .slash
  else return .slash

/-- A slash: division, unless an expression may begin here. -/
def slash (c : Context) : Routine LexError Lexeme := do
  if c.allowRegExp then regExp
  else do
    advance
    let p ← afterSlash c.jsx
    return punctuatorLexeme p

/-! ## JSX -/

/-- One unit of the text between tags, or its end. -/
def jsxTextStep (_ : Unit) : Routine LexError (Step Unit Unit) := do
  let m ← state
  if !m.isAtEnd && !m.is CodeUnit.lessThan && !m.is CodeUnit.leftBrace then do
    cross
    return .again ()
  else return .done ()

/-- The next token between tags. -/
def jsxChild : Routine LexError Lexeme := do
  let m ← state
  if m.isAtEnd then return ⟨.eof, .none⟩
  else do
    let tag ← eat CodeUnit.lessThan
    if tag then do
      let closing ← eat CodeUnit.slash
      return punctuatorLexeme (if closing then .jsxClosingTagStart else .lessThan)
    else do
      let brace ← eat CodeUnit.leftBrace
      if brace then return punctuatorLexeme .leftBrace
      else do
        loop jsxTextStep ()
        let text ← sliceFrom m.index
        return ⟨.jsxText, .string text⟩

/-- One hyphen or identifier part of a JSX name. -/
def jsxNameStep (_ : Unit) : Routine LexError (Step Unit Unit) := do
  let (c, width) ← currentCodePoint
  if c == CodeUnit.minus.toNat || c.isIdentifierPart then do
    advanceBy width
    return .again ()
  else return .done ()

/-- A JSX name. -/
def jsxName : Routine LexError Lexeme := do
  let (c, _) ← currentCodePoint
  if !c.isIdentifierStart then illegalCharacter c
  else do
    loop jsxNameStep ()
    -- hyphens and all, the name is the text of the token
    let m ← state
    let name ← slice m.tokenStart m.index
    return ⟨.identifier, .name (Utf16.lossy name)⟩

/-- One unit of a quoted attribute value. -/
def jsxStringStep (quote : CodePoint) (_ : Unit) : Routine LexError (Step Unit Unit) := do
  let m ← state
  if m.current = quote then return .done ()
  else if m.isAtEnd then failHere .unterminatedString
  else do
    cross
    return .again ()

/-- A quoted attribute value, from its opening quote on. -/
def jsxString : Routine LexError Lexeme := do
  let m ← state
  advance
  let opened ← state
  loop (jsxStringStep m.current) ()
  let text ← sliceFrom opened.index
  advance
  return ⟨.stringLiteral, .string text⟩

/-! ## Any token -/

/-- The token at the cursor, where no trivia stands. -/
def token (c : Context) : Routine LexError Lexeme := do
  update Machine.markTokenStart
  let m ← state
  if m.isAtEnd then return ⟨.eof, .none⟩
  else if m.current < 0x80 then
    if m.current.isAsciiIdentifierStart then identifier
    else if m.current.isUnit CodeUnit.isDecimalDigit then number c
    else if m.current.isUnit CodeUnit.isQuote then string c.isStrict
    else if m.is CodeUnit.backtick then do
      advance
      templateSpan c true
    else if m.is CodeUnit.period && m.peek.isUnit CodeUnit.isDecimalDigit then number c
    else if m.is CodeUnit.backslash then identifier
    else if m.is CodeUnit.hash then privateName
    else if m.is CodeUnit.slash then slash c
    else punctuator c
  else do
    let (p, _) ← currentCodePoint
    if p.isIdentifierStart then identifier else illegalCharacter p

end EcmaLex.Routine
