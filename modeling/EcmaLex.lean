import EcmaLex.Main
import EcmaLex.Session
import EcmaLex.Proofs.Tiling
import EcmaLex.Proofs.Calls
import EcmaLex.Proofs.Gaps
import EcmaLex.Proofs.Recut
import EcmaLex.Proofs.StableReaders
import EcmaLex.Proofs.StableTokens
import EcmaLex.Proofs.Marks
import EcmaLex.Proofs.Printing
import EcmaLex.Proofs.StrictMode
import EcmaLex.Proofs.BracketMatching
import EcmaLex.Proofs.Restoring
import EcmaLex.Proofs.EscapeGrammar
import EcmaLex.Proofs.StringGrammar
import EcmaLex.Proofs.NumberGrammar
import EcmaLex.Proofs.NumberLiterals
import EcmaLex.Proofs.LongestNumbers
import EcmaLex.Proofs.TemplateSearch
import EcmaLex.Proofs.TemplateSpans
import EcmaLex.Proofs.Places
import EcmaLex.Proofs.Fragments
import EcmaLex.Proofs.ExtendedTexts
import EcmaLex.Proofs.LineBreaks
import EcmaLex.Proofs.CursorSafety
import EcmaLex.Proofs.Faults
import EcmaLex.Proofs.ReaderBounds
import EcmaLex.Proofs.OutputFlags
import EcmaLex.Proofs.NumberSpelling
import EcmaLex.Proofs.AddedSyntax
import EcmaLex.Proofs.StreamGoals
import EcmaLex.Proofs.NewLines
import EcmaLex.Proofs.CodePoints
import EcmaLex.Proofs.RegExpLiterals
import EcmaLex.Proofs.IdentifierGrammar
import EcmaLex.Proofs.HtmlClosing
import EcmaLex.Proofs.Rounding
import EcmaLex.Proofs.NumeralValues
import EcmaLex.Proofs.NumberValues
import EcmaLex.Proofs.BigIntLiterals
import EcmaLex.Proofs.FlagMeanings
import EcmaLex.Proofs.JsxNames
import EcmaLex.Proofs.LongestPunctuators
import EcmaLex.Proofs.SurrogatePairs
import EcmaLex.Proofs.KeptTexts
import EcmaLex.Proofs.BlamedPlaces
import EcmaLex.Proofs.CodePointSets
import EcmaLex.Proofs.EscapeNumbers
import EcmaLex.Proofs.JsxText
import EcmaLex.Proofs.Listing
import EcmaLex.Machine.Basic
import EcmaLex.Machine.Calls
import EcmaLex.Proofs.Refinement.Escapes
import EcmaLex.Proofs.Refinement.Literals
import EcmaLex.Proofs.Refinement.Names
import EcmaLex.Proofs.Refinement.Numbers
import EcmaLex.Proofs.Refinement.Punctuators
import EcmaLex.Proofs.Refinement.Tokens
import EcmaLex.Proofs.Refinement.Trivia
import EcmaLex.Proofs.Refinement.Calls
import EcmaLex.Proofs.Refinement.Sessions
import EcmaLex.Proofs.Refinement.EscapeValues
import EcmaLex.Proofs.Refinement.Lexemes
