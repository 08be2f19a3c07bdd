import CommandScript.Command.Basic
import CommandScript.Command.OfLine
import CommandScript.Command.Operands
import CommandScript.Command.Record
import CommandScript.Command.Render
import CommandScript.Error
import CommandScript.Line.Basic
import CommandScript.Line.Grouping
import CommandScript.Location
import CommandScript.Numeral
import CommandScript.Outcome
import CommandScript.Script
import CommandScript.Session
import CommandScript.Settings
import CommandScript.Spelling.Quote
import CommandScript.Spelling.Term
import CommandScript.Template
import CommandScript.Text.Charset
import CommandScript.Text.Display
import CommandScript.Text.Printable
import CommandScript.Text.Space
import CommandScript.Token.Basic
import CommandScript.Token.Continuation
import CommandScript.Token.Lexer
import CommandScript.Token.Quoted
import CommandScript.Token.Term
import CommandScript.Proofs.BlankContinuations
import CommandScript.Proofs.CommandTexts
import CommandScript.Proofs.CommandTree
import CommandScript.Proofs.FailurePlaces
import CommandScript.Proofs.FilledTemplates
import CommandScript.Proofs.Indentation
import CommandScript.Proofs.IndentedBreaks
import CommandScript.Proofs.LexemeComposition
import CommandScript.Proofs.LexemeGrammar
import CommandScript.Proofs.LexerOffsets
import CommandScript.Proofs.LexerSteps
import CommandScript.Proofs.LineGrammar
import CommandScript.Proofs.OperandsRoundTrip
import CommandScript.Proofs.Outcome
import CommandScript.Proofs.ParsedCommands
import CommandScript.Proofs.QuotedGrammar
import CommandScript.Proofs.ReadableCommands
import CommandScript.Proofs.Refusals
import CommandScript.Proofs.Relocation
import CommandScript.Proofs.RenderedCommands
import CommandScript.Proofs.ScriptComposition
import CommandScript.Proofs.ScriptGrammar
import CommandScript.Proofs.ScriptReading
import CommandScript.Proofs.ScriptRoundTrip
import CommandScript.Proofs.StructureKept
import CommandScript.Proofs.TermScan
import CommandScript.Proofs.TextComposition
import CommandScript.Proofs.TokenPlaces
import CommandScript.Proofs.Writability
import CommandScript.Proofs.WrittenTerms
import CommandScript.Proofs.NestingLimit
import CommandScript.Proofs.LoneTerms
import CommandScript.Proofs.EarliestFault
import CommandScript.Proofs.BraceBalance
import CommandScript.Proofs.ContinuationPairs
import CommandScript.Proofs.QuotedExtent
import CommandScript.Proofs.WrittenLines
import CommandScript.Proofs.TextLines
import CommandScript.Proofs.SourceLocations
import CommandScript.Proofs.RaisedLimits
import CommandScript.Proofs.WrittenLayout
import CommandScript.Proofs.OperandRoles
import CommandScript.Proofs.PlacelessReading
