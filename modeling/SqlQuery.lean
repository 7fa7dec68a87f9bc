import SqlQuery.CommandLine
import SqlQuery.Dialect
import SqlQuery.Error
import SqlQuery.Grammar
import SqlQuery.Grammar.Base
import SqlQuery.Grammar.Extension
import SqlQuery.Grammar.Statement
import SqlQuery.Json
import SqlQuery.Keyword
import SqlQuery.Main
import SqlQuery.Node
import SqlQuery.Node.Construction
import SqlQuery.Node.Document
import SqlQuery.Node.Equality
import SqlQuery.Node.Fold
import SqlQuery.Node.Outline
import SqlQuery.Node.Render
import SqlQuery.Number.Binary64
import SqlQuery.Number.Decimal
import SqlQuery.Number.Power
import SqlQuery.Number.Shortest
import SqlQuery.Number.Style
import SqlQuery.Parser
import SqlQuery.Precedence
import SqlQuery.Proofs.Aliases
import SqlQuery.Proofs.Comments
import SqlQuery.Proofs.Comparison
import SqlQuery.Proofs.Completeness
import SqlQuery.Proofs.Conservativity
import SqlQuery.Proofs.Cursor
import SqlQuery.Proofs.Cutting
import SqlQuery.Proofs.Derivation
import SqlQuery.Proofs.Descent
import SqlQuery.Proofs.Dispatch
import SqlQuery.Proofs.Distinction
import SqlQuery.Proofs.DocumentText
import SqlQuery.Proofs.ErrorPlaces
import SqlQuery.Proofs.Extensions
import SqlQuery.Proofs.FloatText
import SqlQuery.Proofs.Fluency
import SqlQuery.Proofs.Framing
import SqlQuery.Proofs.Grouping
import SqlQuery.Proofs.InStep
import SqlQuery.Proofs.KeywordRules
import SqlQuery.Proofs.Leaves
import SqlQuery.Proofs.Legibility
import SqlQuery.Proofs.LetterCase
import SqlQuery.Proofs.Lexemes
import SqlQuery.Proofs.LexicalErrors
import SqlQuery.Proofs.LongestMatch
import SqlQuery.Proofs.NameText
import SqlQuery.Proofs.NumberForms
import SqlQuery.Proofs.NumberText
import SqlQuery.Proofs.OperatorOrder
import SqlQuery.Proofs.OperatorText
import SqlQuery.Proofs.OutlineText
import SqlQuery.Proofs.Partition
import SqlQuery.Proofs.Passage
import SqlQuery.Proofs.Passing
import SqlQuery.Proofs.Phrases
import SqlQuery.Proofs.Pieces
import SqlQuery.Proofs.Places
import SqlQuery.Proofs.Progress
import SqlQuery.Proofs.QuotedText
import SqlQuery.Proofs.Reading
import SqlQuery.Proofs.Respelling
import SqlQuery.Proofs.Rewriting
import SqlQuery.Proofs.RoundTrip
import SqlQuery.Proofs.Rounding
import SqlQuery.Proofs.RuleOrder
import SqlQuery.Proofs.RuleUnion
import SqlQuery.Proofs.Runs
import SqlQuery.Proofs.ScalarText
import SqlQuery.Proofs.Scanners
import SqlQuery.Proofs.Shape
import SqlQuery.Proofs.Soundness
import SqlQuery.Proofs.Stratification
import SqlQuery.Proofs.Termination
import SqlQuery.Proofs.Traversal
import SqlQuery.Proofs.UpperCase
import SqlQuery.Proofs.Viability
import SqlQuery.Proofs.ViablePrefix
import SqlQuery.Proofs.Writing
import SqlQuery.Span
import SqlQuery.Text.Alphabetic
import SqlQuery.Text.Combining
import SqlQuery.Text.Numeric
import SqlQuery.Text.Quoted
import SqlQuery.Text.RangeTable
import SqlQuery.Text.Unprintable
import SqlQuery.Text.Word
import SqlQuery.Token
import SqlQuery.Token.Lexer
import SqlQuery.Token.Literal
import SqlQuery.Token.Name
import SqlQuery.Token.Rule
import SqlQuery.Token.RuleSet
import SqlQuery.Token.Variable
