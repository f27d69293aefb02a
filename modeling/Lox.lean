import Lox.Text.Position
import Lox.Text.Utf8
import Lox.Text.Blank
import Lox.Text.CharSet
import Lox.Text.Alphanumeric
import Lox.Text.Visible
import Lox.Decimal.Binary64
import Lox.Decimal.Nearest
import Lox.Decimal.Shortest
import Lox.Decimal.Style
import Lox.Token.Kind
import Lox.Token.Basic
import Lox.Piece
import Lox.Diagnostic
import Lox.Scan
import Lox.Report
import Lox.Json.Record
import Lox.Token.Record
import Lox.Expr.Basic
import Lox.Expr.Postfix
import Lox.Json.Fault
import Lox.Json.Text
import Lox.Json.Number
import Lox.Json.Skip
import Lox.Config.Basic
import Lox.Config.Reader
import Lox.Files.Trouble
import Lox.Files.Path
import Lox.Files.Node
import Lox.Files.Basic
import Lox.Failure
import Lox.Config.Store
import Lox.Log.Level
import Lox.Log.Pattern.Atom
import Lox.Log.Pattern.Class
import Lox.Log.Pattern
import Lox.Log.Directive
import Lox.Log.Filter
import Lox.Log.Event
import Lox.Command.Request
import Lox.Command.Session
import Lox.Command.Run
import Lox.Command.Plan
import Lox.Main
import Lox.Proofs.Cut
import Lox.Proofs.Munch
import Lox.Proofs.Modes
import Lox.Proofs.Route
import Lox.Proofs.Folders
import Lox.Proofs.Runs
import Lox.Proofs.Create
import Lox.Proofs.Content
import Lox.Proofs.Spacing
import Lox.Proofs.LineEnd
import Lox.Proofs.Ascii
import Lox.Proofs.Prompt
import Lox.Proofs.Rounding
import Lox.Proofs.Shortest
import Lox.Proofs.Numeral
import Lox.Proofs.JsonText
import Lox.Proofs.JsonNumber
import Lox.Proofs.JsonValue
import Lox.Proofs.JsonLayout
import Lox.Proofs.JsonEcho
import Lox.Proofs.JsonGrammar
import Lox.Proofs.JsonSkip
import Lox.Proofs.ConfigObject
import Lox.Proofs.ConfigText
import Lox.Proofs.ConfigLayout
import Lox.Proofs.Loading
import Lox.Proofs.Initial
import Lox.Proofs.Lexeme
import Lox.Proofs.Recovery
import Lox.Cursor
import Lox.Cursor.Live
import Lox.Proofs.Cursor
import Lox.Proofs.Totality
import Lox.Proofs.Script
import Lox.Proofs.Ancestors
import Lox.Proofs.Isolation
import Lox.Command.Loop
import Lox.Command.LineBuffer
import Lox.Proofs.Independence
import Lox.Proofs.Adjacent
import Lox.Proofs.TextEcho
import Lox.Proofs.Lookahead
import Lox.Proofs.FullOutput
import Lox.Proofs.Plans
import Lox.Proofs.Renaming
import Lox.Proofs.Trailing
import Lox.Proofs.PrefixForm
import Lox.Proofs.Readability
import Lox.Proofs.Reporters
import Lox.Proofs.Nearest
import Lox.Proofs.NumberLiteral
