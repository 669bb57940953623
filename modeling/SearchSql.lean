import SearchSql.Command.Basic
import SearchSql.Command.Invocation
import SearchSql.Command.Report
import SearchSql.Decimal
import SearchSql.Decimal.Lemmas
import SearchSql.Endpoint
import SearchSql.Expr
import SearchSql.Expr.Grouping
import SearchSql.Expr.QueryString
import SearchSql.Expr.Reading
import SearchSql.Expr.Source
import SearchSql.Json
import SearchSql.Json.Printer
import SearchSql.Keyword
import SearchSql.Literal
import SearchSql.Main
import SearchSql.Manual
import SearchSql.Operator
import SearchSql.Proofs.Compilation
import SearchSql.Proofs.Delivery
import SearchSql.Proofs.Diagnosis
import SearchSql.Proofs.Grammar
import SearchSql.Proofs.Layout
import SearchSql.Proofs.LeftToRight
import SearchSql.Proofs.LetterCase
import SearchSql.Proofs.LineBreak
import SearchSql.Proofs.Lookahead
import SearchSql.Proofs.Numerals
import SearchSql.Proofs.Origin
import SearchSql.Proofs.Parsing
import SearchSql.Proofs.Recognition
import SearchSql.Proofs.Regrouping
import SearchSql.Proofs.Relabeling
import SearchSql.Proofs.RequestIdentity
import SearchSql.Proofs.Resumption
import SearchSql.Proofs.RoundTrip
import SearchSql.Proofs.Segmentation
import SearchSql.Proofs.Simulation
import SearchSql.Proofs.Spelling
import SearchSql.Proofs.TreeIdentity
import SearchSql.Proofs.Trimming
import SearchSql.Proofs.Verbatim
import SearchSql.Proofs.WellFormed
import SearchSql.Reader
import SearchSql.Run
import SearchSql.SearchRequest
import SearchSql.Statement
import SearchSql.Statement.Reading
import SearchSql.Statement.Tree
import SearchSql.Statement.Walking
import SearchSql.SyntaxError
import SearchSql.Text.Class
import SearchSql.Text.Quoted
import SearchSql.Text.Trim
import SearchSql.Token
import SearchSql.Token.Cursor
import SearchSql.Token.Segment
import SearchSql.Walk
