import StreamSql.Alias
import StreamSql.Calendar
import StreamSql.Command
import StreamSql.Command.Help
import StreamSql.Command.Run
import StreamSql.Command.Table
import StreamSql.Command.Usage
import StreamSql.Config
import StreamSql.Decimal
import StreamSql.Double.Basic
import StreamSql.Double.Shortest
import StreamSql.Entity
import StreamSql.Entity.Create
import StreamSql.Entity.Form
import StreamSql.Entity.Insert
import StreamSql.Error
import StreamSql.Expr
import StreamSql.Expr.Compile
import StreamSql.Expr.Fold
import StreamSql.Expr.Form
import StreamSql.Expr.Scope
import StreamSql.Function
import StreamSql.Json.Basic
import StreamSql.Json.Number
import StreamSql.Json.Parser
import StreamSql.Json.Printer
import StreamSql.Json.Record
import StreamSql.Json.Token
import StreamSql.Main
import StreamSql.Naming
import StreamSql.Power
import StreamSql.Query
import StreamSql.Query.Form
import StreamSql.Query.Select
import StreamSql.Request
import StreamSql.Response.Frame
import StreamSql.Response.Header
import StreamSql.Response.Line
import StreamSql.Response.Rows
import StreamSql.Schema
import StreamSql.Schema.Form
import StreamSql.Schema.RowType
import StreamSql.Subscription
import StreamSql.Text
import StreamSql.Text.Upper
import StreamSql.Text.Utf8
import StreamSql.Toml.Basic
import StreamSql.Toml.Document
import StreamSql.Toml.Quoted
import StreamSql.Toml.Word
import StreamSql.Value
import StreamSql.Value.Form
import StreamSql.Value.Literal
import StreamSql.Proofs.Reading.Term
import StreamSql.Proofs.Reading.Reads
import StreamSql.Proofs.Expr.Arithmetic
import StreamSql.Proofs.Expr.Fold
import StreamSql.Proofs.Query.Capture
import StreamSql.Proofs.Double.Shortest
import StreamSql.Proofs.Value.Numeral
import StreamSql.Proofs.Reading.Literal
import StreamSql.Proofs.Expr.Condition
import StreamSql.Proofs.Query.Conditions
import StreamSql.Proofs.Expr.Widen
import StreamSql.Proofs.Query.KeyExpr
import StreamSql.Proofs.Query.KeyParens
import StreamSql.Proofs.Query.KeyConstant
import StreamSql.Proofs.Query.GroupKey
import StreamSql.Proofs.Expr.FactorOrder
import StreamSql.Proofs.Response.Decode
import StreamSql.Proofs.Subscription.Calls
import StreamSql.Proofs.Response.Brackets
import StreamSql.Proofs.Schema.TypeText
import StreamSql.Proofs.Response.Schema
import StreamSql.Proofs.Response.Frame
import StreamSql.Proofs.Response.Formats
import StreamSql.Proofs.Alias
import StreamSql.Proofs.Query.Joins
import StreamSql.Proofs.Expr.Visit
import StreamSql.Proofs.Expr.Reach
import StreamSql.Proofs.Expr.Occurrence
import StreamSql.Proofs.Query.Chain
import StreamSql.Proofs.Query.Visit
import StreamSql.Proofs.Query.Grouping
import StreamSql.Proofs.Text.Sealed
import StreamSql.Proofs.Value.Plain
import StreamSql.Proofs.Naming
import StreamSql.Proofs.Expr.Plain
import StreamSql.Proofs.Query.Columns
import StreamSql.Proofs.Expr.WireName
import StreamSql.Proofs.Entity.Name
import StreamSql.Proofs.Entity.Placement
import StreamSql.Proofs.Json.Number
import StreamSql.Proofs.Json.Text
import StreamSql.Proofs.Json.Record
import StreamSql.Proofs.Value.Form
import StreamSql.Proofs.Schema.Form
import StreamSql.Proofs.Expr.Form
import StreamSql.Proofs.Query.Form
import StreamSql.Proofs.Entity.Form
import StreamSql.Proofs.Json.RoundTrip
import StreamSql.Proofs.Expr.Segment
import StreamSql.Proofs.Expr.Descent
import StreamSql.Proofs.Text.Comment
import StreamSql.Proofs.Expr.Comment
import StreamSql.Proofs.Text.Template
import StreamSql.Proofs.Expr.Argument
import StreamSql.Proofs.Expr.Blank
import StreamSql.Proofs.Query.Segment
import StreamSql.Proofs.Query.Written
import StreamSql.Proofs.Text.Renaming
import StreamSql.Proofs.Expr.Rename
import StreamSql.Proofs.Expr.Renamed
import StreamSql.Proofs.Expr.Invariant
import StreamSql.Proofs.Expr.InvariantCall
import StreamSql.Proofs.Query.Rename
import StreamSql.Proofs.Query.Renamed
import StreamSql.Proofs.Text.Like
import StreamSql.Proofs.Expr.StringTest
import StreamSql.Proofs.Expr.Casing
import StreamSql.Proofs.Query.KeyUse
import StreamSql.Proofs.Reading.Chain
import StreamSql.Proofs.Expr.Relation
import StreamSql.Proofs.Reading.Formula
import StreamSql.Proofs.Reading.Meaning
import StreamSql.Proofs.Reading.Constant
import StreamSql.Proofs.Expr.Predicate
import StreamSql.Proofs.Expr.Constructor
import StreamSql.Proofs.Calendar
import StreamSql.Proofs.Entity.Shape
import StreamSql.Proofs.Json.Members
import StreamSql.Proofs.Value.Moment
import StreamSql.Proofs.Value.Kind
import StreamSql.Proofs.Entity.Values
import StreamSql.Proofs.Entity.Moments
import StreamSql.Proofs.Value.Number
import StreamSql.Proofs.Entity.Numbers
import StreamSql.Proofs.Schema.Shown
import StreamSql.Proofs.Value.Legible
import StreamSql.Proofs.Entity.EmptyArray
import StreamSql.Proofs.Json.Object
import StreamSql.Proofs.Response.Layout
import StreamSql.Proofs.Response.Control
import StreamSql.Proofs.Response.Refusal
import StreamSql.Proofs.Value.Inferred
import StreamSql.Proofs.Text.Bytes
import StreamSql.Proofs.Naming.Lowering
import StreamSql.Proofs.Naming.Ending
import StreamSql.Proofs.Naming.Plural
import StreamSql.Proofs.Naming.LastWord
import StreamSql.Proofs.Naming.Casing
import StreamSql.Proofs.Naming.Bytes
import StreamSql.Proofs.Response.Bytes
