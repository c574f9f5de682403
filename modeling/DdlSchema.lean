import DdlSchema.Catalog.Explorer
import DdlSchema.Command.Run
import DdlSchema.Json.Reader
import DdlSchema.Main
import DdlSchema.Proofs.Parser.Select
import DdlSchema.Proofs.Script.RoundTrip
import DdlSchema.Schema.Form
import DdlSchema.Script
import DdlSchema.Proofs.Parser.Fuel
import DdlSchema.Proofs.Parser.Language
import DdlSchema.Proofs.Parser.Keyword
import DdlSchema.Proofs.Sqlite.Rollback
import DdlSchema.Proofs.Sqlite.Presentation
import DdlSchema.Proofs.Catalog.Order
import DdlSchema.Proofs.Catalog.Sort
import DdlSchema.Proofs.Catalog.Lenient
import DdlSchema.Proofs.Command.Parse
import DdlSchema.Proofs.Catalog.Load
import DdlSchema.Proofs.Catalog.Query
import DdlSchema.Proofs.Token.Lexeme
import DdlSchema.Proofs.Statement.Read
import DdlSchema.Proofs.Token.Lexes
import DdlSchema.Proofs.Statement.Tokens
import DdlSchema.Proofs.Statement.Outside
import DdlSchema.Proofs.Statement.Whole
import DdlSchema.Proofs.Statement.Stable
import DdlSchema.Proofs.Script.Split
import DdlSchema.Proofs.Command.Script
import DdlSchema.Proofs.Catalog.Arrange
import DdlSchema.Proofs.Catalog.Cycle
import DdlSchema.Proofs.Schema.Form
import DdlSchema.Proofs.Graph.Quotient
import DdlSchema.Proofs.Mold.Extents
import DdlSchema.Proofs.Token.Geometry
import DdlSchema.Proofs.Token.Separate
import DdlSchema.Proofs.Token.Reach
import DdlSchema.Proofs.Script.Quote
import DdlSchema.Proofs.Script.Identity
import DdlSchema.Proofs.Diagnostic.Highlight
import DdlSchema.Proofs.Graph.Wire
import DdlSchema.Proofs.Graph.Breadth
import DdlSchema.Proofs.Parser.Search
import DdlSchema.Proofs.Sqlite.Vertex
import DdlSchema.Proofs.Parser.Collect
