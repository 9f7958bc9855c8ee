import XevXml.Core.Replace
import XevXml.Core.Numeral
import XevXml.Core.Slots
import XevXml.Core.Table
import XevXml.Dom.Entity
import XevXml.Dom.Xml
import XevXml.Ast.Carriers
import XevXml.Ast.Literal
import XevXml.Ast.Value
import XevXml.Ast.Syntax
import XevXml.Ast.Write
import XevXml.Ast.Read
import XevXml.Ast.RoundTrip
import XevXml.Ast.Normal
import XevXml.Ast.Views
import XevXml.Ast.Survival
import XevXml.Ast.IoStatement
import XevXml.Ast.Statement
import XevXml.Ast.Control
import XevXml.Core.Progression
import XevXml.Core.Grid
import XevXml.Core.Matching
import XevXml.Trans.Select
import XevXml.Trans.Loop
import XevXml.Trans.StripMining
import XevXml.Trans.Tile
import XevXml.Trans.Reversal
import XevXml.Trans.Interchange
import XevXml.Trans.Nest
import XevXml.Trans.Permute
import XevXml.Trans.Fission
import XevXml.Trans.Position
import XevXml.Trans.Skewing
import XevXml.Trans.Stride
import XevXml.Trans.Flow
import XevXml.Trans.Inversion
import XevXml.Trans.Unswitching
import XevXml.Trans.Same
import XevXml.Trans.Unroll
import XevXml.Trans.Jam
import XevXml.Trans.Collapse
import XevXml.Core.Fuel
import XevXml.Core.Quoting
import XevXml.Tools.Cell
import XevXml.Tools.Contains
import XevXml.Tools.Langstr
import XevXml.Tools.XmlText
import XevXml.Tools.Pragma
import XevXml.Tools.Block
import XevXml.Tools.BlockBack
import XevXml.Tools.Continu.Line
import XevXml.Tools.Continu.Distribute
import XevXml.Tools.Continu.Concat
import XevXml.Tools.Continu.Free
import XevXml.Tools.Continu.Fixed
import XevXml.Tools.Carried
import XevXml.Tools.Spelling
import XevXml.Tools.Comments
import XevXml.Core.XPath
import XevXml.Tools.Passes.Before
import XevXml.Tools.Passes.After
import XevXml.Tools.Passes.Backquote
import XevXml.Tools.Passes.Kept
import XevXml.Tools.Passes.KeptBack
import XevXml.Tools.Passes.StringPragma
import XevXml.Tools.Tgen.Context
import XevXml.Tools.Tgen.Flags
import XevXml.Tools.Tgen.Directive
import XevXml.Tools.Tgen.Numbering
import XevXml.Tools.Passes.Codes
import XevXml.Tools.Passes.Renamed
import XevXml.Ast.Texts
import XevXml.Ast.DataStatement
import XevXml.Ast.ScopeStack
import XevXml.Trans.ByName
import XevXml.Trans.Fresh
import XevXml.Trans.Copies
import XevXml.Trans.Commute
import XevXml.Core.Terms
import XevXml.Ast.Mangled
import XevXml.Ast.Preproc
import XevXml.Ast.Continued
import XevXml.Dom.Tag
import XevXml.Ast.Attributes
import XevXml.Trans.Fusion
import XevXml.Trans.Undo
import XevXml.Trans.Directive
import XevXml.Core.Trim
import XevXml.Tools.Indent
import XevXml.Tools.Passes.PpInfo
import XevXml.Tools.Tgen.Varformat
import XevXml.Ast.Accesses
import XevXml.Ast.Protected
import XevXml.Tools.Vardec.Nested
import XevXml.Tools.Vardec.Modifiers
import XevXml.Tools.Vardec.Declaration
import XevXml.Tools.Vardec.GivenBack
import XevXml.Core.Escape
import XevXml.Core.Buffer
import XevXml.Tools.StringF
import XevXml.Ast.AlternateReturn
import XevXml.Dom.EntityResolver
import XevXml.Dom.FindFilename
import XevXml.Core.Intern
import XevXml.Core.Chain
import XevXml.Tools.Strobj
import XevXml.Core.Bits
import XevXml.Ast.Modifier
import XevXml.Tools.StringC
import XevXml.Tools.Passes.Placeholders
import XevXml.Tools.Passes.Expressions
import XevXml.Tools.Passes.Taken
import XevXml.Tools.Passes.Enough
import XevXml.Tools.Passes.InlineCode
import XevXml.Tools.Passes.InPlace
import XevXml.Core.Location
import XevXml.Tools.Tgen.Pattern
import XevXml.Tools.Tgen.Fits
import XevXml.Tools.Tgen.Output
import XevXml.Core.Lookback
import XevXml.Tools.Tgen.Rewrite
import XevXml.Core.Stylesheet
import XevXml.Xsltgen.Generate
import XevXml.Xsltgen.Directive
import XevXml.Xsltgen.Legible
import XevXml.Xsltgen.Dispatch
