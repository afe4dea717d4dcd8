import MdxPages.Text.Case
import MdxPages.Json.Reader
import MdxPages.Json.Writer
import MdxPages.Tree.Content
import MdxPages.Tree.Json
import MdxPages.Tree.Normal
import MdxPages.Tree.Validation
import MdxPages.Options.Archive
import MdxPages.Options.Conversion
import MdxPages.Mdx.Render
import MdxPages.Mdx.Renderer
import MdxPages.Path.Asset
import MdxPages.Frontmatter
import MdxPages.Source.Kind
import MdxPages.Source.Fields
import MdxPages.Log
import MdxPages.Convert.Pass
import MdxPages.References.Module
import MdxPages.Package.Requirement
import MdxPages.Cli.Arguments
import MdxPages.Cli.Settings
import MdxPages.Disk.Location
import MdxPages.Disk.Basic
import MdxPages.Disk.Walk
import MdxPages.Disk.Access
import MdxPages.Bytes.Basic
import MdxPages.Bytes.Base64
import MdxPages.Bytes.Checksum
import MdxPages.Zip.Inflate
import MdxPages.Zip.Reader
import MdxPages.Bson.Scalar
import MdxPages.Bson.Reader
import MdxPages.Archive.Document
import MdxPages.Archive.Safety
import MdxPages.Site.Work
import MdxPages.Site.Registry
import MdxPages.Site.Page
import MdxPages.Site.PageFile
import MdxPages.Archive.Reading
import MdxPages.Site.ArchiveFile
import MdxPages.Value.Moment
import MdxPages.Toml.Token
import MdxPages.Toml.Reader
import MdxPages.Text.Scan
import MdxPages.Yaml.Cursor
import MdxPages.Yaml.Plain
import MdxPages.Yaml.Quoted
import MdxPages.Yaml.Block
import MdxPages.Yaml.Property
import MdxPages.Yaml.Token
import MdxPages.Yaml.Token.Lexer
import MdxPages.Yaml.Tag
import MdxPages.Yaml.Node
import MdxPages.Yaml.Node.Reader
import MdxPages.Yaml.Scalar
import MdxPages.Yaml.Tree
import MdxPages.Yaml.Denotation
import MdxPages.Yaml.Reader
import MdxPages.Config.Loading
import MdxPages.Log.Setup
import MdxPages.Cli.Command
import MdxPages.Main
import MdxPages.Proofs.Convert.Account
import MdxPages.Proofs.Convert.Follows
import MdxPages.Proofs.Convert.Handling
import MdxPages.Proofs.Convert.Pass
import MdxPages.Proofs.Convert.Closure
import MdxPages.Proofs.Entries
import MdxPages.Proofs.Results
import MdxPages.Proofs.Convert.Production
import MdxPages.Proofs.Convert.Imports
import MdxPages.Proofs.Convert.Storage
import MdxPages.Proofs.Convert.Stumbling
import MdxPages.Proofs.Convert.Inclusion
import MdxPages.Proofs.Convert.Isolation
import MdxPages.Proofs.Convert.Order
import MdxPages.Proofs.Convert.Meets
import MdxPages.Proofs.Convert.PlainText
import MdxPages.Proofs.Mdx.Render
import MdxPages.Proofs.Tree.Typed
import MdxPages.Proofs.Convert.Yields
import MdxPages.Proofs.Convert.Typing
import MdxPages.Proofs.Tree.NormalForm
import MdxPages.Proofs.Tree.Wrapping
import MdxPages.Proofs.Value
import MdxPages.Proofs.Json.RoundTrip
import MdxPages.Proofs.Json.Writable
import MdxPages.Tree.JsonText
import MdxPages.Proofs.Tree.Serialization
import MdxPages.Proofs.References.Literal
import MdxPages.Proofs.References.Pattern
import MdxPages.Proofs.References.Module
import MdxPages.Proofs.Bytes
import MdxPages.Proofs.Disk.Walk
import MdxPages.Proofs.References.Kept
import MdxPages.Proofs.Disk.Access
import MdxPages.Proofs.Site.Work
import MdxPages.Proofs.Site.Registry
import MdxPages.Proofs.References.Canonical
import MdxPages.Proofs.Site.Runs
import MdxPages.Proofs.Frontmatter.Block
import MdxPages.Proofs.Frontmatter.ReadBack
import MdxPages.Proofs.Site.ArchiveFile
import MdxPages.Proofs.Archive.Safety
import MdxPages.Proofs.Convert.Emission
import MdxPages.Proofs.Site.Written
import MdxPages.Proofs.Site.Extraction
import MdxPages.Proofs.Site.Assets
import MdxPages.Proofs.Cli.Given
import MdxPages.Proofs.Cli.Priority
import MdxPages.Proofs.Site.PageFile
import MdxPages.Proofs.Config.Loading
import MdxPages.Proofs.Config.Search
import MdxPages.Proofs.Cli.Settings
import MdxPages.Proofs.Cli.Configuring
import MdxPages.Proofs.Cli.Command
import MdxPages.Proofs.Site.Tally
import MdxPages.Proofs.Text.Pieces
import MdxPages.Proofs.Path.Segments
import MdxPages.Proofs.Path.Resolution
import MdxPages.Proofs.Path.Placement
import MdxPages.Proofs.Path.Script
import MdxPages.Proofs.Convert.ImportBlock
import MdxPages.Proofs.Convert.Headings
import MdxPages.Proofs.Convert.Shape
import MdxPages.Proofs.Mdx.Fence
import MdxPages.Proofs.Text.Ends
import MdxPages.Proofs.Text.Margin
import MdxPages.Proofs.Mdx.Document
import MdxPages.Proofs.Mdx.Nesting
import MdxPages.Proofs.Mdx.CodeSpan
import MdxPages.Proofs.Mdx.Items
import MdxPages.Proofs.Mdx.Renderer
import MdxPages.Proofs.Mdx.Attributes
import MdxPages.Proofs.Mdx.Destination
import MdxPages.Proofs.References.Collection
import MdxPages.Proofs.References.Keys
import MdxPages.Proofs.Options.Usable
import MdxPages.Proofs.Tree.Validation
import MdxPages.Proofs.References.Capture
import MdxPages.Proofs.Archive.Naming
import MdxPages.Proofs.Site.Acceptance
import MdxPages.Proofs.Site.Reported
import MdxPages.Proofs.Mdx.Escape
import MdxPages.Proofs.Tree.Removal
