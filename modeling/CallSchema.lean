import CallSchema.Arguments
import CallSchema.Comment
import CallSchema.Entries
import CallSchema.Error
import CallSchema.Expansion
import CallSchema.FileTree
import CallSchema.Go.Attachment
import CallSchema.Go.Declaration
import CallSchema.Go.Grammar
import CallSchema.Go.Letter
import CallSchema.Go.Lexeme
import CallSchema.Go.Lexeme.Literal
import CallSchema.Go.Rule
import CallSchema.Go.Syntax
import CallSchema.Go.Type
import CallSchema.Json
import CallSchema.Json.Reader
import CallSchema.Load
import CallSchema.Lookup
import CallSchema.Main
import CallSchema.Package
import CallSchema.Policy
import CallSchema.Resolve
import CallSchema.Run
import CallSchema.Schema.Definition
import CallSchema.Schema.Document
import CallSchema.Settings
import CallSchema.Settings.Value
import CallSchema.Settings.Variable
import CallSchema.Tag
import CallSchema.Tag.Literal
import CallSchema.Tag.Pair
import CallSchema.Tag.Scanner
import CallSchema.Text.Blank
import CallSchema.Text.Digit
import CallSchema.Text.Pieces
import CallSchema.Toml
import CallSchema.Toml.Document
import CallSchema.Toml.Scalar
import CallSchema.TypeExpr
import CallSchema.Proofs.Outcome
import CallSchema.Proofs.Parameters
import CallSchema.Proofs.Nodes
import CallSchema.Proofs.Subterms
import CallSchema.Proofs.Substitution
import CallSchema.Proofs.Descent
import CallSchema.Proofs.Unguarded
import CallSchema.Proofs.Reading
import CallSchema.Proofs.Paths
import CallSchema.Proofs.Cuts
import CallSchema.Proofs.Chains
import CallSchema.Proofs.Faults
import CallSchema.Proofs.Policies
import CallSchema.Proofs.Renaming
import CallSchema.Proofs.Alike
import CallSchema.Proofs.Hygiene
import CallSchema.Proofs.Scopes
import CallSchema.Proofs.Stack
import CallSchema.Proofs.Independence
import CallSchema.Proofs.JsonText
import CallSchema.Proofs.RoundTrip
import CallSchema.Proofs.Instances
import CallSchema.Proofs.Units
import CallSchema.Proofs.Attribution
import CallSchema.Proofs.Spelling
import CallSchema.Proofs.Escapes
import CallSchema.Proofs.TagText
import CallSchema.Proofs.TagParts
import CallSchema.Proofs.EnumValues
import CallSchema.Proofs.Structs
import CallSchema.Proofs.Tables
import CallSchema.Proofs.Layers
import CallSchema.Proofs.Growth
import CallSchema.Proofs.Endless
import CallSchema.Proofs.FileTrees
import CallSchema.Proofs.Runs
import CallSchema.Proofs.Histories
import CallSchema.Proofs.Descriptions
import CallSchema.Proofs.Extraction
import CallSchema.Proofs.Legible
import CallSchema.Proofs.Loading
import CallSchema.Proofs.Writing
import CallSchema.Proofs.Precedence
import CallSchema.Proofs.Scanning
