import TypeDoctrine.Allowance
import TypeDoctrine.Analyzer
import TypeDoctrine.Capability
import TypeDoctrine.Catalogue
import TypeDoctrine.Check
import TypeDoctrine.Codec.Declaration
import TypeDoctrine.Codec.Registry
import TypeDoctrine.Codec.Report
import TypeDoctrine.Config
import TypeDoctrine.Config.Reader
import TypeDoctrine.Declaration
import TypeDoctrine.FileTree
import TypeDoctrine.GenericName
import TypeDoctrine.Host
import TypeDoctrine.Json.Reader
import TypeDoctrine.Json.Record
import TypeDoctrine.Json.Value
import TypeDoctrine.Json.Writer
import TypeDoctrine.Location
import TypeDoctrine.Log
import TypeDoctrine.Number.Binary64
import TypeDoctrine.Number.Shortest
import TypeDoctrine.Preset
import TypeDoctrine.Registry
import TypeDoctrine.Report
import TypeDoctrine.Rule
import TypeDoctrine.Rules.Builder
import TypeDoctrine.Rules.Envelope
import TypeDoctrine.Rules.ErrorInfo
import TypeDoctrine.Rules.Immutability
import TypeDoctrine.Rules.RequiredProperties
import TypeDoctrine.Rules.Stateless
import TypeDoctrine.Rules.Success
import TypeDoctrine.Severity
import TypeDoctrine.Source.Identifiers
import TypeDoctrine.Source.Interpolation
import TypeDoctrine.Source.Literal
import TypeDoctrine.Source.Token
import TypeDoctrine.Template
import TypeDoctrine.Text.Ascii
import TypeDoctrine.Text.Blank
import TypeDoctrine.Text.Decimal
import TypeDoctrine.Text.Word
import TypeDoctrine.Toml.Document
import TypeDoctrine.Toml.Moment
import TypeDoctrine.Toml.Number
import TypeDoctrine.Toml.Quoted
import TypeDoctrine.Toml.Table
import TypeDoctrine.Toml.Value
import TypeDoctrine.Violation
import TypeDoctrine.Proofs.Classification
import TypeDoctrine.Proofs.PresetRules
import TypeDoctrine.Proofs.Doctrine
import TypeDoctrine.Proofs.AnalysisOrder
import TypeDoctrine.Proofs.Suppression
import TypeDoctrine.Proofs.Source.Expansion
import TypeDoctrine.Proofs.Source.Snippet
import TypeDoctrine.Proofs.Verdict
import TypeDoctrine.Proofs.InterfaceGrowth
import TypeDoctrine.Proofs.Strictness
import TypeDoctrine.Proofs.ConfigLocality
import TypeDoctrine.Proofs.Batches
import TypeDoctrine.Proofs.MissingProperties
import TypeDoctrine.Proofs.Json.RoundTrip
import TypeDoctrine.Proofs.Json.Spelling
import TypeDoctrine.Proofs.DeclarationSpelling
import TypeDoctrine.Proofs.ReportReading
import TypeDoctrine.Proofs.DisplayName
import TypeDoctrine.Proofs.TypeArguments
import TypeDoctrine.Proofs.Source.Verbatim
import TypeDoctrine.Proofs.TemplateReading
import TypeDoctrine.Proofs.ViolationForm
import TypeDoctrine.Proofs.Source.Nesting
import TypeDoctrine.Proofs.Source.Break
import TypeDoctrine.Proofs.Source.Comment
import TypeDoctrine.Proofs.InterfaceSets
import TypeDoctrine.Proofs.Source.Copying
import TypeDoctrine.Proofs.Source.Position
import TypeDoctrine.Proofs.Source.Bytes
