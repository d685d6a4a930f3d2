import SchemaGraft.Document.Fingerprint
import SchemaGraft.Json.Read
import SchemaGraft.Json.Write
import SchemaGraft.Proofs.Bare
import SchemaGraft.Proofs.BareContent
import SchemaGraft.Proofs.BuiltIn
import SchemaGraft.Proofs.Closure
import SchemaGraft.Proofs.DocumentPlaces
import SchemaGraft.Proofs.Equality.Schemas
import SchemaGraft.Proofs.Extension.Assembly
import SchemaGraft.Proofs.Extension.BareRules
import SchemaGraft.Proofs.Extension.Building
import SchemaGraft.Proofs.Extension.Fitting
import SchemaGraft.Proofs.Extension.Grounds
import SchemaGraft.Proofs.Extension.Inquiries
import SchemaGraft.Proofs.Extension.Keys
import SchemaGraft.Proofs.Extension.Laziness
import SchemaGraft.Proofs.Extension.Merge
import SchemaGraft.Proofs.Extension.Moments
import SchemaGraft.Proofs.Extension.Once
import SchemaGraft.Proofs.Extension.Outcome
import SchemaGraft.Proofs.Extension.Planning
import SchemaGraft.Proofs.Extension.Reordering
import SchemaGraft.Proofs.Extension.Requests
import SchemaGraft.Proofs.Extension.ResolverAssignments
import SchemaGraft.Proofs.Extension.Rules
import SchemaGraft.Proofs.Extension.Shapes
import SchemaGraft.Proofs.Extension.Sharing
import SchemaGraft.Proofs.Extension.Sources
import SchemaGraft.Proofs.Extension.Steps
import SchemaGraft.Proofs.Extension.TwoRuns
import SchemaGraft.Proofs.Extension.Types
import SchemaGraft.Proofs.Extension.Unchanged
import SchemaGraft.Proofs.OwnDefinitions
import SchemaGraft.Proofs.Printing.Blocks
import SchemaGraft.Proofs.Printing.Definitions
import SchemaGraft.Proofs.Printing.Documents
import SchemaGraft.Proofs.Printing.Roots
import SchemaGraft.Proofs.Printing.RoundTrip
import SchemaGraft.Proofs.Printing.Schemas
import SchemaGraft.Proofs.Printing.Standalone
import SchemaGraft.Proofs.Reading.Documents
import SchemaGraft.Proofs.Representation
import SchemaGraft.Proofs.Stretches
import SchemaGraft.Session
