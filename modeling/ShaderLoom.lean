import ShaderLoom.Backend.Options
import ShaderLoom.Backend.OptionsText
import ShaderLoom.Backend.Sanitize
import ShaderLoom.Backend.Version
import ShaderLoom.Command.Environment
import ShaderLoom.Command.Flags
import ShaderLoom.Command.Host
import ShaderLoom.Command.Run
import ShaderLoom.Command.Scratch
import ShaderLoom.Command.Watch
import ShaderLoom.Copy.Engine
import ShaderLoom.Copy.Session
import ShaderLoom.Decimal.Binary64
import ShaderLoom.Decimal.Reading
import ShaderLoom.Decimal.Shortest
import ShaderLoom.Document.Decode
import ShaderLoom.Document.Encode
import ShaderLoom.Document.Kind
import ShaderLoom.Document.Misfit
import ShaderLoom.Document.Reader
import ShaderLoom.Document.Record
import ShaderLoom.Document.Writer
import ShaderLoom.Json.Problem
import ShaderLoom.Json.Reader
import ShaderLoom.Json.Value
import ShaderLoom.Json.Writer
import ShaderLoom.Main
import ShaderLoom.Meaning.Behavior
import ShaderLoom.Meaning.CallGraph
import ShaderLoom.Meaning.Facts
import ShaderLoom.Meaning.Module
import ShaderLoom.Meaning.Resolver
import ShaderLoom.Meaning.Statement
import ShaderLoom.Meaning.Tags
import ShaderLoom.Meaning.Ty
import ShaderLoom.Meaning.Typing
import ShaderLoom.Pass.Data
import ShaderLoom.Pass.EntryPoint
import ShaderLoom.Pass.FirstIndex
import ShaderLoom.Pass.Hoist
import ShaderLoom.Pass.Pass
import ShaderLoom.Pass.Pipeline
import ShaderLoom.Pass.Planes
import ShaderLoom.Pass.Promote
import ShaderLoom.Pass.Rebind
import ShaderLoom.Pass.Rename
import ShaderLoom.Pass.Reserved
import ShaderLoom.Pass.Shuffle
import ShaderLoom.Pass.Unreachable
import ShaderLoom.Pass.Workgroups
import ShaderLoom.Patch.Edit
import ShaderLoom.Patch.Hunk
import ShaderLoom.Print.Shader
import ShaderLoom.Program
import ShaderLoom.Proofs.Build
import ShaderLoom.Proofs.Copy.Account
import ShaderLoom.Proofs.Copy.Declarations
import ShaderLoom.Proofs.Copy.Engine
import ShaderLoom.Proofs.Copy.Families
import ShaderLoom.Proofs.Copy.Frame
import ShaderLoom.Proofs.Copy.Identity
import ShaderLoom.Proofs.Copy.Lists
import ShaderLoom.Proofs.Copy.Marks
import ShaderLoom.Proofs.Copy.Refusal
import ShaderLoom.Proofs.Copy.Regime
import ShaderLoom.Proofs.Copy.Register
import ShaderLoom.Proofs.Copy.Splice
import ShaderLoom.Proofs.Decimal.Shortest
import ShaderLoom.Proofs.Document.Acceptance
import ShaderLoom.Proofs.Document.Places
import ShaderLoom.Proofs.Meaning.Complete
import ShaderLoom.Proofs.Meaning.Ends
import ShaderLoom.Proofs.Meaning.Findings
import ShaderLoom.Proofs.Meaning.Flow
import ShaderLoom.Proofs.Meaning.Heads
import ShaderLoom.Proofs.Meaning.Kin
import ShaderLoom.Proofs.Meaning.Kinship
import ShaderLoom.Proofs.Meaning.Links
import ShaderLoom.Proofs.Meaning.Mentions
import ShaderLoom.Proofs.Meaning.ModuleTypes
import ShaderLoom.Proofs.Meaning.OnceRecorded
import ShaderLoom.Proofs.Meaning.Parallel
import ShaderLoom.Proofs.Meaning.Products
import ShaderLoom.Proofs.Meaning.Reachable
import ShaderLoom.Proofs.Meaning.Recorded
import ShaderLoom.Proofs.Meaning.Respelling
import ShaderLoom.Proofs.Meaning.SameShapes
import ShaderLoom.Proofs.Meaning.Uses
import ShaderLoom.Proofs.Parents
import ShaderLoom.Proofs.Pass.Builtins
import ShaderLoom.Proofs.Pass.Collisions
import ShaderLoom.Proofs.Pass.Constructors
import ShaderLoom.Proofs.Pass.Idle
import ShaderLoom.Proofs.Pass.Loops
import ShaderLoom.Proofs.Pass.Orderly
import ShaderLoom.Proofs.Pass.Orders
import ShaderLoom.Proofs.Pass.Pipeline
import ShaderLoom.Proofs.Pass.Placement
import ShaderLoom.Proofs.Pass.Planes
import ShaderLoom.Proofs.Pass.Prepared
import ShaderLoom.Proofs.Pass.Promotion
import ShaderLoom.Proofs.Pass.Rebind
import ShaderLoom.Proofs.Pass.Rebinding
import ShaderLoom.Proofs.Pass.Rebound
import ShaderLoom.Proofs.Pass.Registration
import ShaderLoom.Proofs.Pass.Rename
import ShaderLoom.Proofs.Pass.Renamed
import ShaderLoom.Proofs.Pass.Rereading
import ShaderLoom.Proofs.Pass.Selection
import ShaderLoom.Proofs.Pass.Shuffle
import ShaderLoom.Proofs.Pass.Unreachable
import ShaderLoom.Proofs.Patch.Empty
import ShaderLoom.Proofs.Patch.Hunks
import ShaderLoom.Proofs.Patch.Script
import ShaderLoom.Proofs.Print.Expression
import ShaderLoom.Proofs.Print.Unambiguous
import ShaderLoom.Proofs.Tables
import ShaderLoom.Random.Pcg
import ShaderLoom.Report.Diagnostic
import ShaderLoom.Report.Failure
import ShaderLoom.Report.Layout
import ShaderLoom.Report.Misuse
import ShaderLoom.Report.Template
import ShaderLoom.Source.Span
import ShaderLoom.Syntax.Arena
import ShaderLoom.Syntax.Builder
import ShaderLoom.Syntax.Shape
import ShaderLoom.Syntax.Symbol
import ShaderLoom.Syntax.Tag
import ShaderLoom.Syntax.Traverse
import ShaderLoom.Syntax.Vocabulary
import ShaderLoom.Text.Lowercase
import ShaderLoom.Text.Path
import ShaderLoom.Text.Printable
import ShaderLoom.Text.Quoted
import ShaderLoom.Text.Split
