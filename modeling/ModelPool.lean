import ModelPool.Text.Case
import ModelPool.Source.Unit
import ModelPool.Source.Attribute
import ModelPool.Source.Documentation
import ModelPool.Program.Load
import ModelPool.Run.Engine
import ModelPool.Text.Quoted
import ModelPool.Run.ReportFile
import ModelPool.Toml.Reading
import ModelPool.Command.Execution
import ModelPool.Main
import ModelPool.Proofs.Load.Listing
import ModelPool.Proofs.Load.Strict
import ModelPool.Proofs.Pool.FileNames
import ModelPool.Proofs.Load.Growth
import ModelPool.Proofs.Pool.Merging
import ModelPool.Proofs.Run.Agreement
import ModelPool.Proofs.Pool.Collecting
import ModelPool.Proofs.Load.Declared
import ModelPool.Proofs.Run.Alone
import ModelPool.Proofs.Run.Repetition
import ModelPool.Proofs.Check.Entries
import ModelPool.Proofs.Check.Origins
import ModelPool.Proofs.Pool.Aliases
import ModelPool.Proofs.Pool.FileLexemes
import ModelPool.Proofs.Pool.FileReading
import ModelPool.Proofs.Pool.Filling
import ModelPool.Proofs.Pool.Location
import ModelPool.Proofs.Pool.Provenance
import ModelPool.Proofs.Pool.ReadBack
import ModelPool.Proofs.Run.Filling
import ModelPool.Proofs.Run.Visibility
import ModelPool.Proofs.Pool.Clearing
import ModelPool.Proofs.Pool.Imports
import ModelPool.Proofs.Pool.Contents
import ModelPool.Proofs.Pool.Capture
import ModelPool.Proofs.Pool.Reloading
import ModelPool.Proofs.Run.Trace
import ModelPool.Proofs.Run.Tree
import ModelPool.Proofs.Load.Roots
import ModelPool.Proofs.Run.Target
import ModelPool.Proofs.Run.Builtins
import ModelPool.Proofs.Pool.Ordering
import ModelPool.Proofs.Load.Distinct
import ModelPool.Proofs.Load.Wider
import ModelPool.Proofs.Source.TypeYielding
import ModelPool.Proofs.Source.UnitYielding
import ModelPool.Proofs.Check.Routes
import ModelPool.Proofs.Load.Bound
import ModelPool.Proofs.Pool.Conflicts
import ModelPool.Proofs.Walk.Recursion
import ModelPool.Proofs.Source.AliasReading
import ModelPool.Proofs.Load.Missing
import ModelPool.Proofs.Pool.AliasChoice
import ModelPool.Proofs.Pool.Refusals
import ModelPool.Proofs.Pool.TypeWriting
import ModelPool.Proofs.Pool.Staging
import ModelPool.Proofs.Pool.Identity
import ModelPool.Proofs.Pool.Lifetimes
import ModelPool.Proofs.Pool.FieldNames
import ModelPool.Proofs.Load.Importing
import ModelPool.Proofs.Load.Naming
import ModelPool.Proofs.Source.Stretches
import ModelPool.Proofs.Source.Uses
import ModelPool.Proofs.Digest.Identity
import ModelPool.Proofs.Source.AttributeReading
import ModelPool.Proofs.Source.Documented
import ModelPool.Proofs.Check.Shape
