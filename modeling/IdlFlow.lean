import IdlFlow.CommandLine
import IdlFlow.Main
import IdlFlow.Timestamp
import IdlFlow.Proofs.Grammar
import IdlFlow.Proofs.Reading
import IdlFlow.Proofs.Soundness
import IdlFlow.Proofs.Completeness
import IdlFlow.Proofs.Preorder
import IdlFlow.Proofs.Paths
import IdlFlow.Proofs.Loading
import IdlFlow.Proofs.Levels
import IdlFlow.Proofs.Exactness
import IdlFlow.Proofs.Promptness
import IdlFlow.Proofs.Refusal
import IdlFlow.Proofs.Characters
import IdlFlow.Proofs.Brackets
import IdlFlow.Proofs.Paragraphs
import IdlFlow.Proofs.Vocabulary
import IdlFlow.Proofs.Blocks
import IdlFlow.Proofs.Imports
import IdlFlow.Proofs.Generation
import IdlFlow.Proofs.Routes
import IdlFlow.Proofs.Trees
import IdlFlow.Proofs.Modules
import IdlFlow.Proofs.OutputPaths
import IdlFlow.Proofs.Growth
import IdlFlow.Proofs.Batches
import IdlFlow.Proofs.Parts
import IdlFlow.Proofs.Outlines
import IdlFlow.Proofs.References
import IdlFlow.Proofs.Constants
import IdlFlow.Proofs.Numerals
import IdlFlow.Proofs.Lexing
import IdlFlow.Proofs.Positions
import IdlFlow.Proofs.Faults
import IdlFlow.Proofs.Bindings
import IdlFlow.Proofs.Boundaries
import IdlFlow.Proofs.Printing
import IdlFlow.Proofs.Places
import IdlFlow.Proofs.Spacing
import IdlFlow.Proofs.Neighbours
import IdlFlow.Proofs.Tours
import IdlFlow.Proofs.Quoting
import IdlFlow.Proofs.Rendering
import IdlFlow.Proofs.Agreement
import IdlFlow.Proofs.Clashes
import IdlFlow.Proofs.Walks
import IdlFlow.Proofs.Completion
import IdlFlow.Proofs.Canonical
import IdlFlow.Proofs.Keys
import IdlFlow.Proofs.Exports
import IdlFlow.Proofs.Readability
import IdlFlow.Proofs.Integers
import IdlFlow.Proofs.Nesting
import IdlFlow.Proofs.Capitals
import IdlFlow.Proofs.Guarded
import IdlFlow.Proofs.Effort
