import SleighForge.FileTree
import SleighForge.Main
import SleighForge.Proofs.Combine.Change
import SleighForge.Proofs.Combine.Classes
import SleighForge.Proofs.Combine.Examples
import SleighForge.Proofs.Combine.Excerpt
import SleighForge.Proofs.Combine.ExcerptPasses
import SleighForge.Proofs.Combine.ExcerptRounds
import SleighForge.Proofs.Combine.Fixpoint
import SleighForge.Proofs.Combine.Narrowest
import SleighForge.Proofs.Combine.Outcomes
import SleighForge.Proofs.Combine.Reading
import SleighForge.Proofs.Combine.RegisterPlacing
import SleighForge.Proofs.Combine.Round
import SleighForge.Proofs.Combine.Selection
import SleighForge.Proofs.Combine.Settled
import SleighForge.Proofs.Combine.Span
import SleighForge.Proofs.Combine.TwinMergers
import SleighForge.Proofs.Delivery
import SleighForge.Proofs.Encoding.BitText
import SleighForge.Proofs.Encoding.FieldNames
import SleighForge.Proofs.Encoding.Opened
import SleighForge.Proofs.Encoding.Splitting
import SleighForge.Proofs.FileTree
import SleighForge.Proofs.Layout
import SleighForge.Proofs.Layout.Partition
import SleighForge.Proofs.Layout.RegionNames
import SleighForge.Proofs.Listing
import SleighForge.Proofs.Listing.Lenient
import SleighForge.Proofs.Listing.Padding
import SleighForge.Proofs.Model.Attempts
import SleighForge.Proofs.Model.CanonicalTables
import SleighForge.Proofs.Model.ExampleOrder
import SleighForge.Proofs.Model.FieldValues
import SleighForge.Proofs.Model.Finish
import SleighForge.Proofs.Model.FirstOccurrences
import SleighForge.Proofs.Model.Leftovers
import SleighForge.Proofs.Model.Ownership
import SleighForge.Proofs.Model.Positions
import SleighForge.Proofs.Model.Recovery
import SleighForge.Proofs.Model.Repeats
import SleighForge.Proofs.Model.SourceOrder
import SleighForge.Proofs.Model.SourceWords
import SleighForge.Proofs.Model.StageExcerpt
import SleighForge.Proofs.Model.UsedRegisters
import SleighForge.Proofs.Model.Widths
import SleighForge.Proofs.Model.WordOwners
import SleighForge.Proofs.Opcode.Grammar
import SleighForge.Proofs.Opcode.Written
import SleighForge.Proofs.Path
import SleighForge.Proofs.RegisterTable.Agreement
import SleighForge.Proofs.RegisterTable.Alike
import SleighForge.Proofs.RegisterTable.Canonical
import SleighForge.Proofs.RegisterTable.Faults
import SleighForge.Proofs.RegisterTable.Interning
import SleighForge.Proofs.RegisterTable.Twin
import SleighForge.Proofs.SideBySide
import SleighForge.Proofs.Specification
import SleighForge.Proofs.Specification.Attachments
import SleighForge.Proofs.Specification.Closed
import SleighForge.Proofs.Specification.Display
import SleighForge.Proofs.Specification.Names
import SleighForge.Proofs.Text.Extending
import SleighForge.Proofs.Text.Scanning
