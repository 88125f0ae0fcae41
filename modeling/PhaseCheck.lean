import PhaseCheck.Main
import PhaseCheck.Binary.Session
import PhaseCheck.Proofs.Binary.FixedReads
import PhaseCheck.Proofs.Binary.Sessions
import PhaseCheck.Proofs.Binary.PutBack
import PhaseCheck.Proofs.Binary.ExactReads
import PhaseCheck.Proofs.Hierarchy.Steady
import PhaseCheck.Proofs.Verifier.Keys
import PhaseCheck.Proofs.Verifier.Meaning
import PhaseCheck.Proofs.Verifier.Refinement
import PhaseCheck.Proofs.Binary.Reads
import PhaseCheck.Proofs.Code.Reachable
import PhaseCheck.Proofs.SlotVec
import PhaseCheck.Proofs.ClassFile.Layout
import PhaseCheck.Proofs.ClassFile.RoundTrip
import PhaseCheck.Proofs.Binary.Stability
import PhaseCheck.Proofs.ClassFile.PrefixFree
import PhaseCheck.Proofs.Code.Ending
import PhaseCheck.Proofs.Verifier.Lasting
import PhaseCheck.Proofs.Hierarchy.Transparency
import PhaseCheck.Proofs.Verifier.Histories
import PhaseCheck.Proofs.Hierarchy.Transfer
import PhaseCheck.Proofs.Verifier.Completion
import PhaseCheck.Proofs.Verifier.Order
import PhaseCheck.Proofs.Descriptor.Exactness
import PhaseCheck.Proofs.Descriptor.Methods
import PhaseCheck.Proofs.Text.CodeUnits
import PhaseCheck.Proofs.ClassFile.PoolSlots
import PhaseCheck.Proofs.Binary.Passes
import PhaseCheck.Proofs.Code.InstructionSet
import PhaseCheck.Proofs.Hierarchy.Supertypes
import PhaseCheck.Proofs.Code.Encoding
import PhaseCheck.Proofs.AnnotationTree
import PhaseCheck.Proofs.Hierarchy.Superclasses
import PhaseCheck.Proofs.Hierarchy.Assignability
import PhaseCheck.Proofs.Verifier.Overriding
import PhaseCheck.Proofs.Code.Calls
import PhaseCheck.Proofs.AnnotationNesting
import PhaseCheck.Proofs.Verifier.Repetition
import PhaseCheck.Proofs.Verifier.Mismatches
import PhaseCheck.Proofs.Verifier.Callees
import PhaseCheck.Proofs.Code.LineRows
import PhaseCheck.Proofs.Text.Lines
import PhaseCheck.Proofs.Files.ClassLists
import PhaseCheck.Proofs.Files.Paths
import PhaseCheck.Proofs.Files.Enumeration
import PhaseCheck.Proofs.Files.Confinement
import PhaseCheck.Proofs.SlotLookup
import PhaseCheck.Proofs.Verifier.Depth
import PhaseCheck.Proofs.Hierarchy.RawNames
