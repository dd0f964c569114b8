import Cil.Body.Context
import Cil.Body.Decode
import Cil.Body.Fetch
import Cil.Body.Instruction
import Cil.Bytes.Cursor
import Cil.Bytes.LittleEndian
import Cil.Bytes.Reader
import Cil.Bytes.Scalar
import Cil.Event
import Cil.Fault
import Cil.Member.Basic
import Cil.Member.Identity
import Cil.Member.Modifiers
import Cil.Opcode.Basic
import Cil.Opcode.Lookup
import Cil.Opcode.Table
import Cil.Proofs.Body.Acceptance
import Cil.Proofs.Body.Chunk
import Cil.Proofs.Body.Concatenation
import Cil.Proofs.Body.Deferral
import Cil.Proofs.Body.Denotation
import Cil.Proofs.Body.Drafting
import Cil.Proofs.Body.Faults
import Cil.Proofs.Body.FirstFault
import Cil.Proofs.Body.Jumps
import Cil.Proofs.Body.Misreading
import Cil.Proofs.Body.Navigation
import Cil.Proofs.Body.Ordered
import Cil.Proofs.Body.Partition
import Cil.Proofs.Body.Prolonging
import Cil.Proofs.Body.Slots
import Cil.Proofs.Body.Tiling
import Cil.Proofs.Body.Unreadable
import Cil.Proofs.Body.Walking
import Cil.Proofs.Body.Writing
import Cil.Proofs.Bytes.Encoding
import Cil.Proofs.Bytes.Inversion
import Cil.Proofs.Bytes.Reading
import Cil.Proofs.Fallible
import Cil.Proofs.Member.Likeness
import Cil.Proofs.Resolver.History
import Cil.Proofs.Rule.Bases
import Cil.Proofs.Rule.Collection
import Cil.Proofs.Rule.Freezing
import Cil.Proofs.Rule.Landing
import Cil.Proofs.Rule.Meaning
import Cil.Proofs.Rule.Memory
import Cil.Proofs.Rule.Reflection
import Cil.Proofs.Rule.Symmetry
import Cil.Proofs.Rule.Widening
import Cil.Proofs.Search.Agreement
import Cil.Proofs.Search.Candidates
import Cil.Proofs.Search.Decomposition
import Cil.Proofs.Search.Following
import Cil.Proofs.Search.Prolonging
import Cil.Proofs.Search.Walking
import Cil.Proofs.Types.Chains
import Cil.Proofs.Types.Growth
import Cil.Proofs.Types.Rings
import Cil.Proofs.Types.Succession
import Cil.Proofs.Workspace.Moves
import Cil.Proofs.Workspace.Registration
import Cil.Proofs.Workspace.Shapes
import Cil.Resolver.Basic
import Cil.Resolver.Generic
import Cil.Resolver.Store
import Cil.Rule.Basic
import Cil.Rule.Config
import Cil.Rule.Dispatch
import Cil.Search.Basic
import Cil.Text.Hex
import Cil.Text.Invisible
import Cil.Text.Quoted
import Cil.Token
import Cil.Types.Table
import Cil.Workspace.Basic
import Cil.Workspace.Command
