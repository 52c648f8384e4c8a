import CilGraft.Anchor
import CilGraft.Arena
import CilGraft.Arena.Placing
import CilGraft.Binary.Double
import CilGraft.Binary.Format
import CilGraft.Binary.Single
import CilGraft.Body
import CilGraft.Body.Draft
import CilGraft.Body.Listing
import CilGraft.Decimal.Layout
import CilGraft.Decimal.Shortest
import CilGraft.Error
import CilGraft.Graft.Blocks
import CilGraft.Graft.Config
import CilGraft.Graft.Guard
import CilGraft.Graft.Members
import CilGraft.Graft.Pass
import CilGraft.Graft.Splice
import CilGraft.Instruction
import CilGraft.Instruction.Encoding
import CilGraft.Machine.Builtin
import CilGraft.Machine.Hook
import CilGraft.Machine.Step
import CilGraft.Machine.Value
import CilGraft.Module
import CilGraft.Numeral
import CilGraft.Opcode
import CilGraft.Signature
import CilGraft.Stack.Block
import CilGraft.Stack.Effect
import CilGraft.Stack.Walk
import CilGraft.Token
import CilGraft.TypeName
import CilGraft.Proofs.AnalyzedRuns
import CilGraft.Proofs.AnchorFiller
import CilGraft.Proofs.AnchorSearch
import CilGraft.Proofs.ArenaView
import CilGraft.Proofs.BlockRuns
import CilGraft.Proofs.BlockValues
import CilGraft.Proofs.BodyHistories
import CilGraft.Proofs.BodyInvariant
import CilGraft.Proofs.CheckedInsertion
import CilGraft.Proofs.Checks
import CilGraft.Proofs.DraftCalls
import CilGraft.Proofs.ErrorKinds
import CilGraft.Proofs.FailedRun
import CilGraft.Proofs.FlowGraph
import CilGraft.Proofs.FlowPaths
import CilGraft.Proofs.GraftCode
import CilGraft.Proofs.GraftedModule
import CilGraft.Proofs.GrownMachine
import CilGraft.Proofs.Insertion
import CilGraft.Proofs.InsertionOrder
import CilGraft.Proofs.KnownTypes
import CilGraft.Proofs.MachineDepth
import CilGraft.Proofs.MachineHistories
import CilGraft.Proofs.MachineRuns
import CilGraft.Proofs.MemberResolution
import CilGraft.Proofs.Metadata
import CilGraft.Proofs.ModuleHistories
import CilGraft.Proofs.NetEffect
import CilGraft.Proofs.PassHistory
import CilGraft.Proofs.PassSteps
import CilGraft.Proofs.PatchedOnce
import CilGraft.Proofs.Placement
import CilGraft.Proofs.RatioFirst
import CilGraft.Proofs.Reanalysis
import CilGraft.Proofs.Rescaling
import CilGraft.Proofs.Selection
import CilGraft.Proofs.ShortForms
import CilGraft.Proofs.StackDiscipline
import CilGraft.Proofs.StraightLine
import CilGraft.Proofs.StraightWalk
import CilGraft.Proofs.Transparency
import CilGraft.Proofs.TypeNames
import CilGraft.Proofs.UnresolvedCalls
import CilGraft.Proofs.WalkExact
import CilGraft.Proofs.WalkTurns
import CilGraft.Proofs.WalkView
