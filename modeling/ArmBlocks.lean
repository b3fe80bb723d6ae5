import ArmBlocks.Engine
import ArmBlocks.Op.Text
import ArmBlocks.Arena.Bytes
import ArmBlocks.Trial
import ArmBlocks.Proofs.ArenaGrowth
import ArmBlocks.Proofs.Emission
import ArmBlocks.Proofs.Generations
import ArmBlocks.Proofs.TidyArena
import ArmBlocks.Proofs.Hooks
import ArmBlocks.Proofs.Exec
import ArmBlocks.Proofs.Perform
import ArmBlocks.Proofs.OneByOne
import ArmBlocks.Proofs.ConditionFlags
import ArmBlocks.Proofs.SubBlockCondition
import ArmBlocks.Proofs.Tracking
import ArmBlocks.Proofs.BlockRefinement
import ArmBlocks.Proofs.Recording
import ArmBlocks.Proofs.FlagAgreement
import ArmBlocks.Proofs.LivenessSound
import ArmBlocks.Proofs.Coverage
import ArmBlocks.Proofs.DroppedBlocks
import ArmBlocks.Proofs.CacheShell
import ArmBlocks.Proofs.DecodedRun
import ArmBlocks.Proofs.CurrentCode
import ArmBlocks.Proofs.CompiledCode
import ArmBlocks.Proofs.CompileSteps
import ArmBlocks.Proofs.StartedBlocks
import ArmBlocks.Proofs.Calls
import ArmBlocks.Proofs.NoStaleCode
import ArmBlocks.Proofs.BlockOrigins
import ArmBlocks.Proofs.IntactBlocks
import ArmBlocks.Proofs.PreciseInvalidation
import ArmBlocks.Proofs.RangeInvalidation
import ArmBlocks.Proofs.EngineLife
import ArmBlocks.Proofs.CachesAhead
import ArmBlocks.Proofs.FreshReset
import ArmBlocks.Proofs.RegisterBanks
import ArmBlocks.Proofs.Observers
import ArmBlocks.Proofs.Moves
import ArmBlocks.Proofs.UserConfinement
import ArmBlocks.Proofs.StatusShadow
import ArmBlocks.Proofs.ReserveChange
import ArmBlocks.Proofs.SlotPlaces
import ArmBlocks.Proofs.StandingBlocks
import ArmBlocks.Proofs.FailedInit
import ArmBlocks.Proofs.ThrashingCode
import ArmBlocks.Proofs.Uncached
import ArmBlocks.Proofs.WrittenOver
import ArmBlocks.Proofs.AlignedCounter
import ArmBlocks.Proofs.DecoderVersions
import ArmBlocks.Proofs.WellFormedBlocks
import ArmBlocks.Proofs.Footprint
import ArmBlocks.Proofs.LowWater
import ArmBlocks.Proofs.MissingCode
import ArmBlocks.Proofs.Reports
import ArmBlocks.Proofs.ExceptionEntry
import ArmBlocks.Proofs.DataAbort
import ArmBlocks.Proofs.ExceptionReturn
import ArmBlocks.Proofs.BlockAccesses
import ArmBlocks.Proofs.UserBank
import ArmBlocks.Proofs.SavedRegisters
import ArmBlocks.Proofs.LongestRun
import ArmBlocks.Proofs.Pieces
import ArmBlocks.Proofs.BranchCodes
import ArmBlocks.Proofs.Jumps
import ArmBlocks.Proofs.ComparedBranch
import ArmBlocks.Proofs.CallReturn
import ArmBlocks.Proofs.DisjointRecords
import ArmBlocks.Proofs.OneBitShifts
import ArmBlocks.Proofs.CarryChains
import ArmBlocks.Proofs.ExactCycles
import ArmBlocks.Proofs.MethodsInside
