import Aeneas.Bytes
import Aeneas.X86
import Aeneas.X86Machine
import Aeneas.X86Exec
import Aeneas.X86Sound
import Aeneas.Ebpf
import Aeneas.Interpreter
import Aeneas.Jit
import Aeneas.JitEmit
import Aeneas.JitLayout
import Aeneas.JitBlock
import Aeneas.JitBranch
import Aeneas.JitLower
import Aeneas.JitSound
import Aeneas.InterpreterRuns
import Aeneas.Collections
import Aeneas.Condensation
import Aeneas.Scc
import Aeneas.SccSound
import Aeneas.Pure
import Aeneas.IsabelleScalar
import Aeneas.IsabelleVec
import Aeneas.OpenClose
import Aeneas.OpenCloseSound
import Aeneas.ReorderDecls
import Aeneas.X86Decode
import Aeneas.AddFuel
import Aeneas.AddFuelBody
import Aeneas.AddFuelGroup
import Aeneas.IsabelleBits
import Aeneas.IsabelleBytes
import Aeneas.IsabelleDiv
import Aeneas.IsabelleIter
import Aeneas.IsabelleLoop
import Aeneas.PureFreeVars
import Aeneas.PureTyping
import Aeneas.SimplifyLetBranchingEval
import Aeneas.SimplifyLetBranchingFree
import Aeneas.SimplifyLetBindings
import Aeneas.SimplifyLetBindingsIdentity
import Aeneas.SimplifyLetBindingsSound
import Aeneas.FlattenStructUpdates
import Aeneas.FlattenStructUpdatesCons
import Aeneas.LoopFilter
import Aeneas.Llbc
import Aeneas.MutableRegions
import Aeneas.TypesAnalysisNested
import Aeneas.TypesAnalysisTy
import Aeneas.TypesAnalysisRegions
import Aeneas.Contexts
import Aeneas.InterpTypes
import Aeneas.LlbcAst
import Aeneas.LlbcReach
import Aeneas.ProjTypes
import Aeneas.ProjTypesLattice
import Aeneas.RemoveUselessJoins
import Aeneas.UpdateLoops
import Aeneas.UpdateLoopsScan
import Aeneas.UpdateLoopsShape
import Aeneas.UpdateLoopsSound
import Aeneas.TypesAnalysisBodyRegions
import Aeneas.ExtractFilter
import Aeneas.ExtractNames
import Aeneas.Relaxation
import Aeneas.PrettyNames
import Aeneas.Deps
import Aeneas.FunsAnalysis
import Aeneas.EditDistance
import Aeneas.StringUtils
