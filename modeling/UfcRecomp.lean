import UfcRecomp.Lib.Loop
import UfcRecomp.Lib.Worklist
import UfcRecomp.Lib.Sorted
import UfcRecomp.Lib.Radix
import UfcRecomp.Ppc.Word
import UfcRecomp.Ppc.Disasm
import UfcRecomp.Ppc.Branch
import UfcRecomp.Analyze.Function
import UfcRecomp.Analyze.Flow
import UfcRecomp.Analyze.Invariant
import UfcRecomp.Analyze.Walk
import UfcRecomp.Analyze.Termination
import UfcRecomp.Analyze.Extent
import UfcRecomp.Analyze.Layout
import UfcRecomp.Analyze.Taken
import UfcRecomp.Analyze.Coverage
import UfcRecomp.Analyze.Reads
import UfcRecomp.Utils.Symbols
import UfcRecomp.Utils.Image
import UfcRecomp.Recompiler.Config
import UfcRecomp.Recompiler.Analyse
import UfcRecomp.Recompiler.Names
import UfcRecomp.Recompiler.Output
import UfcRecomp.Recompiler.Discovery
import UfcRecomp.Recompiler.Consistency
import UfcRecomp.Recompiler.Sweep
import UfcRecomp.Recompiler.Emit
import UfcRecomp.Recompiler.Body
import UfcRecomp.Recompiler.Switch
import UfcRecomp.Recompiler.Labels
import UfcRecomp.Lib.Bits
import UfcRecomp.Lib.Bytes
import UfcRecomp.Lib.Memory
import UfcRecomp.Lib.Unsigned
import UfcRecomp.Native.Memory
import UfcRecomp.Xex.Basic
import UfcRecomp.Xex.Normal
import UfcRecomp.Xex.Header
import UfcRecomp.Xex.Delta
import UfcRecomp.Xex.Patcher
import UfcRecomp.Xex.Staging
import UfcRecomp.Lib.Holding
import UfcRecomp.Lib.Transition
import UfcRecomp.Native.Allocation
import UfcRecomp.Native.Requests
import UfcRecomp.Emitted.Register
import UfcRecomp.Emitted.Reservation
import UfcRecomp.Emitted.Address
import UfcRecomp.Emitted.FloatControl
import UfcRecomp.Recompiler.FlushLines
import UfcRecomp.Recompiler.FlushRuns
import UfcRecomp.Lib.Layers
import UfcRecomp.Lib.Lockstep
import UfcRecomp.Recompiler.LocalRegisters
import UfcRecomp.Recompiler.Lines
import UfcRecomp.Recompiler.LocalRuns
import UfcRecomp.Recompiler.LocalSimulation
import UfcRecomp.Recompiler.Fallthrough
import UfcRecomp.Lib.CObject
import UfcRecomp.Lib.CProgram
import UfcRecomp.Lib.Lanes
import UfcRecomp.Lib.CVector
import UfcRecomp.Lib.Simd
import UfcRecomp.Lib.CAlias
import UfcRecomp.Lib.CEval
import UfcRecomp.Lib.FloatFormat
import UfcRecomp.Lib.FloatInteger
import UfcRecomp.Lib.SimdFloat
import UfcRecomp.Recompiler.Integer
import UfcRecomp.Ppc.Integer
import UfcRecomp.Recompiler.IntegerRuns
import UfcRecomp.Recompiler.Carry
import UfcRecomp.Recompiler.Rotate
import UfcRecomp.Recompiler.Shift
import UfcRecomp.Recompiler.Conditions
import UfcRecomp.Emitted.Vector
import UfcRecomp.Recompiler.Vector
import UfcRecomp.Recompiler.VectorAliases
import UfcRecomp.Recompiler.VectorRuns
import UfcRecomp.Recompiler.Double
import UfcRecomp.Recompiler.RecordForms
import UfcRecomp.Recompiler.LaneArithmetic
import UfcRecomp.Recompiler.Direct3D
import UfcRecomp.Recompiler.HalfPack
import UfcRecomp.Recompiler.FixedPoint
import UfcRecomp.Ppc.Arithmetic
import UfcRecomp.Recompiler.Arithmetic
import UfcRecomp.Lib.RecursiveMutex
import UfcRecomp.Native.CriticalSections
import UfcRecomp.Utils.SymbolSearch
import UfcRecomp.Xdvdfs.Partition
import UfcRecomp.Xdvdfs.Walk
import UfcRecomp.Analyze.Pattern
import UfcRecomp.Lib.TextPattern
import UfcRecomp.Tools.SwitchEntries
import UfcRecomp.Tools.CommentEntries
import UfcRecomp.Xdbf.Lookup
import UfcRecomp.Xex.Imports
import UfcRecomp.Recompiler.VectorProgram
import UfcRecomp.Recompiler.ControlProgram
import UfcRecomp.Recompiler.RecoveredTables
