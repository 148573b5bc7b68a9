import EcrToolkit.NopMeasurement
import EcrToolkit.AtomicProgram
import EcrToolkit.Handlers
import EcrToolkit.Device
import EcrToolkit.Buffer
import EcrToolkit.DeviceSteps
import EcrToolkit.BufferRace
import EcrToolkit.BufferGuard
import EcrToolkit.BufferSequence
import EcrToolkit.BufferBounds
import EcrToolkit.ModuleUnload
import EcrToolkit.KernelLog
import EcrToolkit.NopLog
import EcrToolkit.WallRun
import EcrToolkit.Script
import EcrToolkit.WallLog
import EcrToolkit.ExitFlag
import EcrToolkit.Moments
import EcrToolkit.SignedWords
import EcrToolkit.Statistics
import EcrToolkit.Figures
import EcrToolkit.KmallocOutcome
import EcrToolkit.NopCreation
import EcrToolkit.AllocationLog
import EcrToolkit.CommandLine
import EcrToolkit.ScriptRun
import EcrToolkit.CleanUp
import EcrToolkit.ModuleOwnership
import EcrToolkit.StraightLine
import EcrToolkit.Probes
import EcrToolkit.Interrupts
import EcrToolkit.Strtoul
import EcrToolkit.ModIoctl
import EcrToolkit.OptionalArguments
import EcrToolkit.Expansion
import EcrToolkit.ExitFlagEval
import EcrToolkit.Verdict
import EcrToolkit.ReportedAddress
import EcrToolkit.NopLiveness
import EcrToolkit.WordSearch
import EcrToolkit.CycleLog
import EcrToolkit.CycleTable
import EcrToolkit.NopReports
import EcrToolkit.TimingTable
import EcrToolkit.ScriptProtocol
import EcrToolkit.SystemCode
import EcrToolkit.InstructionBodies
import EcrToolkit.WallEffects
import EcrToolkit.ThreadEffects
import EcrToolkit.Delimited
import EcrToolkit.ResultsCsv
import EcrToolkit.ProbableExit
