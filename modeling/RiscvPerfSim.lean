import RiscvPerfSim.Source.PerfSim
import RiscvPerfSim.Foundation.Loop
import RiscvPerfSim.Core.Machine
import RiscvPerfSim.Core.Instructions
import RiscvPerfSim.Core.Objects
import RiscvPerfSim.Core.Stages
import RiscvPerfSim.Core.DecodeStage
import RiscvPerfSim.Core.Refinement
import RiscvPerfSim.Core.Simulation
import RiscvPerfSim.Core.Scoreboard
import RiscvPerfSim.Core.Invariant
import RiscvPerfSim.Core.Reachable
import RiscvPerfSim.Results.Locks
import RiscvPerfSim.Results.Objects
import RiscvPerfSim.Results.Operands
import RiscvPerfSim.Results.Squash
import RiscvPerfSim.Results.Interlock
import RiscvPerfSim.Results.Progress
import RiscvPerfSim.Results.Accounting
import RiscvPerfSim.Results.StoreQueue
import RiscvPerfSim.Core.Alike
import RiscvPerfSim.Core.Sequential
import RiscvPerfSim.Core.Follows
import RiscvPerfSim.Core.Safe
import RiscvPerfSim.Results.Execution
import RiscvPerfSim.Results.Exceptions
import RiscvPerfSim.Foundation.Rv32i
import RiscvPerfSim.Core.Encoding
import RiscvPerfSim.Results.Decoding
import RiscvPerfSim.Results.Arithmetic
import RiscvPerfSim.Results.Control
import RiscvPerfSim.Foundation.CInt
import RiscvPerfSim.Results.Definedness
import RiscvPerfSim.Results.Access
import RiscvPerfSim.Results.Bounds
import RiscvPerfSim.Core.Frontend
import RiscvPerfSim.Results.Unnamed
import RiscvPerfSim.Results.System
import RiscvPerfSim.Results.Redirect
import RiscvPerfSim.Results.Lockstep
import RiscvPerfSim.Results.Occupancy
import RiscvPerfSim.Source.ElfManager
import RiscvPerfSim.Results.Loading
import RiscvPerfSim.Core.Queue
import RiscvPerfSim.Results.Forwarding
import RiscvPerfSim.Results.Merging
import RiscvPerfSim.Results.Recycling
import RiscvPerfSim.Foundation.Hart
import RiscvPerfSim.Results.Conformance
import RiscvPerfSim.Core.Paced
import RiscvPerfSim.Core.Timing
import RiscvPerfSim.Results.Pacing
import RiscvPerfSim.Results.Programs
import RiscvPerfSim.Core.Effects
import RiscvPerfSim.Core.Onward
import RiscvPerfSim.Core.Prefix
import RiscvPerfSim.Foundation.Steps
import RiscvPerfSim.Results.History
import RiscvPerfSim.Source.Startup
import RiscvPerfSim.Results.Startup
import RiscvPerfSim.Foundation.Codec
import RiscvPerfSim.Source.Trace
import RiscvPerfSim.Core.Labels
import RiscvPerfSim.Core.TraceLine
import RiscvPerfSim.Core.Shown
import RiscvPerfSim.Results.Trace
import RiscvPerfSim.Results.Listing
import RiscvPerfSim.Results.Disassembly
import RiscvPerfSim.Results.Undefined
import RiscvPerfSim.Source.Report
import RiscvPerfSim.Core.Counting
import RiscvPerfSim.Foundation.Timetable
import RiscvPerfSim.Core.Course
import RiscvPerfSim.Results.Report
import RiscvPerfSim.Results.Texts
import RiscvPerfSim.Results.Fresh
