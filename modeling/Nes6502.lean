import Nes6502.Bus.Lent
import Nes6502.Bus.Recorded
import Nes6502.Bus.Watched
import Nes6502.Main
import Nes6502.Operation
import Nes6502.Proofs.Accesses
import Nes6502.Proofs.Frames
import Nes6502.Proofs.Halting
import Nes6502.Proofs.Recovery
import Nes6502.Proofs.Cycles
import Nes6502.Proofs.Assembly
import Nes6502.Proofs.Boundaries
import Nes6502.Proofs.Simulation
import Nes6502.Proofs.Tracing
import Nes6502.Proofs.Reset
import Nes6502.Proofs.History
import Nes6502.Proofs.Service
import Nes6502.Proofs.Latch
import Nes6502.Proofs.Mask
import Nes6502.Proofs.Image
import Nes6502.Proofs.Budget
import Nes6502.Proofs.Stopping
import Nes6502.Proofs.Rest
import Nes6502.Proofs.Lending
import Nes6502.Proofs.Dependence
import Nes6502.Proofs.Session
import Nes6502.Proofs.Overflow
import Nes6502.Proofs.Address
import Nes6502.Proofs.Execution
import Nes6502.Proofs.Flags
import Nes6502.Proofs.Transfer
import Nes6502.Proofs.MultiByte
import Nes6502.Proofs.Footprint
import Nes6502.Proofs.Comparison
import Nes6502.Proofs.Decimal
import Nes6502.Proofs.Shifts
import Nes6502.Proofs.Placement
import Nes6502.Proofs.HexDump
import Nes6502.Proofs.TraceLine
import Nes6502.Proofs.AddressGrammar
import Nes6502.Proofs.Assignments
import Nes6502.Proofs.LastWrite
