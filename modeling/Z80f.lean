import Z80f.Interaction.Program
import Z80f.Interaction.Stateful
import Z80f.Interaction.Meter
import Z80f.Interaction.Fuel
import Z80f.Interaction.Effect
import Z80f.Interaction.Mirror
import Z80f.Interaction.Run
import Z80f.Interaction.Bisimulation
import Z80f.Interaction.Copy
import Z80f.Interaction.Lifo
import Z80f.Interaction.Leads
import Z80f.Interaction.Footprint
import Z80f.Interaction.Ledger
import Z80f.Positional.Ripple
import Z80f.Cpu.Word
import Z80f.Cpu.Registers
import Z80f.Cpu.Bus
import Z80f.Cpu.Instructions
import Z80f.Cpu.Timing
import Z80f.Cpu.Dispatch
import Z80f.Cpu.DispatchIndex
import Z80f.Cpu.Arms
import Z80f.Cpu.Step
import Z80f.Cpu.Session
import Z80f.Cpu.FlagBits
import Z80f.Cpu.Rules
import Z80f.Cpu.BlockRules
import Z80f.Cpu.StepRules
import Z80f.Cpu.Signature
import Z80f.Host.Ram
import Z80f.Host.Stack
import Z80f.Host.Locality
import Z80f.Host.Ledger
import Z80f.Host.Spectrum
import Z80f.Host.MegaDrive
import Z80f.Encoding.Instruction
import Z80f.Encoding.Conformance
import Z80f.Encoding.Execution
import Z80f.Encoding.StepCase
import Z80f.Encoding.Stepping
import Z80f.Encoding.Opening
import Z80f.Encoding.FlagMarker
import Z80f.Encoding.Consumption
import Z80f.Encoding.Frame
import Z80f.Encoding.Behind
import Z80f.Timing.StepTiming
import Z80f.Timing.Termination
import Z80f.Timing.Waits
import Z80f.Prefix.Exchange
import Z80f.Prefix.Conjugation
import Z80f.Prefix.Chain
import Z80f.Prefix.Indexed
import Z80f.Prefix.IndexedCb
import Z80f.Interrupts.Entry
import Z80f.Interrupts.Halt
import Z80f.Interrupts.Latches
import Z80f.Interrupts.Acceptance
import Z80f.Interrupts.Nesting
import Z80f.Snapshot.Restore
import Z80f.Invariant.WellFormed
import Z80f.Invariant.Reachable
import Z80f.Decimal.Adjust
import Z80f.Block.Direction
import Z80f.Block.Rounds
import Z80f.Block.Transfer
import Z80f.Block.Search
import Z80f.Block.InputOutput
import Z80f.Block.Interrupted
import Z80f.Positional.Signed
import Z80f.Arithmetic.Binary
import Z80f.Arithmetic.Sixteen
import Z80f.Arithmetic.Shift
import Z80f.History.FlagLatch
import Z80f.Control.Conditional
import Z80f.Timing.Slices
import Z80f.History.Refresh
import Z80f.Transfer.Absolute
import Z80f.Control.StackUse
import Z80f.History.ShadowStack
import Z80f.Timing.Bounds
import Z80f.History.Masking
import Z80f.Program.Rules
import Z80f.Program.Loop
import Z80f.Program.Numbers
import Z80f.Program.Context
import Z80f.Program.Handler
import Z80f.Program.Cpm
import Z80f.Program.Console
import Z80f.Isa.Status
import Z80f.Isa.Instruction
import Z80f.Isa.Decode
import Z80f.Isa.Machine
import Z80f.Isa.Agreement
import Z80f.Isa.Refinement
import Z80f.Isa.Indexed
import Z80f.Isa.Execution
import Z80f.Isa.Simulation
