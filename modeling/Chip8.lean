import Chip8.Command.Disassemble
import Chip8.Command.Run
import Chip8.Emulator.Run
import Chip8.Listing.Sweep
import Chip8.Main
import Chip8.Proofs.Memory.Blocks
import Chip8.Proofs.Memory.Updates
import Chip8.Proofs.Execution.Rules
import Chip8.Proofs.Execution.InPlace
import Chip8.Proofs.Execution.Faults
import Chip8.Proofs.Emulator.Operation
import Chip8.Proofs.Execution.KeyWait
import Chip8.Proofs.Emulator.ColdStart
import Chip8.Proofs.Execution.Coherence
import Chip8.Proofs.Emulator.Invariant
import Chip8.Proofs.Emulator.Drivers
import Chip8.Proofs.Emulator.Halted
import Chip8.Proofs.Execution.Brackets
import Chip8.Proofs.Execution.Subroutines
import Chip8.Proofs.Execution.Footprint
import Chip8.Proofs.Emulator.Inputs
import Chip8.Proofs.Execution.LatestPress
import Chip8.Proofs.Keypad.History
import Chip8.Proofs.Emulator.Moves
import Chip8.Proofs.Emulator.RandomStream
import Chip8.Proofs.Emulator.Redrawing
import Chip8.Proofs.Emulator.StepEvents
import Chip8.Proofs.Listing.Assembler
import Chip8.Proofs.Listing.Roundtrip
import Chip8.Proofs.Listing.Fetch
import Chip8.Proofs.Emulator.Frames
import Chip8.Proofs.Emulator.Accounts
import Chip8.Proofs.Emulator.Countdowns
import Chip8.Proofs.Command.HeldKeys
import Chip8.Proofs.Command.Sessions
import Chip8.Proofs.Command.CommandLine
import Chip8.Proofs.Command.Runner
import Chip8.Proofs.Display.Toggling
import Chip8.Proofs.Display.SpriteBits
import Chip8.Proofs.Display.Drawing
import Chip8.Proofs.Display.Painting
import Chip8.Proofs.Display.Views
import Chip8.Proofs.Execution.Sprites
import Chip8.Proofs.Execution.ByteArithmetic
import Chip8.Proofs.Emulator.Environment
import Chip8.Proofs.Decimal.Rounding
import Chip8.Proofs.Decimal.Exact
import Chip8.Proofs.Decimal.Order
import Chip8.Proofs.Decimal.Overflow
import Chip8.Proofs.Timer.SplitTime
import Chip8.Proofs.Timer.RefusedTime
import Chip8.Proofs.Emulator.RefusedTime
import Chip8.Proofs.Emulator.Loading
import Chip8.Proofs.Execution.Dumps
import Chip8.Proofs.Execution.NextInstruction
import Chip8.Proofs.Listing.Partition
import Chip8.Proofs.Text.Grammar
import Chip8.Proofs.Command.Addresses
import Chip8.Proofs.Listing.Formats
import Chip8.Proofs.Listing.Dump
