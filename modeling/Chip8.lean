import Chip8.Config.File
import Chip8.Debugger.Basic
import Chip8.Listing
import Chip8.Proofs.Act
import Chip8.Proofs.Outcome
import Chip8.Proofs.Atomicity
import Chip8.Proofs.Cause
import Chip8.Proofs.Shape
import Chip8.Proofs.Accepted
import Chip8.Proofs.Bounds
import Chip8.Proofs.Advance
import Chip8.Proofs.Resuming
import Chip8.Proofs.Widths
import Chip8.Proofs.Simulation
import Chip8.Proofs.Reload
import Chip8.Proofs.Nesting
import Chip8.Proofs.Cells
import Chip8.Proofs.Hexadecimal
import Chip8.Proofs.HexFile
import Chip8.Proofs.HexAcceptance
import Chip8.Proofs.Settings
import Chip8.Proofs.Interruption
import Chip8.Proofs.Footprint
import Chip8.Proofs.Enlargement
import Chip8.Proofs.Choices
import Chip8.Proofs.Images
import Chip8.Proofs.Breakpoints
import Chip8.Proofs.Acceptance
import Chip8.Proofs.Frames
import Chip8.Proofs.Sprites
import Chip8.Proofs.Interleaving
import Chip8.Proofs.HexCorruption
import Chip8.Proofs.FailedLoads
import Chip8.Proofs.Disassembly
import Chip8.Proofs.Assembler
import Chip8.Proofs.Drawings
import Chip8.Proofs.Grid
import Chip8.Proofs.History
import Chip8.Proofs.Arithmetic
import Chip8.Proofs.BoundedStack
import Chip8.Proofs.Transfer
import Chip8.Proofs.Waiting
import Chip8.Proofs.Loaders
import Chip8.Proofs.Glyphs
import Chip8.Proofs.Reports
