import VectorRisc.Access
import VectorRisc.Assembler.Basic
import VectorRisc.Assembler.Code
import VectorRisc.Assembler.Data
import VectorRisc.Assembler.Error
import VectorRisc.Assembler.Host
import VectorRisc.Assembler.Listing
import VectorRisc.Assembler.Source
import VectorRisc.Assembler.State
import VectorRisc.Bytes
import VectorRisc.Command.Basic
import VectorRisc.Command.Build
import VectorRisc.Command.Flags
import VectorRisc.Command.Host
import VectorRisc.Command.Simulate
import VectorRisc.Command.Tool
import VectorRisc.Emulator
import VectorRisc.Expression.Eval
import VectorRisc.Expression.Format
import VectorRisc.Expression.Operator
import VectorRisc.Expression.StringLiteral
import VectorRisc.Expression.Token
import VectorRisc.Expression.Tree
import VectorRisc.Expression.Value
import VectorRisc.Files.Basic
import VectorRisc.Files.Console
import VectorRisc.Files.Disk
import VectorRisc.Files.Error
import VectorRisc.Files.Flags
import VectorRisc.Files.Input
import VectorRisc.Instruction.Basic
import VectorRisc.Instruction.Mnemonic
import VectorRisc.Instruction.Register
import VectorRisc.Instruction.Set
import VectorRisc.Instruction.Table
import VectorRisc.Instruction.Word
import VectorRisc.Machine.Action
import VectorRisc.Machine.Arithmetic
import VectorRisc.Machine.Basic
import VectorRisc.Machine.Clock
import VectorRisc.Machine.Floating
import VectorRisc.Machine.Lanes
import VectorRisc.Machine.Registers
import VectorRisc.Machine.Service
import VectorRisc.Machine.Services
import VectorRisc.Main
import VectorRisc.Memory.Basic
import VectorRisc.Memory.Buffer
import VectorRisc.Memory.Error
import VectorRisc.Memory.Gap
import VectorRisc.Memory.Region
import VectorRisc.Message
import VectorRisc.Message.Template
import VectorRisc.Numeral.Ieee
import VectorRisc.Numeral.Integer
import VectorRisc.Object.Codec
import VectorRisc.Object.File
import VectorRisc.Object.Kind
import VectorRisc.Object.Linker
import VectorRisc.Object.Segment
import VectorRisc.Platform
import VectorRisc.Proofs.Assembler.Acts
import VectorRisc.Proofs.Assembler.Directives
import VectorRisc.Proofs.Assembler.Invariant
import VectorRisc.Proofs.Assembler.Items
import VectorRisc.Proofs.Assembler.Listing
import VectorRisc.Proofs.Assembler.Moves
import VectorRisc.Proofs.Assembler.Tiling
import VectorRisc.Proofs.Bytes
import VectorRisc.Proofs.Emulator.Code
import VectorRisc.Proofs.Emulator.Decoding
import VectorRisc.Proofs.Emulator.Loading
import VectorRisc.Proofs.Emulator.Relocations
import VectorRisc.Proofs.Emulator.Stored
import VectorRisc.Proofs.Instruction.Code
import VectorRisc.Proofs.Instruction.Disassembly
import VectorRisc.Proofs.Instruction.Field
import VectorRisc.Proofs.Instruction.RoundTrip
import VectorRisc.Proofs.Instruction.Table
import VectorRisc.Proofs.Instruction.Target
import VectorRisc.Proofs.Instruction.Word
import VectorRisc.Proofs.Machine.Alignment
import VectorRisc.Proofs.Machine.Change
import VectorRisc.Proofs.Machine.Clock
import VectorRisc.Proofs.Machine.Ending
import VectorRisc.Proofs.Machine.Failure
import VectorRisc.Proofs.Machine.Run
import VectorRisc.Proofs.Machine.Target
import VectorRisc.Proofs.Memory.Contents
import VectorRisc.Proofs.Memory.Layout
import VectorRisc.Proofs.Memory.Overlap
import VectorRisc.Proofs.Memory.Region
import VectorRisc.Proofs.Numeral.Integer
import VectorRisc.Proofs.Object.Addresses
import VectorRisc.Proofs.Object.Confined
import VectorRisc.Proofs.Object.Image
import VectorRisc.Proofs.Object.Layout
import VectorRisc.Proofs.Object.Linkable
import VectorRisc.Proofs.Object.Linked
import VectorRisc.Proofs.Object.Linking
import VectorRisc.Proofs.Object.Patches
import VectorRisc.Proofs.Object.Reach
import VectorRisc.Proofs.Object.RoundTrip
import VectorRisc.Proofs.Object.Settled
import VectorRisc.Proofs.Object.Slices
import VectorRisc.Proofs.Object.Tables
import VectorRisc.Proofs.Object.Tiling
import VectorRisc.Proofs.Object.WellFormed
import VectorRisc.Proofs.Object.Words
import VectorRisc.Proofs.Outcome
import VectorRisc.Proofs.Text.Operands
import VectorRisc.Sorting
import VectorRisc.Text.Basic
import VectorRisc.Text.Class
import VectorRisc.Text.Class.Graphic
import VectorRisc.Text.Class.Letter
import VectorRisc.Text.Escape
import VectorRisc.Text.Glyph
import VectorRisc.Text.Quoted
import VectorRisc.Proofs.Object.Truncation
import VectorRisc.Proofs.Instruction.Reassembly
import VectorRisc.Proofs.Assembler.Trace
import VectorRisc.Proofs.Text.Pieces
import VectorRisc.Proofs.Assembler.Names
import VectorRisc.Proofs.Assembler.Shadowing
import VectorRisc.Proofs.Assembler.Hygiene
import VectorRisc.Proofs.Text.Trimming
import VectorRisc.Proofs.Assembler.Repetition
import VectorRisc.Proofs.Assembler.Binding
import VectorRisc.Proofs.Assembler.Overfull
import VectorRisc.Proofs.Assembler.Located
import VectorRisc.Proofs.Machine.Arithmetic
import VectorRisc.Proofs.Machine.Immediate
import VectorRisc.Proofs.Memory.Built
import VectorRisc.Proofs.Machine.Stack
import VectorRisc.Proofs.Emulator.Entry
import VectorRisc.Proofs.Machine.Effect
import VectorRisc.Proofs.Machine.Forms
import VectorRisc.Proofs.Machine.Lanes
import VectorRisc.Proofs.Memory.Store
import VectorRisc.Proofs.Machine.Vector
import VectorRisc.Proofs.Memory.Break
import VectorRisc.Proofs.Files.Input
import VectorRisc.Proofs.Machine.Service
import VectorRisc.Proofs.Assembler.Equates
import VectorRisc.Proofs.Numeral.Literal
import VectorRisc.Proofs.Text.Glyphs
import VectorRisc.Proofs.Files.Table
import VectorRisc.Proofs.Files.Consumption
import VectorRisc.Proofs.Memory.Buffer
import VectorRisc.Proofs.Text.Scanning
import VectorRisc.Proofs.Text.Joining
import VectorRisc.Proofs.Text.Quoting
import VectorRisc.Proofs.Assembler.Naming
import VectorRisc.Proofs.Assembler.Expansion
