import SuperChip.Main
import SuperChip.Instruction.Numbered
import SuperChip.Frame
import SuperChip.Keymap
import SuperChip.Proofs.Machine.Run
import SuperChip.Proofs.Machine.Step
import SuperChip.Proofs.Machine.Waiting
import SuperChip.Proofs.Machine.Control
import SuperChip.Proofs.Machine.Loading
import SuperChip.Proofs.Machine.DelayedDraws
import SuperChip.Proofs.Machine.Halting
import SuperChip.Proofs.Machine.Calls
import SuperChip.Proofs.Machine.Timers
import SuperChip.Proofs.Machine.KeyReads
import SuperChip.Proofs.Machine.DrawTicks
import SuperChip.Proofs.Machine.Sprite
import SuperChip.Proofs.Machine.Arithmetic
import SuperChip.Proofs.Machine.Stores
import SuperChip.Proofs.Machine.Scrolling
import SuperChip.Proofs.Listing.Reassembly
import SuperChip.Proofs.Listing.Coverage
import SuperChip.Proofs.Listing.Starts
import SuperChip.Proofs.Listing.WalkedCode
import SuperChip.Proofs.Listing.Labels
import SuperChip.Proofs.Listing.OrderedSet
import SuperChip.Proofs.Expr.Value
import SuperChip.Proofs.Expr.Range
import SuperChip.Proofs.Expr.Malformed
import SuperChip.Proofs.Expr.Words
import SuperChip.Proofs.Asm.Change
import SuperChip.Asm.Assembly
import SuperChip.Proofs.Asm.Refusal
import SuperChip.Proofs.Asm.Step
import SuperChip.Proofs.Asm.LabelPart
import SuperChip.Proofs.Asm.OpenConditionals
import SuperChip.Proofs.Asm.Selection
import SuperChip.Proofs.Asm.Skipped
import SuperChip.Proofs.Asm.Encoding
import SuperChip.Proofs.Asm.Filling
import SuperChip.Proofs.Asm.TwoPass
import SuperChip.Proofs.Asm.Image
import SuperChip.Proofs.Asm.Requests
import SuperChip.Proofs.Asm.Emission
import SuperChip.Proofs.Asm.Safety
import SuperChip.Proofs.Asm.PrintedProgram
import SuperChip.Proofs.Asm.Spelling
import SuperChip.Proofs.Instruction.NormalForm
import SuperChip.Proofs.Console.PacedRun
import SuperChip.Proofs.Console.StepLimit
import SuperChip.Proofs.Console.Recording
import SuperChip.Proofs.Monitor.Loading
import SuperChip.Proofs.Monitor.Stepping
import SuperChip.Proofs.Monitor.Running
import SuperChip.Proofs.Monitor.Inspecting
import SuperChip.Proofs.Frame
import SuperChip.Proofs.Tone
import SuperChip.Proofs.Tool.KeptSource
