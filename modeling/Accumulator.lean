import Accumulator.Main
import Accumulator.Proofs.Assembly.Image
import Accumulator.Proofs.Assembly.Meaning
import Accumulator.Proofs.Machine.Ceiling
import Accumulator.Proofs.Machine.Replay
import Accumulator.Proofs.Machine.Calls
import Accumulator.Proofs.Machine.Faulting
import Accumulator.Proofs.Machine.Terminal
import Accumulator.Proofs.Machine.Consistency
import Accumulator.Proofs.Text.Lines
import Accumulator.Proofs.Observer.Log
import Accumulator.Proofs.Observer.Unambiguous
import Accumulator.Proofs.Machine.Delivery
import Accumulator.Proofs.Assembly.Acceptance
import Accumulator.Proofs.Assembly.Labels
import Accumulator.Proofs.Assembly.Sections
import Accumulator.Proofs.Assembly.Legality
import Accumulator.Proofs.Assembly.Reports
import Accumulator.Proofs.Assembly.Listing
import Accumulator.Proofs.Machine.MemorySize
import Accumulator.Proofs.Machine.Causality
import Accumulator.Proofs.Observer.Limit
import Accumulator.Proofs.Observer.Streaming
import Accumulator.Proofs.Assembly.Renaming
import Accumulator.Proofs.Source.Formatting
import Accumulator.Proofs.CommandLine.Assembler
import Accumulator.Proofs.Program.Overlap
import Accumulator.Proofs.Machine.Frame
import Accumulator.Proofs.Source.Spelling
import Accumulator.Proofs.CommandLine.Session
import Accumulator.Proofs.Source.Numbers
import Accumulator.Proofs.CommandLine.DefaultOutput
import Accumulator.Proofs.Assembly.Overlap
import Accumulator.Proofs.Assembly.Causes
import Accumulator.Proofs.Isa.Decoding
import Accumulator.Proofs.Source.Value
import Accumulator.Proofs.Assembly.Undefined
import Accumulator.Proofs.Assembly.Relocation
import Accumulator.Proofs.Machine.Branching
import Accumulator.Proofs.Machine.Lookup
import Accumulator.Proofs.Observer.Dump
import Accumulator.Proofs.Assembly.Narrowing
