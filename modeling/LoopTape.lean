import LoopTape.Command.Directory
import LoopTape.Host.Script
import LoopTape.Json.Reading
import LoopTape.Machine.Session
import LoopTape.Main
import LoopTape.Proofs.Json.Lossless
import LoopTape.Proofs.Machine.Safety
import LoopTape.Proofs.Machine.Stopping
import LoopTape.Proofs.Meaning.Preservation
import LoopTape.Proofs.Scope.Stacking
import LoopTape.Proofs.Symbolic.Faults
import LoopTape.Proofs.Symbolic.Lockstep
import LoopTape.Proofs.Tape.Balance
import LoopTape.Proofs.Token.Tiling
import LoopTape.Proofs.Tree.Acceptance
import LoopTape.Proofs.Tree.RoundTrip
import LoopTape.Proofs.Machine.Failing
import LoopTape.Proofs.Token.Slicing
import LoopTape.Proofs.Tree.Viability
import LoopTape.Proofs.Tree.Origin
import LoopTape.Proofs.Tree.Spans
import LoopTape.Proofs.Symbolic.Renamed
import LoopTape.Proofs.Machine.Reserved
import LoopTape.Proofs.Machine.Forward
import LoopTape.Proofs.Symbolic.SideBySide
import LoopTape.Proofs.Diagnostic.Pointing
import LoopTape.Proofs.Diagnostic.Recording
import LoopTape.Proofs.Symbolic.Respacing
import LoopTape.Proofs.Diagnostic.Colours
import LoopTape.Proofs.Command.Views
import LoopTape.Proofs.Tape.Listed
