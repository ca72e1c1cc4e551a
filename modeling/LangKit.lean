import LangKit.Digest.Trial
import LangKit.Lr.Slots
import LangKit.ParserSpec.Build
import LangKit.Scanner.Session
import LangKit.Script.Workbench
import LangKit.Proofs.Grammar.Follow
import LangKit.Proofs.Lr.Kernels
import LangKit.Proofs.Lr.Rightmost
import LangKit.Proofs.Parser.Recovery
import LangKit.Proofs.Execution.Results
import LangKit.Proofs.Safety.Aliasing
import LangKit.Proofs.Safety.Faults
import LangKit.Proofs.Closures.Atomicity
import LangKit.Proofs.Closures.Identity
import LangKit.Proofs.Objects.Simulation
import LangKit.Proofs.Extension.StraightLine
import LangKit.Proofs.Parser.Spans
import LangKit.Proofs.Parser.Halting
import LangKit.Proofs.Parallel.FieldReads
import LangKit.Proofs.Parallel.Sessions
import LangKit.Proofs.Scoping.Visibility
