import Straightline.Batch
import Straightline.Files.Tree
import Straightline.Main
import Straightline.Target.Parser
import Straightline.Target.Store
import Straightline.Proofs.Accepting
import Straightline.Proofs.Arithmetic
import Straightline.Proofs.Climbing
import Straightline.Proofs.Coupling
import Straightline.Proofs.Denotation
import Straightline.Proofs.Dependencies
import Straightline.Proofs.Derivation
import Straightline.Proofs.Evaluation
import Straightline.Proofs.Folding
import Straightline.Proofs.Histories
import Straightline.Proofs.Inlining
import Straightline.Proofs.Legibility
import Straightline.Proofs.Lowering
import Straightline.Proofs.Naming
import Straightline.Proofs.Numerals
import Straightline.Proofs.Optimization
import Straightline.Proofs.Parsing
import Straightline.Proofs.Printing
import Straightline.Proofs.Reachability
import Straightline.Proofs.Reading
import Straightline.Proofs.Recursion
import Straightline.Proofs.Regrouping
import Straightline.Proofs.Rereading
import Straightline.Proofs.Running
import Straightline.Proofs.Scanning
import Straightline.Proofs.Scoping
import Straightline.Proofs.Settling
import Straightline.Proofs.Spelling
import Straightline.Proofs.Steps
import Straightline.Proofs.Wording
import Straightline.Proofs.Idempotence
import Straightline.Proofs.Closedness
import Straightline.Proofs.Doubles
import Straightline.Proofs.Rounding
import Straightline.Proofs.DoubleArithmetic
import Straightline.Proofs.Conversion
import Straightline.Proofs.Identities
import Straightline.Proofs.Faults
import Straightline.Proofs.Totality
import Straightline.Proofs.Truncation
import Straightline.Proofs.Brevity
import Straightline.Proofs.Packing
import Straightline.Proofs.Tiling
import Straightline.Proofs.Liveness
import Straightline.Proofs.Roots
import Straightline.Proofs.Descent
import Straightline.Proofs.Substitution
import Straightline.Proofs.Misspelling
import Straightline.Proofs.Termination
