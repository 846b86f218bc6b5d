import MiniJava.Annotation.Program
import MiniJava.Assembly.Emitter
import MiniJava.Bundle.Decode
import MiniJava.Bundle.Encode
import MiniJava.CommandLine.Run
import MiniJava.Compilation
import MiniJava.Json.Progress
import MiniJava.Lowering.Program
import MiniJava.Main
import MiniJava.Proofs.Compilation
import MiniJava.Proofs.Emission.Simulation
import MiniJava.Proofs.Lowering.Meaning
import MiniJava.Syntax.Builder
import MiniJava.Proofs.Annotation.Recorded
import MiniJava.Proofs.Ir.WellTyped
import MiniJava.Proofs.Annotation.Positions
import MiniJava.Proofs.Lowering.Types
import MiniJava.Proofs.Emission.Total
import MiniJava.Proofs.Lowering.ClassNames
import MiniJava.Proofs.Lowering.Temporaries
import MiniJava.Proofs.Annotation.Rules
import MiniJava.Proofs.Emission.ControlFlow
import MiniJava.Proofs.Lowering.Calls
import MiniJava.Proofs.Symbols
import MiniJava.Proofs.Emission.Linking
import MiniJava.Proofs.SideBySide
import MiniJava.Proofs.Lowering.Declarations
import MiniJava.Proofs.Annotation.Places
import MiniJava.Proofs.Variation.Basic
import MiniJava.Proofs.Variation.Annotation
import MiniJava.Proofs.Variation.Lowering
import MiniJava.Proofs.Variation.Program
import MiniJava.Proofs.Emission.Output
import MiniJava.Proofs.Variation.Plain
import MiniJava.Proofs.Variation.Outline
import MiniJava.Proofs.Variation.Parentheses
import MiniJava.Proofs.Variation.Emission
import MiniJava.Proofs.Variation.Locals
import MiniJava.Proofs.Annotation.Locality
import MiniJava.Proofs.Json.Written
import MiniJava.Proofs.Json.Decoding
import MiniJava.Proofs.Bundle.RoundTrip
import MiniJava.Proofs.Imports.Annotation
import MiniJava.Proofs.Imports.Code
import MiniJava.Proofs.Annotation.Severity
import MiniJava.Proofs.Imports.Emission
import MiniJava.Proofs.Imports.Unused
import MiniJava.Proofs.Modular.Lowering
import MiniJava.Proofs.Modular.Classes
import MiniJava.Lowering.Lowerer
import MiniJava.Proofs.Lowering.Lowerer
import MiniJava.Proofs.Lowering.SingleAssignment
import MiniJava.Proofs.Ir.Slots
import MiniJava.Proofs.Emission.StackHeight
import MiniJava.Proofs.Emission.Meaning
import MiniJava.Proofs.Emission.Lines
import MiniJava.Proofs.Emission.WellFormed
import MiniJava.Proofs.Lowering.Provenance
import MiniJava.Proofs.Numbering
import MiniJava.Proofs.Emission.StaticMethods
import MiniJava.Proofs.Emission.Marks
import MiniJava.Proofs.UniqueIds
import MiniJava.Proofs.Emission.Repeatable
import MiniJava.Proofs.Emission.Descriptors
